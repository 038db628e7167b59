import Mathlib.Logic.Function.Basic

/-!
Machines with labelled, executable steps. A run is a list of labels; a step
that is not enabled has no successor. Reachability carries a condition on
the state before each step and its label, so that one induction serves both
the statements about every run and those about the runs that keep a condition.
-/

namespace AsioMsg

structure Machine (σ α : Type*) where
  init : σ
  step : σ → α → Option σ

namespace Machine

variable {σ α : Type*}

/-- A run of the listed steps; it stops at a step that is not enabled or breaks the condition. -/
def run (m : Machine σ α) (ok : σ → α → Prop) [∀ s a, Decidable (ok s a)] : σ → List α → Option σ
  | s, [] => some s
  | s, a :: rest => if ok s a then (m.step s a).bind fun t => run m ok t rest else none

/-- States reached by steps that all meet the condition `ok`. -/
inductive ReachableWhen (m : Machine σ α) (ok : σ → α → Prop) : σ → Prop
  | init : ReachableWhen m ok m.init
  | step {s t : σ} (a : α) : ReachableWhen m ok s → ok s a → m.step s a = some t →
      ReachableWhen m ok t

def Reachable (m : Machine σ α) (s : σ) : Prop := m.ReachableWhen (fun _ _ => True) s

/-- The invariant rule: what the initial state has and every permitted step
keeps holds in every state the permitted steps reach. -/
theorem ReachableWhen.invariant {m : Machine σ α} {ok : σ → α → Prop} {I : σ → Prop}
    (hinit : I m.init)
    (hstep : ∀ s a t, I s → ok s a → m.step s a = some t → I t)
    {s : σ} (h : m.ReachableWhen ok s) : I s := by
  induction h with
  | init => exact hinit
  | step a _ hok ht ih => exact hstep _ a _ ih hok ht

theorem Reachable.invariant {m : Machine σ α} {I : σ → Prop} (hinit : I m.init)
    (hstep : ∀ s a t, I s → m.step s a = some t → I t)
    {s : σ} (h : m.Reachable s) : I s :=
  ReachableWhen.invariant hinit (fun s a t hs _ ht => hstep s a t hs ht) h

theorem ReachableWhen.mono {m : Machine σ α} {ok ok' : σ → α → Prop}
    (himp : ∀ s a, ok s a → ok' s a) {s : σ} (h : m.ReachableWhen ok s) :
    m.ReachableWhen ok' s := by
  induction h with
  | init => exact .init
  | step a _ hok ht ih => exact .step a ih (himp _ _ hok) ht

theorem reachableWhen_of_run_from (m : Machine σ α) (ok : σ → α → Prop)
    [∀ s a, Decidable (ok s a)] (labels : List α) (s t : σ) (hs : m.ReachableWhen ok s)
    (h : m.run ok s labels = some t) : m.ReachableWhen ok t := by
  induction labels generalizing s with
  | nil =>
    rw [run, Option.some.injEq] at h
    exact h ▸ hs
  | cons a rest ih =>
    rw [run] at h
    split at h
    · next hok =>
      obtain ⟨u, hu, hrest⟩ := Option.bind_eq_some_iff.mp h
      exact ih u (.step a hs hok hu) hrest
    · simp at h

/-- An executed run ends in a reachable state. -/
theorem reachableWhen_of_run {m : Machine σ α} {ok : σ → α → Prop} [∀ s a, Decidable (ok s a)]
    {s : σ} (labels : List α) (h : m.run ok m.init labels = some s) : m.ReachableWhen ok s :=
  reachableWhen_of_run_from m ok labels m.init s .init h

/-- A run that meets a condition meets every weaker one. -/
theorem run_mono {m : Machine σ α} {ok ok' : σ → α → Prop} [∀ s a, Decidable (ok s a)]
    [∀ s a, Decidable (ok' s a)] (himp : ∀ s a, ok s a → ok' s a) (labels : List α) (s t : σ)
    (h : m.run ok s labels = some t) : m.run ok' s labels = some t := by
  induction labels generalizing s with
  | nil => exact h
  | cons a rest ih =>
    rw [run] at h ⊢
    obtain ⟨hok, h⟩ := Option.ite_none_right_eq_some.mp h
    obtain ⟨u, hu, hrest⟩ := Option.bind_eq_some_iff.mp h
    rw [if_pos (himp s a hok), hu, Option.bind_some]
    exact ih u hrest

theorem run_invariant {m : Machine σ α} {ok : σ → α → Prop} [∀ s a, Decidable (ok s a)]
    {I : σ → Prop} (hstep : ∀ s a t, I s → ok s a → m.step s a = some t → I t)
    (labels : List α) (s t : σ) (hs : I s) (hrun : m.run ok s labels = some t) : I t := by
  induction labels generalizing s with
  | nil =>
    rw [run, Option.some.injEq] at hrun
    exact hrun ▸ hs
  | cons a rest ih =>
    rw [run] at hrun
    split at hrun
    · next hok =>
      obtain ⟨u, hu, hrest⟩ := Option.bind_eq_some_iff.mp hrun
      exact ih u (hstep s a u hs hok hu) hrest
    · simp at hrun

/-- A run that meets the condition at every step stays in `G`; any other leaves `G` for `B` with
the first step that breaks the condition, and stays there. -/
theorem run_cases (m : Machine σ α) (ok : σ → α → Prop) [∀ s a, Decidable (ok s a)]
    {G B : σ → Prop} (hkeep : ∀ s a t, G s → ok s a → m.step s a = some t → G t)
    (hbreak : ∀ s a t, G s → ¬ ok s a → m.step s a = some t → B t)
    (hstay : ∀ s a t, B s → m.step s a = some t → B t)
    (labels : List α) (s t : σ) (hs : G s)
    (hrun : m.run (fun _ _ => True) s labels = some t) :
    (m.run ok s labels = some t ∧ G t) ∨ (m.run ok s labels = none ∧ B t) := by
  induction labels generalizing s with
  | nil =>
    rw [run, Option.some.injEq] at hrun
    exact Or.inl ⟨congrArg some hrun, hrun ▸ hs⟩
  | cons a rest ih =>
    rw [run, if_pos trivial] at hrun
    obtain ⟨u, hu, hrest⟩ := Option.bind_eq_some_iff.mp hrun
    by_cases hok : ok s a
    · rw [run, if_pos hok, hu, Option.bind_some]
      exact ih u (hkeep s a u hs hok hu) hrest
    · have hbad : B t := run_invariant (fun s a t hs _ ht => hstay s a t hs ht) rest u t
        (hbreak s a u hs hok hu) hrest
      exact Or.inr ⟨by rw [run, if_neg hok], hbad⟩

/-- The states that a run comes through, the first one included. -/
def visits (m : Machine σ α) : σ → List α → List σ
  | s, [] => [s]
  | s, a :: rest => s :: ((m.step s a).map fun t => visits m t rest).getD []

theorem mem_visits (m : Machine σ α) (s : σ) (labels : List α) : s ∈ m.visits s labels := by
  cases labels <;> simp [visits]

/-- If, under an invariant, a step keeps `P` exactly when it meets the condition, then `P` holds
all along a run exactly when all its steps do. -/
theorem always_iff_run (m : Machine σ α) (ok : σ → α → Prop) [∀ s a, Decidable (ok s a)]
    {I P : σ → Prop} (hinv : ∀ s a t, I s → m.step s a = some t → I t)
    (hstep : ∀ s a t, I s → P s → m.step s a = some t → (P t ↔ ok s a))
    (labels : List α) (s t : σ) (hI : I s) (hP : P s)
    (hrun : m.run (fun _ _ => True) s labels = some t) :
    (∀ u ∈ m.visits s labels, P u) ↔ m.run ok s labels = some t := by
  induction labels generalizing s with
  | nil =>
    rw [run, Option.some.injEq] at hrun
    subst hrun
    simp [visits, run, hP]
  | cons a rest ih =>
    rw [run, if_pos trivial] at hrun
    obtain ⟨u, hu, hrest⟩ := Option.bind_eq_some_iff.mp hrun
    rw [visits, hu, Option.map_some, Option.getD_some, List.forall_mem_cons, run, hu,
      Option.bind_some]
    by_cases hok : ok s a
    · rw [if_pos hok, ← ih u (hinv s a u hI hu) ((hstep s a u hI hP hu).mpr hok) hrest]
      exact and_iff_right hP
    · rw [if_neg hok]
      constructor
      · rintro ⟨_, hall⟩
        exact absurd ((hstep s a u hI hP hu).mp (hall u (m.mem_visits u rest))) hok
      · intro h
        simp at h

end Machine

end AsioMsg
