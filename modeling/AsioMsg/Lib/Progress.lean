import Mathlib.Data.Nat.Notation
import AsioMsg.Lib.Machine

/-!
What a machine comes to, whichever of its permitted steps it takes. Where work
moves through stages, each step has less in one stage and no more in any stage
before it, so that there is an end to it; if there is always a step as long as
the goal is not reached, the end is the goal.
-/

namespace AsioMsg

namespace Machine

variable {σ α : Type*}

/-- Whichever permitted steps are taken, there is a next one until `P` holds, and it holds after
finitely many. -/
inductive Inevitable (m : Machine σ α) (ok : σ → α → Prop) (P : σ → Prop) : σ → Prop
  | now {s : σ} : P s → Inevitable m ok P s
  | next {s : σ} : (∃ a t, ok s a ∧ m.step s a = some t) →
      (∀ a t, ok s a → m.step s a = some t → Inevitable m ok P t) → Inevitable m ok P s

/-- One stage has become less, and none of the stages before it more. -/
def Drains : List (σ → ℕ) → σ → σ → Prop
  | [], _, _ => False
  | stage :: later, s, t => stage t < stage s ∨ (stage t ≤ stage s ∧ Drains later s t)

theorem drains_of_stage {stages : List (σ → ℕ)} {s t : σ} (i : ℕ) {stage : σ → ℕ}
    (hstage : stages[i]? = some stage) (hless : stage t < stage s)
    (hbefore : ∀ earlier ∈ stages.take i, earlier t ≤ earlier s) : Drains stages s t := by
  induction stages generalizing i with
  | nil => simp at hstage
  | cons first later ih =>
    cases i with
    | zero =>
      obtain rfl := Option.some.inj hstage
      exact Or.inl hless
    | succ i =>
      rw [List.take_succ_cons, List.forall_mem_cons] at hbefore
      exact Or.inr ⟨hbefore.1, ih i hstage hbefore.2⟩

theorem drains_wellFounded (stages : List (σ → ℕ)) :
    WellFounded fun t s => Drains stages s t := by
  induction stages with
  | nil => exact ⟨fun s => ⟨s, fun _ h => h.elim⟩⟩
  | cons stage later ih =>
    have hlex := (Prod.lex ⟨(· < ·), Nat.lt_wfRel.wf⟩ ⟨fun t s => Drains later s t, ih⟩).wf
    refine Subrelation.wf ?_ (InvImage.wf (fun s : σ => (stage s, s)) hlex)
    rintro t s (hless | ⟨hle, hlater⟩)
    · exact Prod.Lex.left _ _ hless
    · rcases Nat.lt_or_eq_of_le hle with hless | heq
      · exact Prod.Lex.left _ _ hless
      · exact Prod.lex_def.mpr (Or.inr ⟨heq, hlater⟩)

theorem Inevitable.mono {m : Machine σ α} {ok : σ → α → Prop} {P Q : σ → Prop}
    (himp : ∀ s, P s → Q s) {s : σ} (h : m.Inevitable ok P s) : m.Inevitable ok Q s := by
  induction h with
  | now hP => exact .now (himp _ hP)
  | next hnext _ ih => exact .next hnext ih

/-- The progress rule: under an invariant, steps that drain the stages and do not run out before
`P` holds. -/
theorem inevitable_of_drains {m : Machine σ α} {ok : σ → α → Prop} {I P : σ → Prop}
    (stages : List (σ → ℕ))
    (hkeep : ∀ s a t, I s → ok s a → m.step s a = some t → I t)
    (hdrains : ∀ s a t, I s → ok s a → m.step s a = some t → Drains stages s t)
    (hnext : ∀ s, I s → ¬ P s → ∃ a t, ok s a ∧ m.step s a = some t) {s : σ} (hs : I s) :
    m.Inevitable ok (fun s => I s ∧ P s) s := by
  induction s using (drains_wellFounded stages).induction with
  | _ s ih =>
    by_cases hP : P s
    · exact .now ⟨hs, hP⟩
    · exact .next (hnext s hs hP) fun a t hok hstep =>
        ih t (hdrains s a t hs hok hstep) (hkeep s a t hs hok hstep)

end Machine

end AsioMsg
