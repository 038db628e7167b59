import AsioMsg.Lib.Pending

/-!
Condition variables as wait sets. A thread that waits is woken by a
notification or for no reason at all; until it is back under the mutex it is
on its way, and it then looks at its condition again. Work is covered when
nobody sleeps or at least as many threads have been notified: the counting
that rules out lost wakeups.
-/

namespace AsioMsg

/-- The threads that wait, those that were notified and those that woke up for no reason. -/
structure CondVar (τ : Type*) where
  waiting : List τ := []
  notified : List τ := []
  spurious : List τ := []

/-- A thread on its way back to the mutex. -/
inductive Woken
  | notified (i : ℕ)
  | spurious (i : ℕ)

namespace CondVar

variable {τ : Type*} {cv cv' : CondVar τ} {n m : ℕ}

def wait (cv : CondVar τ) (thread : τ) : CondVar τ :=
  { cv with waiting := cv.waiting ++ [thread] }

/-- One waiting thread is notified, if there is one; `i` stands for the choice of the scheduler. -/
def notifyOne (cv : CondVar τ) (i : ℕ) : CondVar τ :=
  match cv.waiting[i % cv.waiting.length]? with
  | some thread => { cv with
      waiting := cv.waiting.eraseIdx (i % cv.waiting.length)
      notified := cv.notified ++ [thread] }
  | none => cv

def notifyAll (cv : CondVar τ) : CondVar τ :=
  { cv with waiting := [], notified := cv.notified ++ cv.waiting }

/-- A spurious wakeup. -/
def rouse (cv : CondVar τ) (i : ℕ) : Option (CondVar τ) :=
  (cv.waiting[i]?).map fun thread => { cv with
    waiting := cv.waiting.eraseIdx i
    spurious := cv.spurious ++ [thread] }

/-- A woken thread gets the mutex back. -/
def resume (cv : CondVar τ) : Woken → Option (τ × CondVar τ)
  | .notified i => (cv.notified[i]?).map fun thread =>
      (thread, { cv with notified := cv.notified.eraseIdx i })
  | .spurious i => (cv.spurious[i]?).map fun thread =>
      (thread, { cv with spurious := cv.spurious.eraseIdx i })

/-- Nobody sleeps, or there are `n` notified threads. -/
def Covers (cv : CondVar τ) (n : ℕ) : Prop := cv.waiting = [] ∨ n ≤ cv.notified.length

theorem covers_zero (cv : CondVar τ) : cv.Covers 0 := Or.inr (Nat.zero_le _)

theorem Covers.mono (h : cv.Covers n) (hle : m ≤ n) : cv.Covers m :=
  h.imp_right (Nat.le_trans hle)

/-- A notification covers one more piece of work. -/
theorem Covers.notifyOne (h : cv.Covers n) (i : ℕ) : (cv.notifyOne i).Covers (n + 1) := by
  unfold CondVar.notifyOne
  split
  · next thread hget =>
    have hne : cv.waiting ≠ [] := by
      intro hnil
      simp [hnil] at hget
    have hle := h.resolve_left hne
    right
    simp only [List.length_append, List.length_singleton]
    omega
  · next hnone =>
    left
    by_contra hne
    have hlt := Nat.mod_lt i (List.length_pos_iff.mpr hne)
    exact absurd (List.getElem?_eq_none_iff.mp hnone) (Nat.not_le_of_lt hlt)

theorem covers_notifyAll (cv : CondVar τ) (n : ℕ) : cv.notifyAll.Covers n := Or.inl rfl

theorem Covers.rouse (h : cv.Covers n) {i : ℕ} (hrouse : cv.rouse i = some cv') :
    cv'.Covers n := by
  obtain ⟨thread, _, rfl⟩ := Option.map_eq_some_iff.mp hrouse
  rcases h with hnil | hle
  · exact Or.inl (by simp [hnil])
  · exact Or.inr hle

/-- A thread that comes back takes one piece of work with it. -/
theorem Covers.resume (h : cv.Covers n) {w : Woken} {thread : τ}
    (hresume : cv.resume w = some (thread, cv')) : cv'.Covers (n - 1) := by
  cases w with
  | notified i =>
    obtain ⟨_, hget, hcv⟩ := Option.map_eq_some_iff.mp hresume
    obtain ⟨_, rfl⟩ := Prod.mk.inj hcv
    obtain ⟨hi, _⟩ := List.getElem?_eq_some_iff.mp hget
    rcases h with hnil | hle
    · exact Or.inl hnil
    · right
      rw [List.length_eraseIdx_of_lt hi]
      omega
  | spurious i =>
    obtain ⟨_, _, hcv⟩ := Option.map_eq_some_iff.mp hresume
    obtain ⟨_, rfl⟩ := Prod.mk.inj hcv
    exact h.mono (Nat.sub_le n 1)

theorem waiting_rouse {i : ℕ} (hrouse : cv.rouse i = some cv') (hnil : cv.waiting = []) :
    cv'.waiting = [] := by
  obtain ⟨_, _, rfl⟩ := Option.map_eq_some_iff.mp hrouse
  simp [hnil]

theorem waiting_resume {w : Woken} {thread : τ} (hresume : cv.resume w = some (thread, cv')) :
    cv'.waiting = cv.waiting := by
  cases w with
  | notified i =>
    obtain ⟨_, _, hcv⟩ := Option.map_eq_some_iff.mp hresume
    exact (congrArg CondVar.waiting (Prod.mk.inj hcv).2).symm
  | spurious i =>
    obtain ⟨_, _, hcv⟩ := Option.map_eq_some_iff.mp hresume
    exact (congrArg CondVar.waiting (Prod.mk.inj hcv).2).symm

theorem waiting_notifyOne (i : ℕ) (hnil : cv.waiting = []) :
    (cv.notifyOne i).waiting = [] := by
  simp [notifyOne, hnil]

/-- All threads that have called wait and are not back. -/
def threads (cv : CondVar τ) : List τ := cv.waiting ++ (cv.notified ++ cv.spurious)

/-- Whoever is not asleep can come back. -/
theorem exists_resume (cv : CondVar τ) {thread : τ} (hmem : thread ∈ cv.threads)
    (hawake : thread ∉ cv.waiting) : ∃ w cv', cv.resume w = some (thread, cv') := by
  rcases List.mem_append.mp ((List.mem_append.mp hmem).resolve_left hawake) with hmem | hmem
  · obtain ⟨i, hget⟩ := List.getElem?_of_mem hmem
    exact ⟨.notified i, _, by rw [resume, hget]; rfl⟩
  · obtain ⟨i, hget⟩ := List.getElem?_of_mem hmem
    exact ⟨.spurious i, _, by rw [resume, hget]; rfl⟩

theorem perm_wait (cv : CondVar τ) (thread : τ) :
    (cv.wait thread).threads.Perm (thread :: cv.threads) := by
  simp only [threads, wait, List.append_assoc, List.singleton_append]
  exact List.perm_middle

theorem perm_notifyOne (cv : CondVar τ) (i : ℕ) : (cv.notifyOne i).threads.Perm cv.threads := by
  unfold CondVar.notifyOne
  split
  · next thread hget =>
    simp only [threads, List.append_assoc, List.singleton_append]
    refine (List.perm_middle.append_left _).trans (List.perm_middle.trans ?_)
    exact (Pending.perm_eraseIdx hget).append_right _
  · exact List.Perm.refl _

theorem perm_notifyAll (cv : CondVar τ) : cv.notifyAll.threads.Perm cv.threads := by
  simp only [threads, notifyAll, List.nil_append, ← List.append_assoc]
  exact List.perm_append_comm.append_right _

theorem perm_rouse {i : ℕ} (hrouse : cv.rouse i = some cv') : cv'.threads.Perm cv.threads := by
  obtain ⟨thread, hget, rfl⟩ := Option.map_eq_some_iff.mp hrouse
  simp only [threads, ← List.append_assoc]
  refine List.perm_append_comm.trans ?_
  rw [List.singleton_append, ← List.cons_append, ← List.cons_append]
  exact ((Pending.perm_eraseIdx hget).append_right _).append_right _

theorem perm_resume {w : Woken} {thread : τ} (hresume : cv.resume w = some (thread, cv')) :
    cv.threads.Perm (thread :: cv'.threads) := by
  cases w with
  | notified i =>
    obtain ⟨_, hget, hcv⟩ := Option.map_eq_some_iff.mp hresume
    obtain ⟨rfl, rfl⟩ := Prod.mk.inj hcv
    exact (((Pending.perm_eraseIdx hget).symm.append_right _).append_left _).trans
      List.perm_middle
  | spurious i =>
    obtain ⟨_, hget, hcv⟩ := Option.map_eq_some_iff.mp hresume
    obtain ⟨rfl, rfl⟩ := Prod.mk.inj hcv
    refine (((Pending.perm_eraseIdx hget).symm.append_left _).append_left _).trans ?_
    exact (List.perm_middle.append_left _).trans List.perm_middle

end CondVar

end AsioMsg
