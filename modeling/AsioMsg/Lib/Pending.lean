import Mathlib.Data.List.Perm.Basic

/-!
Lists of pending work. Any element may be the next one to be taken, and
finished work is appended to a record that only grows.
-/

namespace AsioMsg

namespace Pending

variable {α : Type*}

/-- The taken element and the others are all there was. -/
theorem perm_eraseIdx {l : List α} {i : ℕ} {a : α} (h : l[i]? = some a) :
    (a :: l.eraseIdx i).Perm l := by
  obtain ⟨hi, rfl⟩ := List.getElem?_eq_some_iff.mp h
  exact List.getElem_cons_eraseIdx_perm hi

/-- What was pending is the taken element, or is pending still. -/
theorem eq_or_mem_eraseIdx {l : List α} {i : ℕ} {a b : α} (h : l[i]? = some a) (hmem : b ∈ l) :
    b = a ∨ b ∈ l.eraseIdx i :=
  List.mem_cons.mp ((perm_eraseIdx h).mem_iff.mpr hmem)

/-- What was pending is the element to be replaced, or is pending still. -/
theorem mem_set_or_eq {l : List α} {i : ℕ} {a b c : α} (h : l[i]? = some a) (hmem : b ∈ l) :
    b ∈ l.set i c ∨ b = a := by
  obtain ⟨j, hj, rfl⟩ := List.getElem_of_mem hmem
  by_cases heq : i = j
  · subst heq
    exact Or.inr (Option.some.inj ((List.getElem?_eq_getElem hj).symm.trans h))
  · refine Or.inl (List.mem_of_getElem? (i := j) ?_)
    rw [List.getElem?_set_ne heq]
    exact List.getElem?_eq_getElem hj

/-- Moving an element from the pending work to the end of the record. -/
theorem perm_finish {pending record : List α} {i : ℕ} {a : α} (h : pending[i]? = some a) :
    (pending.eraseIdx i ++ (record ++ [a])).Perm (pending ++ record) := by
  rw [← List.append_assoc]
  refine (List.perm_append_singleton a _).trans ?_
  rw [← List.cons_append]
  exact (perm_eraseIdx h).append_right record

/-- Entries of a record keep their place. -/
theorem getElem?_of_initial {l l' : List α} (hpre : l <+: l') {i : ℕ} {a : α}
    (h : l[i]? = some a) : l'[i]? = some a := by
  obtain ⟨hi, rfl⟩ := List.getElem?_eq_some_iff.mp h
  exact List.prefix_iff_getElem?.mp hpre i hi

end Pending

end AsioMsg
