import Mathlib.Logic.Function.Basic

/-!
Computations that record what they touch. A value carries the list of
recorded events in the order they happened, so that a safety statement about
every event of a computation is a statement about one list.
-/

namespace AsioMsg

structure Traced (ε α : Type) where
  log : List ε
  value : α

namespace Traced

variable {ε α β : Type}

def emit (e : ε) : Traced ε Unit := ⟨[e], ()⟩

instance : Monad (Traced ε) where
  pure a := ⟨[], a⟩
  bind x f := ⟨x.log ++ (f x.value).log, (f x.value).value⟩

/-- The computation with the events of an earlier one in front of its own. -/
def after (x : Traced ε α) (earlier : List ε) : Traced ε α := ⟨earlier ++ x.log, x.value⟩

@[simp] theorem after_value (x : Traced ε α) (earlier : List ε) :
    (x.after earlier).value = x.value := rfl

@[simp] theorem emit_log (e : ε) : (emit e).log = [e] := rfl

@[simp] theorem pure_value (a : α) : (pure a : Traced ε α).value = a := rfl

@[simp] theorem pure_log (a : α) : (pure a : Traced ε α).log = [] := rfl

@[simp] theorem bind_value (x : Traced ε α) (f : α → Traced ε β) :
    (x >>= f).value = (f x.value).value := rfl

@[simp] theorem bind_log (x : Traced ε α) (f : α → Traced ε β) :
    (x >>= f).log = x.log ++ (f x.value).log := rfl

/-- Every recorded event satisfies `P`. -/
def All (P : ε → Prop) (x : Traced ε α) : Prop := ∀ e ∈ x.log, P e

@[simp] theorem all_pure (P : ε → Prop) (a : α) : All P (pure a : Traced ε α) := by
  simp [All]

@[simp] theorem all_emit (P : ε → Prop) (e : ε) : All P (emit e) ↔ P e := by
  simp [All]

theorem all_bind (P : ε → Prop) (x : Traced ε α) (f : α → Traced ε β) :
    All P (x >>= f) ↔ All P x ∧ All P (f x.value) := by
  simp only [All, bind_log, List.forall_mem_append]

theorem all_after (P : ε → Prop) (x : Traced ε α) (earlier : List ε) :
    All P (x.after earlier) ↔ (∀ e ∈ earlier, P e) ∧ All P x := by
  simp only [All, after, List.forall_mem_append]

end Traced

end AsioMsg
