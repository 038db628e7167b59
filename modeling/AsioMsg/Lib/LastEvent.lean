import Mathlib.Data.List.Induction

/-!
Values and facts that the last relevant event of a history decides. An event
may set the value or leave it alone; after a whole history it is what the last
event that did not leave it alone has set.
-/

namespace AsioMsg

variable {ε σ β : Type*}

/-- The value that the last event with a mark has set; `default` if there was none. -/
def lastMark (default : β) (mark : ε → Option β) (history : List ε) : β :=
  (history.reverse.findSome? mark).getD default

@[simp] theorem lastMark_nil (default : β) (mark : ε → Option β) :
    lastMark default mark [] = default := rfl

theorem lastMark_concat (default : β) (mark : ε → Option β) (history : List ε) (e : ε) :
    lastMark default mark (history ++ [e]) = (mark e).getD (lastMark default mark history) := by
  rw [lastMark, List.reverse_concat, List.findSome?_cons]
  cases mark e <;> rfl

/-- A fact that every event changes as its mark tells holds after a history iff the last event
with a mark has made it true. -/
theorem holds_foldl_iff (step : σ → ε → σ) (P : σ → Prop) (mark : ε → Option Bool)
    (hsome : ∀ s e b, mark e = some b → (P (step s e) ↔ b = true))
    (hnone : ∀ s e, mark e = none → (P (step s e) ↔ P s)) (init : σ) (hinit : ¬ P init)
    (history : List ε) : P (history.foldl step init) ↔ lastMark false mark history = true := by
  induction history using List.reverseRecOn with
  | nil => simpa using hinit
  | append_singleton history e ih =>
    rw [List.foldl_append, List.foldl_cons, List.foldl_nil, lastMark_concat]
    cases he : mark e with
    | some b => exact hsome _ e b he
    | none => exact (hnone _ e he).trans ih

/-- Events that all make a fact the same, or leave it alone, decide it if one of them makes it. -/
theorem holds_foldl_of_agree (step : σ → ε → σ) (P : σ → Prop) (mark : ε → Option Bool)
    (hsome : ∀ s e b, mark e = some b → (P (step s e) ↔ b = true))
    (hnone : ∀ s e, mark e = none → (P (step s e) ↔ P s)) (value : Bool) (history : List ε)
    (hagree : ∀ e ∈ history, ∀ b, mark e = some b → b = value) (init : σ) :
    P (history.foldl step init) ↔
      ((∃ e ∈ history, (mark e).isSome) ∧ value = true) ∨
        ((¬ ∃ e ∈ history, (mark e).isSome) ∧ P init) := by
  induction history generalizing init with
  | nil => simp
  | cons e rest ih =>
    rw [List.foldl_cons, ih (fun e he => hagree e (List.mem_cons_of_mem _ he))]
    cases he : mark e with
    | some b =>
      obtain rfl := hagree e List.mem_cons_self b he
      rw [hsome init e b he]
      by_cases hrest : ∃ e ∈ rest, (mark e).isSome <;> simp [hrest, he]
    | none =>
      rw [hnone init e he]
      simp [he]

end AsioMsg
