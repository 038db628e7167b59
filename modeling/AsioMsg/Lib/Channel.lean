import AsioMsg.Lib.Reassembly

/-!
Items on their way through a stream. Behind the reader there is a wire whose
bytes have not been read yet; what is in the reader's buffer and on the wire
together carries the items that are still to be delivered. A writer appends
bytes to the wire, a read takes any first part of it.
-/

namespace AsioMsg

namespace Reader

variable {σ π α : Type*}

/-- The buffer and the wire carry the items, and the buffer alone carries none. -/
structure InTransit (r : Reader σ π α) (R : List π → List α → Prop) (items : List π) (s : σ)
    (wire : List α) : Prop where
  carried : R items (r.content s ++ wire)
  drained : ∀ others, R others (r.content s) → others = []

variable {r : Reader σ π α} {R : List π → List α → Prop} {items : List π} {s : σ}
  {wire : List α}

/-- Nothing is in transit over an empty wire. -/
theorem InTransit.eq_nil (h : r.InTransit R items s []) : items = [] := by
  have hcarried := h.carried
  rw [List.append_nil] at hcarried
  exact h.drained items hcarried

/-- A writer that appends the bytes of one item. -/
theorem InTransit.write (h : r.InTransit R items s wire) {item : π} {bytes : List α}
    (happend : ∀ ps bs, R ps bs → R (ps ++ [item]) (bs ++ bytes)) :
    r.InTransit R (items ++ [item]) s (wire ++ bytes) where
  carried := by
    rw [← List.append_assoc]
    exact happend _ _ h.carried
  drained := h.drained

/-- A read of any first part of the wire does not fail; it delivers the next items, and the
others stay in transit. -/
theorem InTransit.read (h : r.InTransit R items s wire) (hc : r.Carries R) {chunk : List α}
    (hchunk : chunk <+: wire) :
    (r.drain (r.append s chunk)).failed = false ∧
      ∃ rest, items = (r.drain (r.append s chunk)).items ++ rest ∧
        r.InTransit R rest (r.drain (r.append s chunk)).state (wire.drop chunk.length) := by
  obtain ⟨later, rfl⟩ := hchunk
  have hcarried := h.carried
  rw [← List.append_assoc, ← r.content_append] at hcarried
  rw [List.drop_left]
  rcases drain_conveys hc.conveys items _ later hcarried with
    ⟨_, hfalse, _⟩ | ⟨hfail, ⟨rest, hitems, hrest⟩, hdrained⟩
  · exact hfalse.elim
  · exact ⟨hfail, rest, hitems, hrest, hdrained⟩

end Reader

end AsioMsg
