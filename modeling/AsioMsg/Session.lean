import AsioMsg.Lib.Pending
import AsioMsg.ProtoHelp

/-!
The writing side of Session: the deque of buffers, of which the front is being
written. What a session hands to its socket is a first part of what
writeBuffer was called with, whatever the order of calls and completions.
-/

namespace AsioMsg

variable {M β : Type}

/-- The package Session::replyMessage sends. -/
def replyPackage (b : Build M) (req : Package M) (rspMsg : M) : Package M where
  header := req.header
  typeName := b.protobuf.getTypeName rspMsg
  msgPtr := some rspMsg

/-- The write deque of a session with what has passed through it. -/
structure SessionOut (β : Type) where
  writeDeque : List β := []
  /-- The buffers of the outstanding async_write operations. -/
  writes : List β := []
  /-- The arguments of writeBuffer so far, and the buffers async_write was called with. -/
  calls : List β := []
  started : List β := []

namespace SessionOut

variable {s t : SessionOut β}

def startWrite (s : SessionOut β) : SessionOut β :=
  match s.writeDeque with
  | [] => s
  | buf :: _ => { s with writes := s.writes ++ [buf], started := s.started ++ [buf] }

def writeBuffer (s : SessionOut β) (buffer : β) : SessionOut β :=
  let writeInProgress := !s.writeDeque.isEmpty
  let s := { s with writeDeque := s.writeDeque ++ [buffer], calls := s.calls ++ [buffer] }
  if writeInProgress then s else s.startWrite

/-- The completion of the i-th outstanding write; after an error nothing is written any more. -/
def doWrite (s : SessionOut β) (i : ℕ) (success : Bool) : SessionOut β :=
  let s := { s with writes := s.writes.eraseIdx i }
  if success then { s with writeDeque := s.writeDeque.tail }.startWrite else s

theorem startWrite_eq (s : SessionOut β) :
    s.startWrite = { s with
      writes := s.writes ++ s.writeDeque.take 1
      started := s.started ++ s.writeDeque.take 1 } := by
  obtain ⟨writeDeque, writes, calls, started⟩ := s
  cases writeDeque <;> simp [startWrite]

theorem writeBuffer_eq (s : SessionOut β) (buffer : β) :
    s.writeBuffer buffer = { s with
      writeDeque := s.writeDeque ++ [buffer]
      calls := s.calls ++ [buffer]
      writes := s.writes ++ if s.writeDeque = [] then [buffer] else []
      started := s.started ++ if s.writeDeque = [] then [buffer] else [] } := by
  cases h : s.writeDeque with
  | nil => simp [writeBuffer, startWrite_eq, h]
  | cons front rest => simp [writeBuffer, h]

@[simp] theorem doWrite_calls (s : SessionOut β) (i : ℕ) (success : Bool) :
    (s.doWrite i success).calls = s.calls := by
  cases success <;> simp [doWrite, startWrite_eq]

/-- The front is being written and everything before it is through. -/
structure Flowing (s : SessionOut β) : Prop where
  writes_eq : s.writes = s.writeDeque.take 1
  calls_eq : ∃ written, s.calls = written ++ s.writeDeque ∧
    s.started = written ++ s.writeDeque.take 1

/-- A write has failed: its buffer stays in front and nothing is being written. -/
structure Failed (s : SessionOut β) : Prop where
  writes_eq : s.writes = []
  writeDeque_ne : s.writeDeque ≠ []
  started_initial : s.started <+: s.calls

def Inv (s : SessionOut β) : Prop := s.Flowing ∨ s.Failed

theorem Flowing.started_initial (h : s.Flowing) : s.started <+: s.calls := by
  obtain ⟨written, hcalls, hstarted⟩ := h.calls_eq
  rw [hcalls, hstarted]
  exact (List.prefix_append_right_inj _).mpr (List.take_prefix _ _)

theorem Inv.started_initial (h : s.Inv) : s.started <+: s.calls :=
  h.elim Flowing.started_initial Failed.started_initial

theorem Flowing.writeBuffer (h : s.Flowing) (buffer : β) : (s.writeBuffer buffer).Flowing := by
  obtain ⟨written, hcalls, hstarted⟩ := h.calls_eq
  have hwrites := h.writes_eq
  rw [writeBuffer_eq]
  cases hdeque : s.writeDeque with
  | nil =>
    rw [hdeque] at hcalls hstarted hwrites
    exact ⟨by simp [hwrites], written, by simp [hcalls], by simp [hstarted]⟩
  | cons front rest =>
    rw [hdeque] at hcalls hstarted hwrites
    exact ⟨by simp [hwrites], written, by simp [hcalls], by simp [hstarted]⟩

/-- Behind a failed write buffers only pile up. -/
theorem Failed.writeBuffer_eq (h : s.Failed) (buffer : β) :
    s.writeBuffer buffer = { s with
      writeDeque := s.writeDeque ++ [buffer]
      calls := s.calls ++ [buffer] } := by
  simp only [SessionOut.writeBuffer_eq, h.writeDeque_ne, if_false, List.append_nil]

theorem Failed.writeBuffer (h : s.Failed) (buffer : β) : (s.writeBuffer buffer).Failed := by
  rw [h.writeBuffer_eq]
  exact ⟨h.writes_eq, by simp, h.started_initial.trans (List.prefix_append _ _)⟩

theorem Inv.writeBuffer (h : s.Inv) (buffer : β) : (s.writeBuffer buffer).Inv :=
  h.imp (fun h => h.writeBuffer buffer) fun h => h.writeBuffer buffer

/-- The only outstanding write is that of the front. -/
theorem Flowing.of_write (h : s.Flowing) {i : ℕ} {buf : β} (hget : s.writes[i]? = some buf) :
    s.writes.eraseIdx i = [] ∧ ∃ rest, s.writeDeque = buf :: rest := by
  have hwrites := h.writes_eq
  obtain ⟨hi, hbuf⟩ := List.getElem?_eq_some_iff.mp hget
  cases hdeque : s.writeDeque with
  | nil => simp [hwrites, hdeque] at hi
  | cons front rest =>
    rw [hdeque, List.take_succ_cons, List.take_zero] at hwrites
    have hi0 : i = 0 := by
      rw [hwrites, List.length_singleton] at hi
      omega
    subst hi0
    simp only [hwrites, List.getElem_cons_zero] at hbuf
    subst hbuf
    exact ⟨by rw [hwrites]; rfl, rest, rfl⟩

theorem Inv.flowing_of_write (h : s.Inv) {i : ℕ} {buf : β} (hget : s.writes[i]? = some buf) :
    s.Flowing := by
  rcases h with h | h
  · exact h
  · simp [h.writes_eq] at hget

/-- A completed write is popped and the next one started. -/
theorem Flowing.doWrite_success (h : s.Flowing) {i : ℕ} {buf : β} {rest : List β}
    (herase : s.writes.eraseIdx i = []) (hdeque : s.writeDeque = buf :: rest) :
    s.doWrite i true = { s with
        writeDeque := rest
        writes := rest.take 1
        started := s.started ++ rest.take 1 } ∧
      (s.doWrite i true).Flowing := by
  obtain ⟨written, hcalls, hstarted⟩ := h.calls_eq
  have heq : s.doWrite i true = { s with
      writeDeque := rest
      writes := rest.take 1
      started := s.started ++ rest.take 1 } := by
    simp [SessionOut.doWrite, startWrite_eq, herase, hdeque]
  refine ⟨heq, ?_⟩
  rw [heq]
  refine ⟨rfl, written ++ [buf], ?_, ?_⟩
  · rw [hcalls, hdeque, List.append_assoc, List.singleton_append]
  · rw [hstarted, hdeque, List.take_succ_cons, List.take_zero]

theorem Flowing.doWrite_error (h : s.Flowing) {i : ℕ} {buf : β} {rest : List β}
    (herase : s.writes.eraseIdx i = []) (hdeque : s.writeDeque = buf :: rest) :
    s.doWrite i false = { s with writes := [] } ∧ (s.doWrite i false).Failed := by
  have heq : s.doWrite i false = { s with writes := [] } := by
    simp [SessionOut.doWrite, herase]
  refine ⟨heq, ?_⟩
  rw [heq]
  exact ⟨rfl, by simp [hdeque], h.started_initial⟩

theorem Inv.doWrite (h : s.Inv) {i : ℕ} {buf : β} (hget : s.writes[i]? = some buf)
    (success : Bool) : (s.doWrite i success).Inv := by
  have hflow := h.flowing_of_write hget
  obtain ⟨herase, rest, hdeque⟩ := hflow.of_write hget
  cases success with
  | true => exact Or.inl (hflow.doWrite_success herase hdeque).2
  | false => exact Or.inr (hflow.doWrite_error herase hdeque).2

end SessionOut

end AsioMsg
