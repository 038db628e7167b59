import AsioMsg.Decode

/-!
decode and the flag search as one loop over looks at the front of the buffer.
A look either ends the call, drops one byte, or ends an activation that calls
decode again. Each look has a memory of its own behind the buffer, so an
over-long read yields anything each time; none of it keeps the loop running.
-/

namespace AsioMsg

namespace Build

variable {M : Type}

/-- An activation of decode once gotoFlag has found the flag. -/
def decodeFound (b : Build M) (mem : Memory) (buf : Buffer) : Traced Access (Pass M) := do
  let header := bufferPeekHeader mem buf
  if buf.readableBytes < sizeT header.pacSize.toInt then
    return .done .null buf
  else
    let buf ← buf.retrieve kPackageHeaderSize
    if badPacSize header || badTypeNameLen header then
      return .again buf
    else
      b.decodeNamed mem header buf

/-- One turn of the loop of gotoFlag, with what follows where the loop ends there. -/
def decodeLook (b : Build M) (mem : Memory) (buf : Buffer) : Pass M :=
  if kPackageHeaderSize < buf.readableBytes then
    if startsWithFlag (buf.peekBytes mem 2) then
      (b.decodeFound mem buf).value
    else
      .again (buf.retrieve 1).value
  else
    .done .null buf

/-- The call with one look for each memory; `none` if that does not end it. -/
def decodeWithin (b : Build M) : List Memory → Buffer → Option (Decoded M × Buffer)
  | [], _ => none
  | mem :: mems, buf =>
      match b.decodeLook mem buf with
      | .done result rest => some (result, rest)
      | .again rest => decodeWithin b mems rest

theorem decodePass_eq (b : Build M) (mem : Memory) (buf : Buffer) :
    b.decodePass mem buf =
      (do
        let (found, buf) ← gotoFlag mem buf
        if found then b.decodeFound mem buf else return .done .null buf) :=
  rfl

/-- With the flag in front the search stops at once. -/
theorem decodePass_of_flag (b : Build M) (mem : Memory) (buf : Buffer)
    (hlong : kPackageHeaderSize < buf.readableBytes)
    (hflag : startsWithFlag (buf.peekBytes mem 2) = true) :
    (b.decodePass mem buf).value = (b.decodeFound mem buf).value := by
  rw [decodePass_eq, gotoFlag, if_pos hlong, if_pos hflag]
  simp only [Traced.bind_value, Traced.pure_value, if_true]

/-- The bytes that the search drops make no difference to what follows. -/
theorem decodePass_of_scan (b : Build M) (mem : Memory) (buf : Buffer)
    (hlong : kPackageHeaderSize < buf.readableBytes)
    (hflag : ¬ startsWithFlag (buf.peekBytes mem 2) = true) :
    (b.decodePass mem buf).value = (b.decodePass mem (buf.retrieve 1).value).value := by
  rw [decodePass_eq, gotoFlag, if_pos hlong, if_neg hflag]
  rfl

theorem decodePass_of_short (b : Build M) (mem : Memory) (buf : Buffer)
    (hshort : ¬ kPackageHeaderSize < buf.readableBytes) :
    (b.decodePass mem buf).value = .done .null buf := by
  rw [decodePass_eq, gotoFlag, if_neg hshort]
  rfl

/-- The result of decode is that of its first activation, or of the call that this one makes. -/
theorem decode_value (b : Build M) (mem : Memory) (buf : Buffer) :
    (b.decode mem buf).value =
      match (b.decodePass mem buf).value with
      | .done result rest => (result, rest)
      | .again rest => (b.decode mem rest).value := by
  cases h : (b.decodePass mem buf).value with
  | done result rest => rw [decode_of_done b mem buf rest result h]
  | again rest => exact decode_value_of_again b mem buf rest h

/-- A look is a whole activation, or drops a byte that the activation drops too. -/
theorem decodeLook_cases (b : Build M) (mem : Memory) (buf : Buffer) :
    b.decodeLook mem buf = (b.decodePass mem buf).value ∨
      0 < buf.readableBytes ∧ b.decodeLook mem buf = .again (buf.retrieve 1).value ∧
        (b.decodePass mem buf).value = (b.decodePass mem (buf.retrieve 1).value).value := by
  unfold decodeLook
  by_cases hlong : kPackageHeaderSize < buf.readableBytes
  · rw [if_pos hlong]
    by_cases hflag : startsWithFlag (buf.peekBytes mem 2) = true
    · rw [if_pos hflag]
      exact Or.inl (decodePass_of_flag b mem buf hlong hflag).symm
    · rw [if_neg hflag]
      exact Or.inr ⟨Nat.zero_lt_of_lt hlong, rfl, decodePass_of_scan b mem buf hlong hflag⟩
  · rw [if_neg hlong]
    exact Or.inl (decodePass_of_short b mem buf hlong).symm

/-- A look agrees with decode on what is left to do. -/
theorem decode_of_look (b : Build M) (mem : Memory) (buf : Buffer) :
    (b.decode mem buf).value =
      match b.decodeLook mem buf with
      | .done result rest => (result, rest)
      | .again rest => (b.decode mem rest).value := by
  rcases decodeLook_cases b mem buf with hlook | ⟨_, hlook, hpass⟩
  · rw [hlook]
    exact decode_value b mem buf
  · rw [hlook, decode_value, hpass]
    exact (decode_value b mem _).symm

theorem decodeLook_rest (b : Build M) (mem : Memory) (buf : Buffer) :
    (b.decodeLook mem buf).rest.readable <:+ buf.readable := by
  rcases decodeLook_cases b mem buf with hlook | ⟨_, hlook, _⟩
  · rw [hlook]
    exact decodePass_rest b mem buf
  · rw [hlook, Pass.rest, Buffer.readable_retrieve]
    exact List.drop_suffix _ _

/-- A look that does not end the call has consumed at least one byte. -/
theorem decodeLook_again (b : Build M) (mem : Memory) (buf rest : Buffer)
    (h : b.decodeLook mem buf = .again rest) : rest.readableBytes < buf.readableBytes := by
  rcases decodeLook_cases b mem buf with hlook | ⟨hpos, hlook, _⟩
  · rw [hlook] at h
    have hle := decodePass_again b mem buf rest h
    unfold kPackageHeaderSize at hle
    omega
  · rw [hlook, Pass.again.injEq] at h
    rw [← h, Buffer.readableBytes_retrieve]
    omega

/-- More looks than readable bytes end the call. -/
theorem decodeWithin_ends (b : Build M) (mems : List Memory) (buf : Buffer)
    (h : buf.readableBytes < mems.length) : (b.decodeWithin mems buf).isSome = true := by
  induction mems generalizing buf with
  | nil => exact absurd h (Nat.not_lt_zero _)
  | cons mem mems ih =>
    rw [decodeWithin]
    cases hlook : b.decodeLook mem buf with
    | done result rest => rfl
    | again rest =>
      have hless := decodeLook_again b mem buf rest hlook
      rw [List.length_cons] at h
      exact ih rest (by omega)

/-- However the call ends, the buffer is left with a suffix of its readable bytes. -/
theorem decodeWithin_rest (b : Build M) (mems : List Memory) (buf rest : Buffer)
    (result : Decoded M) (h : b.decodeWithin mems buf = some (result, rest)) :
    rest.readable <:+ buf.readable := by
  induction mems generalizing buf with
  | nil => cases h
  | cons mem mems ih =>
    have hsuffix := decodeLook_rest b mem buf
    rw [decodeWithin] at h
    cases hlook : b.decodeLook mem buf with
    | done result' rest' =>
      rw [hlook, Option.some.injEq, Prod.mk.injEq] at h
      rw [hlook, Pass.rest, h.2] at hsuffix
      exact hsuffix
    | again rest' =>
      rw [hlook] at h hsuffix
      exact (ih rest' h).trans hsuffix

/-- While the memory behind the buffer stays the same the call is decode. -/
theorem decodeWithin_replicate (b : Build M) (mem : Memory) (fuel : ℕ) (buf : Buffer)
    (h : (b.decodeWithin (List.replicate fuel mem) buf).isSome = true) :
    b.decodeWithin (List.replicate fuel mem) buf = some (b.decode mem buf).value := by
  induction fuel generalizing buf with
  | zero => cases h
  | succ fuel ih =>
    rw [List.replicate_succ, decodeWithin] at h ⊢
    rw [decode_of_look]
    cases hlook : b.decodeLook mem buf with
    | done result rest => rfl
    | again rest =>
      rw [hlook] at h
      exact ih rest h

/-- Whatever the over-long reads yield, decode ends within one look more than there are readable
bytes and leaves a suffix of them; and a call that it makes of itself starts with at least 20
bytes less. -/
theorem decode_terminates (b : Build M) (buf : Buffer) :
    (∀ mems : List Memory, buf.readableBytes < mems.length →
      ∃ result rest, b.decodeWithin mems buf = some (result, rest) ∧
        rest.readable <:+ buf.readable) ∧
    (∀ (mem : Memory) (fuel : ℕ), buf.readableBytes < fuel →
      b.decodeWithin (List.replicate fuel mem) buf = some (b.decode mem buf).value) ∧
    ∀ (mem : Memory) (rest : Buffer), (b.decodePass mem buf).value = .again rest →
      rest.readableBytes + kPackageHeaderSize ≤ buf.readableBytes := by
  refine ⟨?_, ?_, fun mem rest hagain => decodePass_again b mem buf rest hagain⟩
  · intro mems hmems
    have hends := decodeWithin_ends b mems buf hmems
    obtain ⟨⟨result, rest⟩, hsome⟩ := Option.isSome_iff_exists.mp hends
    exact ⟨result, rest, hsome, decodeWithin_rest b mems buf rest result hsome⟩
  · intro mem fuel hfuel
    have hends := decodeWithin_ends b (List.replicate fuel mem) buf
      (by rwa [List.length_replicate])
    exact decodeWithin_replicate b mem fuel buf hends

end Build

end AsioMsg
