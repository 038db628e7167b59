import AsioMsg.ProtoHelp

/-!
The recursion of decode. Every pass leaves a suffix of the readable bytes, and
a pass that calls decode again has consumed at least the 20 header bytes; so
the recursion ends, and the equations below are those of the source.
-/

namespace AsioMsg

variable {M : Type}

def Pass.rest : Pass M → Buffer
  | .done _ buf => buf
  | .again buf => buf

namespace Build

/-- The header that stands in front of the readable bytes once the flag is found. -/
def frontHeader (bs : Bytes) : PacHeader := PacHeader.ofWire (seek bs)

/-- The front frame has not arrived completely. -/
def Incomplete (bs : Bytes) : Prop := (seek bs).length < sizeT (frontHeader bs).pacSize.toInt

theorem readableBytes_gotoFlag (mem : Memory) (buf : Buffer) :
    (gotoFlag mem buf).value.2.readableBytes = (seek buf.readable).length := by
  rw [← (gotoFlag_value mem buf).1, Buffer.readable_length]

theorem bufferPeekHeader_gotoFlag (mem : Memory) (buf : Buffer)
    (h : kPackageHeaderSize < (seek buf.readable).length) :
    bufferPeekHeader mem (gotoFlag mem buf).value.2 = frontHeader buf.readable := by
  rw [bufferPeekHeader_eq _ _ (by rw [readableBytes_gotoFlag]; omega), (gotoFlag_value mem buf).1,
    frontHeader]

theorem decodePass_noFlag (b : Build M) (mem : Memory) (buf : Buffer)
    (h : (seek buf.readable).length ≤ kPackageHeaderSize) :
    (b.decodePass mem buf).value = .done .null (gotoFlag mem buf).value.2 ∧
      (b.decodePass mem buf).log = (gotoFlag mem buf).log := by
  have hfound : (gotoFlag mem buf).value.1 = false := by
    rw [(gotoFlag_value mem buf).2]
    simpa using h
  simp [decodePass, hfound]

theorem decodePass_incomplete (b : Build M) (mem : Memory) (buf : Buffer)
    (h : kPackageHeaderSize < (seek buf.readable).length) (hinc : Incomplete buf.readable) :
    (b.decodePass mem buf).value = .done .null (gotoFlag mem buf).value.2 ∧
      (b.decodePass mem buf).log = (gotoFlag mem buf).log := by
  have hfound : (gotoFlag mem buf).value.1 = true := by
    rw [(gotoFlag_value mem buf).2]
    simpa using h
  have hlt : (gotoFlag mem buf).value.2.readableBytes <
      sizeT (frontHeader buf.readable).pacSize.toInt := by
    rw [readableBytes_gotoFlag]
    exact hinc
  simp [decodePass, hfound, bufferPeekHeader_gotoFlag mem buf h, hlt]

/-- With a complete frame in front the pass consumes the header, then looks at the sizes. -/
theorem decodePass_complete (b : Build M) (mem : Memory) (buf : Buffer)
    (h : kPackageHeaderSize < (seek buf.readable).length) (hcomp : ¬ Incomplete buf.readable) :
    b.decodePass mem buf =
      (if badPacSize (frontHeader buf.readable) || badTypeNameLen (frontHeader buf.readable) then
        pure (.again ((gotoFlag mem buf).value.2.retrieve kPackageHeaderSize).value)
      else b.decodeNamed mem (frontHeader buf.readable)
        ((gotoFlag mem buf).value.2.retrieve kPackageHeaderSize).value).after
      ((gotoFlag mem buf).log ++
        ((gotoFlag mem buf).value.2.retrieve kPackageHeaderSize).log) := by
  have hfound : (gotoFlag mem buf).value.1 = true := by
    rw [(gotoFlag_value mem buf).2]
    simpa using h
  have hlt : ¬ (gotoFlag mem buf).value.2.readableBytes <
      sizeT (frontHeader buf.readable).pacSize.toInt := by
    rw [readableBytes_gotoFlag]
    exact hcomp
  unfold decodePass
  change Traced.mk _ _ = _
  simp only [hfound, if_true, bufferPeekHeader_gotoFlag mem buf h, hlt, if_false,
    Traced.bind_value, Traced.bind_log, Traced.after, List.append_assoc]

theorem readable_header (mem : Memory) (buf : Buffer) :
    ((gotoFlag mem buf).value.2.retrieve kPackageHeaderSize).value.readable =
      (seek buf.readable).drop kPackageHeaderSize := by
  rw [Buffer.readable_retrieve, (gotoFlag_value mem buf).1]

theorem finishMessage_rest (header : PacHeader) (typeName : Bytes) (remainSize : ℤ)
    (parsed : Option M) (buf : Buffer) :
    (finishMessage header typeName remainSize parsed buf).value.rest.readable <:+ buf.readable := by
  cases parsed with
  | none => exact List.suffix_refl _
  | some msg =>
    simp only [finishMessage, Traced.bind_value, Traced.pure_value, Pass.rest,
      Buffer.readable_retrieve]
    exact List.drop_suffix _ _

theorem decodeMessage_rest (b : Build M) (mem : Memory) (header : PacHeader) (typeName : Bytes)
    (msg : M) (buf : Buffer) :
    (b.decodeMessage mem header typeName msg buf).value.rest.readable <:+ buf.readable := by
  cases hzip : header.iszip with
  | false =>
    simp only [decodeMessage, hzip, Bool.false_eq_true, if_false, Traced.bind_value]
    exact finishMessage_rest ..
  | true =>
    simp only [decodeMessage, hzip, if_true, Traced.bind_value]
    by_cases hsize : header.msgSize.toInt < 0
    · rw [if_pos hsize]
      exact List.suffix_refl _
    · rw [if_neg hsize]
      simp only [Traced.bind_value]
      cases b.zlib.uncompress _ _ with
      | none => exact finishMessage_rest ..
      | some content => exact finishMessage_rest ..

theorem read_rest (buf : Buffer) (data : Bool) (len : ℕ) :
    (buf.read data len).value.2.readable <:+ buf.readable := by
  unfold Buffer.read
  by_cases h : data ∧ len ≤ buf.readableBytes
  · rw [if_pos h]
    simp only [Traced.bind_value, Traced.pure_value, Buffer.readable_retrieve]
    exact List.drop_suffix _ _
  · rw [if_neg h]
    exact List.suffix_refl _

theorem decodeOpaque_rest (header : PacHeader) (typeName : Bytes) (buf : Buffer) :
    (decodeOpaque (M := M) header typeName buf).value.rest.readable <:+ buf.readable := by
  simp only [decodeOpaque, Traced.bind_value]
  by_cases hneg : header.pacSize.toInt - kPackageHeaderSize - header.typeNameLen.toInt < 0
  · rw [if_pos hneg]
    exact List.suffix_refl _
  · rw [if_neg hneg]
    exact read_rest ..

theorem finishMessage_done (header : PacHeader) (typeName : Bytes) (remainSize : ℤ)
    (parsed : Option M) (buf : Buffer) :
    ∃ result rest, (finishMessage header typeName remainSize parsed buf).value =
        .done result rest ∧
      ∀ pac, result = .package pac → pac.typeName = typeName := by
  cases parsed with
  | none => exact ⟨_, _, rfl, fun _ h => nomatch h⟩
  | some msg =>
    refine ⟨_, _, rfl, fun pac h => ?_⟩
    rw [← Decoded.package.inj h]

/-- The body of a message ends the pass. -/
theorem decodeMessage_done (b : Build M) (mem : Memory) (header : PacHeader) (typeName : Bytes)
    (proto : M) (buf : Buffer) :
    ∃ result rest, (b.decodeMessage mem header typeName proto buf).value = .done result rest ∧
      ∀ pac, result = .package pac → pac.typeName = typeName := by
  cases hzip : header.iszip with
  | false =>
    simp only [decodeMessage, hzip, Bool.false_eq_true, if_false, Traced.bind_value]
    exact finishMessage_done ..
  | true =>
    simp only [decodeMessage, hzip, if_true, Traced.bind_value]
    by_cases hsize : header.msgSize.toInt < 0
    · rw [if_pos hsize]
      exact ⟨_, _, rfl, fun _ h => nomatch h⟩
    · rw [if_neg hsize]
      simp only [Traced.bind_value]
      cases b.zlib.uncompress _ _ with
      | none => exact finishMessage_done ..
      | some content => exact finishMessage_done ..

/-- So does an opaque body. -/
theorem decodeOpaque_done (header : PacHeader) (typeName : Bytes) (buf : Buffer) :
    ∃ result rest, (decodeOpaque (M := M) header typeName buf).value = .done result rest ∧
      ∀ pac, result = .package pac → pac.msgPtr = none := by
  simp only [decodeOpaque, Traced.bind_value]
  by_cases hneg : header.pacSize.toInt - kPackageHeaderSize - header.typeNameLen.toInt < 0
  · rw [if_pos hneg]
    exact ⟨_, _, rfl, fun _ h => nomatch h⟩
  · rw [if_neg hneg]
    refine ⟨_, _, rfl, fun pac h => ?_⟩
    rw [← Decoded.package.inj h]

theorem decodeNamed_eq (b : Build M) (mem : Memory) (header : PacHeader) (buf : Buffer) :
    b.decodeNamed mem header buf =
      (if b.passesThrough (buf.peekBytes mem header.typeNameLen.toNat) then
        decodeOpaque header (buf.peekBytes mem header.typeNameLen.toNat)
          (buf.retrieve header.typeNameLen.toNat).value
      else
        match b.createMessage (buf.peekBytes mem header.typeNameLen.toNat) with
        | none => pure (.again (buf.retrieve header.typeNameLen.toNat).value)
        | some msg => b.decodeMessage mem header (buf.peekBytes mem header.typeNameLen.toNat) msg
            (buf.retrieve header.typeNameLen.toNat).value).after
      (buf.retrieveAsString mem header.typeNameLen.toNat).log :=
  rfl

/-- The type name is consumed whatever it selects. -/
theorem decodeNamed_behind (b : Build M) (mem : Memory) (header : PacHeader) (buf : Buffer) :
    (b.decodeNamed mem header buf).value.rest.readable <:+
      buf.readable.drop header.typeNameLen.toNat := by
  rw [← Buffer.readable_retrieve, decodeNamed_eq, Traced.after_value]
  by_cases hpass : b.passesThrough (buf.peekBytes mem header.typeNameLen.toNat) = true
  · rw [if_pos hpass]
    exact decodeOpaque_rest ..
  · rw [if_neg hpass]
    cases b.createMessage (buf.peekBytes mem header.typeNameLen.toNat) with
    | none => exact List.suffix_refl _
    | some msg => exact decodeMessage_rest ..

theorem decodeNamed_rest (b : Build M) (mem : Memory) (header : PacHeader) (buf : Buffer) :
    (b.decodeNamed mem header buf).value.rest.readable <:+ buf.readable :=
  (decodeNamed_behind ..).trans (List.drop_suffix _ _)

/-- A pass that went past the size checks has consumed the header. -/
theorem decodePass_rest_complete (b : Build M) (mem : Memory) (buf : Buffer)
    (h : kPackageHeaderSize < (seek buf.readable).length) (hcomp : ¬ Incomplete buf.readable) :
    (b.decodePass mem buf).value.rest.readable <:+ (seek buf.readable).drop kPackageHeaderSize := by
  rw [decodePass_complete b mem buf h hcomp, Traced.after_value]
  split
  · rewrite [Traced.pure_value, Pass.rest, readable_header]
    exact List.suffix_refl _
  · rw [← readable_header mem buf]
    exact decodeNamed_rest ..

/-- Every pass leaves a suffix of the readable bytes. -/
theorem decodePass_rest (b : Build M) (mem : Memory) (buf : Buffer) :
    (b.decodePass mem buf).value.rest.readable <:+ buf.readable := by
  by_cases h : kPackageHeaderSize < (seek buf.readable).length
  · by_cases hinc : Incomplete buf.readable
    · rw [(decodePass_incomplete b mem buf h hinc).1, Pass.rest, (gotoFlag_value mem buf).1]
      exact seek_suffix _
    · exact (decodePass_rest_complete b mem buf h hinc).trans
        ((List.drop_suffix _ _).trans (seek_suffix _))
  · rw [(decodePass_noFlag b mem buf (Nat.le_of_not_lt h)).1, Pass.rest, (gotoFlag_value mem buf).1]
    exact seek_suffix _

/-- A pass that neither waits nor gives up consumes at least 20 bytes. -/
theorem decodePass_consumes (b : Build M) (mem : Memory) (buf : Buffer)
    (hne : ∀ rest, (b.decodePass mem buf).value ≠ .done .null rest) :
    (b.decodePass mem buf).value.rest.readableBytes + kPackageHeaderSize ≤ buf.readableBytes := by
  by_cases h : kPackageHeaderSize < (seek buf.readable).length
  · by_cases hinc : Incomplete buf.readable
    · exact absurd (decodePass_incomplete b mem buf h hinc).1 (hne _)
    · have hle := (decodePass_rest_complete b mem buf h hinc).length_le
      have hseek := seek_length_le buf.readable
      simp only [Buffer.readable_length, List.length_drop] at hle hseek
      omega
  · exact absurd (decodePass_noFlag b mem buf (Nat.le_of_not_lt h)).1 (hne _)

/-- An activation that calls decode again has consumed a header. -/
theorem decodePass_again (b : Build M) (mem : Memory) (buf rest : Buffer)
    (h : (b.decodePass mem buf).value = .again rest) :
    rest.readableBytes + kPackageHeaderSize ≤ buf.readableBytes := by
  have hle := decodePass_consumes b mem buf (by simp [h])
  rwa [h] at hle

def decode (b : Build M) (mem : Memory) (buf : Buffer) : Traced Access (Decoded M × Buffer) :=
  match _h : (b.decodePass mem buf).value with
  | .done result rest => ⟨(b.decodePass mem buf).log, (result, rest)⟩
  | .again rest => (decode b mem rest).after (b.decodePass mem buf).log
termination_by buf.readableBytes
decreasing_by
  have hlt := decodePass_consumes b mem buf (by simp [_h])
  rw [_h] at hlt
  simp only [Pass.rest, kPackageHeaderSize] at hlt
  omega

theorem decode_of_done (b : Build M) (mem : Memory) (buf rest : Buffer) (result : Decoded M)
    (h : (b.decodePass mem buf).value = .done result rest) :
    b.decode mem buf = ⟨(b.decodePass mem buf).log, (result, rest)⟩ := by
  rw [decode]
  split
  · next heq =>
    rw [h, Pass.done.injEq] at heq
    rw [heq.1, heq.2]
  · next heq => simp [h] at heq

theorem decode_of_again (b : Build M) (mem : Memory) (buf rest : Buffer)
    (h : (b.decodePass mem buf).value = .again rest) :
    b.decode mem buf = (b.decode mem rest).after (b.decodePass mem buf).log := by
  rw [decode]
  split
  · next heq => simp [h] at heq
  · next heq =>
    rw [h, Pass.again.injEq] at heq
    rw [heq]

theorem decode_value_of_again (b : Build M) (mem : Memory) (buf rest : Buffer)
    (h : (b.decodePass mem buf).value = .again rest) :
    (b.decode mem buf).value = (b.decode mem rest).value := by
  rw [decode_of_again b mem buf rest h, Traced.after_value]

/-- Anything but a null pointer was paid for with at least 20 bytes. -/
theorem decode_consumes (b : Build M) (mem : Memory) (buf : Buffer)
    (hne : (b.decode mem buf).value.1 ≠ .null) :
    (b.decode mem buf).value.2.readableBytes + kPackageHeaderSize ≤ buf.readableBytes := by
  induction buf using decode.induct b mem with
  | case1 buf result rest h =>
    rw [decode_of_done b mem buf rest result h] at hne ⊢
    have hle := decodePass_consumes b mem buf (by simpa [h] using hne)
    rwa [h] at hle
  | case2 buf rest h ih =>
    rw [decode_value_of_again b mem buf rest h] at hne ⊢
    have hle := decodePass_again b mem buf rest h
    have hih := ih hne
    omega

/-- What holds of every package that an activation returns holds of those that decode returns. -/
theorem decode_package_of_pass (b : Build M) (mem : Memory) {P : Package M → Prop}
    (hpass : ∀ (buf rest : Buffer) (pac : Package M),
      (b.decodePass mem buf).value = .done (.package pac) rest → P pac)
    (buf : Buffer) (pac : Package M) (h : (b.decode mem buf).value.1 = .package pac) : P pac := by
  induction buf using decode.induct b mem with
  | case1 buf result rest hdone =>
    rw [decode_of_done b mem buf rest result hdone] at h
    rw [show result = .package pac from h] at hdone
    exact hpass buf rest pac hdone
  | case2 buf rest hagain ih =>
    rw [decode_value_of_again b mem buf rest hagain] at h
    exact ih h

/-- Where the package of an activation comes from: a body kept as it is, or one that is parsed. -/
inductive PackageFrom (b : Build M) (mem : Memory) (header : PacHeader) (pac : Package M) : Prop
  | passed {typeName : Bytes} {body left : Buffer} : b.passesThrough typeName = true →
      (decodeOpaque header typeName body).value = .done (.package pac) left →
      PackageFrom b mem header pac
  | known {typeName : Bytes} {proto : M} {body left : Buffer} :
      b.passesThrough typeName = false →
      (b.decodeMessage mem header typeName proto body).value = .done (.package pac) left →
      PackageFrom b mem header pac

theorem decodePass_package (b : Build M) (mem : Memory) (buf rest : Buffer) (pac : Package M)
    (h : (b.decodePass mem buf).value = .done (.package pac) rest) :
    (frontHeader buf.readable).flag = (flag0, flag1) ∧
      badTypeNameLen (frontHeader buf.readable) = false ∧
      b.PackageFrom mem (frontHeader buf.readable) pac := by
  by_cases hlong : kPackageHeaderSize < (seek buf.readable).length
  · by_cases hinc : Incomplete buf.readable
    · simp [(decodePass_incomplete b mem buf hlong hinc).1] at h
    · have hflag : (frontHeader buf.readable).flag = (flag0, flag1) :=
        flag_ofWire _ (startsWithFlag_seek buf.readable hlong)
      rw [decodePass_complete b mem buf hlong hinc, Traced.after_value] at h
      split at h
      · simp at h
      · next hsizes =>
        rw [Bool.not_eq_true, Bool.or_eq_false_iff] at hsizes
        refine ⟨hflag, hsizes.2, ?_⟩
        rw [decodeNamed_eq, Traced.after_value] at h
        split at h
        · next hthrough => exact .passed hthrough h
        · next hthrough =>
          split at h
          · simp at h
          · exact .known (Bool.eq_false_iff.mpr hthrough) h
  · simp [(decodePass_noFlag b mem buf (Nat.le_of_not_lt hlong)).1] at h

theorem decodePass_passesThrough (b : Build M) (mem : Memory) (buf rest : Buffer)
    (pac : Package M) (h : (b.decodePass mem buf).value = .done (.package pac) rest)
    (hpass : b.passesThrough pac.typeName = true) : pac.msgPtr = none := by
  obtain ⟨_, _, hfrom⟩ := b.decodePass_package mem buf rest pac h
  cases hfrom with
  | passed _ hvalue =>
    obtain ⟨result, left, hdone, hbody⟩ := decodeOpaque_done (M := M) _ _ _
    rw [hdone, Pass.done.injEq] at hvalue
    exact hbody pac hvalue.1
  | known hthrough hvalue =>
    obtain ⟨result, left, hdone, htype⟩ := decodeMessage_done b mem _ _ _ _
    rw [hdone, Pass.done.injEq] at hvalue
    rw [htype pac hvalue.1, hthrough] at hpass
    exact absurd hpass Bool.false_ne_true

/-- A package whose name the bus passes through is decoded without a message. -/
theorem decode_passesThrough (b : Build M) (mem : Memory) (buf : Buffer) (pac : Package M)
    (h : (b.decode mem buf).value.1 = .package pac)
    (hpass : b.passesThrough pac.typeName = true) : pac.msgPtr = none :=
  b.decode_package_of_pass mem (fun buf rest pac => b.decodePass_passesThrough mem buf rest pac)
    buf pac h hpass

end Build

end AsioMsg
