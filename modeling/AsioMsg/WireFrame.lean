import AsioMsg.Decode

/-!
Complete frames. A wire frame is a header whose length fields describe the
type name and the body that follow it and lie within the limits of decode. In
front of the readable bytes such a frame is found where it starts, and until
its last byte has arrived decode waits without consuming anything.
-/

namespace AsioMsg

structure WireFrame where
  header : PacHeader
  typeName : Bytes
  body : Bytes
  flag_eq : header.flag = (flag0, flag1)
  typeNameLen_eq : header.typeNameLen.toInt = typeName.length
  typeName_pos : 0 < typeName.length
  typeName_le : typeName.length ≤ 1024
  pacSize_eq : header.pacSize.toInt = kPackageHeaderSize + typeName.length + body.length
  pacSize_le : header.pacSize.toInt ≤ kMaxPackageLen

theorem toInt_ofNat_short (n : ℕ) (h : n < 2 ^ 15) : (BitVec.ofNat 16 n).toInt = n := by
  have hn : (BitVec.ofNat 16 n).toNat = n := by
    rw [BitVec.toNat_ofNat, Nat.mod_eq_of_lt (by omega)]
  rw [BitVec.toInt_eq_toNat_of_lt (by omega), hn]

theorem toInt_ofNat_int (n : ℕ) (h : n ≤ INT_MAX) : (BitVec.ofNat 32 n).toInt = n := by
  unfold INT_MAX at h
  have hn : (BitVec.ofNat 32 n).toNat = n := by
    rw [BitVec.toNat_ofNat, Nat.mod_eq_of_lt (by omega)]
  rw [BitVec.toInt_eq_toNat_of_lt (by omega), hn]

namespace WireFrame

variable {M : Type}

def bytes (f : WireFrame) : Bytes := f.header.toWire ++ f.typeName ++ f.body

@[simp] theorem bytes_length (f : WireFrame) :
    f.bytes.length = kPackageHeaderSize + f.typeName.length + f.body.length := by
  simp only [bytes, List.length_append, PacHeader.toWire_length]

theorem bytes_long (f : WireFrame) : kPackageHeaderSize < f.bytes.length := by
  have h := f.typeName_pos
  rw [bytes_length]
  omega

theorem sizeT_pacSize (f : WireFrame) : sizeT f.header.pacSize.toInt = f.bytes.length := by
  have hmax := f.pacSize_le
  rw [f.pacSize_eq] at hmax ⊢
  unfold kMaxPackageLen at hmax
  rw [sizeT_of_nonneg _ (by omega) (by omega), bytes_length]
  omega

theorem startsWithFlag_bytes (f : WireFrame) (rest : Bytes) :
    startsWithFlag (f.bytes ++ rest) = true := by
  have h0 : (f.bytes ++ rest).getD 0 0 = f.header.flag.1 := rfl
  have h1 : (f.bytes ++ rest).getD 1 0 = f.header.flag.2 := rfl
  rw [startsWithFlag, h0, h1, f.flag_eq]
  decide

theorem seek_bytes (f : WireFrame) (rest : Bytes) : seek (f.bytes ++ rest) = f.bytes ++ rest :=
  seek_of_flag _ (f.startsWithFlag_bytes rest)

theorem frontHeader_bytes (f : WireFrame) (rest : Bytes) :
    Build.frontHeader (f.bytes ++ rest) = f.header := by
  rw [Build.frontHeader, seek_bytes, bytes, List.append_assoc, List.append_assoc,
    PacHeader.ofWire_toWire_append]

theorem not_incomplete (f : WireFrame) (rest : Bytes) : ¬ Build.Incomplete (f.bytes ++ rest) := by
  unfold Build.Incomplete
  rw [frontHeader_bytes, sizeT_pacSize, seek_bytes, List.length_append]
  omega

theorem badPacSize_eq (f : WireFrame) : Build.badPacSize f.header = false := by
  have hle := f.pacSize_le
  have heq := f.pacSize_eq
  simp only [Build.badPacSize, Bool.or_eq_false_iff, decide_eq_false_iff_not]
  omega

theorem badTypeNameLen_eq (f : WireFrame) : Build.badTypeNameLen f.header = false := by
  have hpos := f.typeName_pos
  have hle := f.typeName_le
  have heq := f.typeNameLen_eq
  simp only [Build.badTypeNameLen, Bool.or_eq_false_iff, decide_eq_false_iff_not]
  omega

theorem toNat_typeNameLen (f : WireFrame) : f.header.typeNameLen.toNat = f.typeName.length := by
  have hle := f.typeName_le
  have heq := f.typeNameLen_eq
  rw [BitVec.toInt_eq_toNat_cond] at heq
  split at heq <;> omega

/-- The body size decode computes. -/
theorem remainSize_eq (f : WireFrame) :
    f.header.pacSize.toInt - kPackageHeaderSize - f.header.typeNameLen.toInt = f.body.length := by
  rw [f.pacSize_eq, f.typeNameLen_eq]
  omega

/-- A proper part of a frame that has its header makes decode wait. -/
theorem incomplete_part (f : WireFrame) (part later : Bytes) (hsplit : f.bytes = part ++ later)
    (hlong : kPackageHeaderSize < part.length) (hlater : later ≠ []) :
    seek part = part ∧ Build.Incomplete part := by
  have hlen : 2 ≤ part.length := by
    unfold kPackageHeaderSize at hlong
    omega
  have hflag : startsWithFlag part = true := by
    have h := f.startsWithFlag_bytes []
    rwa [List.append_nil, hsplit, startsWithFlag_append part later hlen] at h
  have hseek : seek part = part := seek_of_flag _ hflag
  have hheader : PacHeader.ofWire part = f.header := by
    have h := f.frontHeader_bytes []
    rwa [List.append_nil, Build.frontHeader, ← List.append_nil f.bytes, seek_bytes,
      List.append_nil, hsplit, PacHeader.ofWire_append part later (Nat.le_of_lt hlong)] at h
  refine ⟨hseek, ?_⟩
  unfold Build.Incomplete
  rw [Build.frontHeader, hseek, hheader, sizeT_pacSize, hsplit, List.length_append]
  have hpos := List.length_pos_iff.mpr hlater
  omega

/-- decode on a frame: past the size checks, with the body and what follows it left. -/
theorem decodePass_bytes (b : Build M) (mem : Memory) (f : WireFrame) (rest : Bytes) (buf : Buffer)
    (hseek : seek buf.readable = f.bytes ++ rest) :
    ∃ body : Buffer, body.readable = f.body ++ rest ∧
      (b.decodePass mem buf).value =
        (if b.passesThrough f.typeName then
          Build.decodeOpaque f.header f.typeName body
        else
          match b.createMessage f.typeName with
          | none => pure (.again body)
          | some msg => b.decodeMessage mem f.header f.typeName msg body).value := by
  have hheader : Build.frontHeader buf.readable = f.header := by
    rw [← f.frontHeader_bytes rest, Build.frontHeader, Build.frontHeader, seek_bytes, hseek]
  have hlong : kPackageHeaderSize < (seek buf.readable).length := by
    have h := f.bytes_long
    rw [hseek, List.length_append]
    omega
  have hcomp : ¬ Build.Incomplete buf.readable := by
    have h := f.not_incomplete rest
    unfold Build.Incomplete at h ⊢
    rwa [frontHeader_bytes, seek_bytes, ← hseek, ← hheader] at h
  let named := ((gotoFlag mem buf).value.2.retrieve kPackageHeaderSize).value
  have hnamed : named.readable = f.typeName ++ (f.body ++ rest) := by
    rw [Build.readable_header, hseek, bytes, List.append_assoc, List.append_assoc,
      ← PacHeader.toWire_length f.header, List.drop_left]
  have hpeek : named.peekBytes mem f.header.typeNameLen.toNat = f.typeName := by
    rw [toNat_typeNameLen, Buffer.peekBytes_eq, hnamed, List.take_left]
    rw [← Buffer.readable_length, hnamed, List.length_append]
    omega
  refine ⟨(named.retrieve f.header.typeNameLen.toNat).value, ?_, ?_⟩
  · rw [Buffer.readable_retrieve, hnamed, toNat_typeNameLen, List.drop_left]
  · rw [Build.decodePass_complete b mem buf hlong hcomp, Traced.after_value, hheader,
      badPacSize_eq, badTypeNameLen_eq, Bool.or_self, if_neg Bool.false_ne_true,
      Build.decodeNamed_eq, Traced.after_value]
    change Traced.value (ite (b.passesThrough (named.peekBytes mem _) = true) _ _) = _
    rewrite [hpeek]
    rfl

end WireFrame

end AsioMsg
