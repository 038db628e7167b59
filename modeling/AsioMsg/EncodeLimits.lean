import AsioMsg.FrameConfinement
import AsioMsg.RoundTrip

/-!
The limits of decode on the side of encode. encode has no limit of its own: it
narrows the lengths to the fields of the header and writes whatever comes out,
so a package past a limit is refused only if its message cannot be serialized.
-/

namespace AsioMsg

variable {M : Type}

namespace Build

/-- The lengths of a package as decode wants to find them, once narrowed to short and int. -/
def LengthsInLimits (nameLen contentLen : ℕ) : Prop :=
  (1 ≤ nameLen % 2 ^ 16 ∧ nameLen % 2 ^ 16 ≤ 1024) ∧
    (kPackageHeaderSize + nameLen + contentLen) % 2 ^ 32 ≤ 1024 * 1024 * 100

instance (nameLen contentLen : ℕ) : Decidable (LengthsInLimits nameLen contentLen) :=
  inferInstanceAs (Decidable (_ ∧ _))

theorem badTypeNameLen_withLengths (header : PacHeader) (n m p : ℕ) :
    badTypeNameLen (header.withLengths n m p) = false ↔
      1 ≤ n % 2 ^ 16 ∧ n % 2 ^ 16 ≤ 1024 := by
  have hn : (header.withLengths n m p).typeNameLen.toInt =
      if 2 * (n % 2 ^ 16) < 2 ^ 16 then ((n % 2 ^ 16 : ℕ) : ℤ) else (n % 2 ^ 16 : ℕ) - 2 ^ 16 := by
    rw [BitVec.toInt_eq_toNat_cond, PacHeader.withLengths, BitVec.toNat_ofNat]
    rfl
  rw [badTypeNameLen, Bool.or_eq_false_iff, decide_eq_false_iff_not, decide_eq_false_iff_not, hn]
  split <;> omega

theorem badPacSize_withLengths (header : PacHeader) (n m p : ℕ) :
    badPacSize (header.withLengths n m p) = false ↔ p % 2 ^ 32 ≤ 1024 * 1024 * 100 := by
  have hp : (header.withLengths n m p).pacSize.toInt =
      if 2 * (p % 2 ^ 32) < 2 ^ 32 then ((p % 2 ^ 32 : ℕ) : ℤ) else (p % 2 ^ 32 : ℕ) - 2 ^ 32 := by
    rw [BitVec.toInt_eq_toNat_cond, PacHeader.withLengths, BitVec.toNat_ofNat]
    rfl
  rw [badPacSize, Bool.or_eq_false_iff, decide_eq_false_iff_not, decide_eq_false_iff_not, hp]
  unfold kMaxPackageLen
  split <;> omega

/-- decode's size checks reject the header that encode writes for the message. -/
def rejects (b : Build M) (enableCompressSize : BitVec 32) (package : Package M) (msg : M) : Bool :=
  badPacSize (b.wireHeader enableCompressSize package msg) ||
    badTypeNameLen (b.wireHeader enableCompressSize package msg)

theorem rejects_eq_false_iff (b : Build M) (enableCompressSize : BitVec 32) (package : Package M)
    (msg : M) :
    b.rejects enableCompressSize package msg = false ↔
      LengthsInLimits (b.protobuf.getTypeName msg).length
        (b.wireContent enableCompressSize package msg).length := by
  rw [rejects, Bool.or_eq_false_iff, wireHeader, badPacSize_withLengths,
    badTypeNameLen_withLengths]
  exact And.comm

section

variable (b : Build M) (enableCompressSize : BitVec 32) (package : Package M) {msg : M}
  (mem : Memory) (buffer : Buffer)

/-- Without MSGBUS a package with a name and a message is refused only where serializing fails. -/
theorem encode_refused_iff (hbus : b.MSGBUS = false) (hname : package.typeName ≠ [])
    (hmsg : package.msgPtr = some msg) :
    b.encode mem enableCompressSize package buffer = .refused ↔
      INT_MAX < b.protobuf.byteSizeLong msg := by
  have hplain : b.passesThrough package.typeName = false := by simp [passesThrough, hbus]
  constructor
  · intro h
    by_contra hsize
    rw [b.encode_serialized mem enableCompressSize package buffer hname hplain hmsg
      (Nat.not_lt.mp hsize)] at h
    split at h <;> simp at h
  · intro hsize
    simp [encode, hname, hplain, hmsg, Protobuf.serializePartialToArray, Nat.not_le.mpr hsize]

/-- encode refuses what decode's size checks reject for the packages whose message is too large to
be serialized, and for those within the limits. -/
theorem encode_limits_iff (hbus : b.MSGBUS = false) (hname : package.typeName ≠ [])
    (hmsg : package.msgPtr = some msg) :
    (b.rejects enableCompressSize package msg = true →
      b.encode mem enableCompressSize package buffer = .refused) ↔
      INT_MAX < b.protobuf.byteSizeLong msg ∨
        LengthsInLimits (b.protobuf.getTypeName msg).length
          (b.wireContent enableCompressSize package msg).length := by
  rw [b.encode_refused_iff enableCompressSize package mem buffer hbus hname hmsg,
    ← b.rejects_eq_false_iff, ← Bool.not_eq_true, imp_iff_not_or, or_comm]

end

/-- Messages that are byte strings, under the type name of a PingPongReq. -/
def rawBuild : Build Bytes := ⟨rawMessages PingPong.typeName, PingPong.zlib, false⟩

def rawPackage (msg : Bytes) : Package Bytes where
  header := {}
  typeName := PingPong.typeName
  msgPtr := some msg

theorem rawPackage_typeName_ne (msg : Bytes) : (rawPackage msg).typeName ≠ [] :=
  List.cons_ne_nil _ _

/-- Uncompressed, the frame of a byte string is 43 bytes longer than it. -/
theorem rejects_raw_iff (msg : Bytes) :
    rawBuild.rejects (-1) (rawPackage msg) msg = true ↔
      1024 * 1024 * 100 < (43 + msg.length) % 2 ^ 32 := by
  have hname : 1 ≤ PingPong.typeName.length % 2 ^ 16 ∧
      PingPong.typeName.length % 2 ^ 16 ≤ 1024 := by decide
  rw [← Bool.not_eq_false, rawBuild.rejects_eq_false_iff, ← Nat.not_le]
  exact not_congr (and_iff_right hname)

/-- A message of 2^31 bytes is past the limits of decode and is refused. -/
theorem encode_limits_large :
    ∃ msg : Bytes, rawBuild.rejects (-1) (rawPackage msg) msg = true ∧
      rawBuild.encode PingPong.memory (-1) (rawPackage msg) Buffer.empty = .refused := by
  have hlen : (List.replicate (2 ^ 31) (0 : Byte)).length = 2 ^ 31 := List.length_replicate
  generalize List.replicate (2 ^ 31) (0 : Byte) = msg at hlen
  have hrejects : rawBuild.rejects (-1) (rawPackage msg) msg = true := by
    rw [rejects_raw_iff]
    omega
  refine ⟨msg, hrejects, (rawBuild.encode_limits_iff (-1) (rawPackage msg) PingPong.memory
    Buffer.empty rfl (rawPackage_typeName_ne msg) rfl).mpr (Or.inl ?_) hrejects⟩
  change INT_MAX < msg.length
  unfold INT_MAX
  omega

/-- encode writes a frame of a message as long as the largest frame. -/
theorem encode_limits_fails :
    ¬ ∀ (b : Build Bytes) (package : Package Bytes) (msg : Bytes), b.MSGBUS = false →
      package.typeName ≠ [] → package.msgPtr = some msg → b.rejects (-1) package msg = true →
      b.encode PingPong.memory (-1) package Buffer.empty = .refused := by
  intro h
  have hlen : (List.replicate (1024 * 1024 * 100) (0 : Byte)).length = 1024 * 1024 * 100 :=
    List.length_replicate
  generalize List.replicate (1024 * 1024 * 100) (0 : Byte) = msg at hlen
  have hrejects : rawBuild.rejects (-1) (rawPackage msg) msg = true := by
    rw [rejects_raw_iff]
    omega
  have hrefused := h rawBuild (rawPackage msg) msg rfl (rawPackage_typeName_ne msg) rfl hrejects
  rw [rawBuild.encode_refused_iff (-1) (rawPackage msg) PingPong.memory Buffer.empty rfl
    (rawPackage_typeName_ne msg) rfl] at hrefused
  change INT_MAX < msg.length at hrefused
  unfold INT_MAX at hrefused
  omega

end Build

end AsioMsg
