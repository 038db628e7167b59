import AsioMsg.WireFrame

/-!
What decode makes of one frame. Behind the type name it asks for bytes at the
read position and consumes the body when the message parses; what it returns is
a function of the header and the bytes that it gets. A byte string that is a
frame by its own header is a wire frame.
-/

namespace AsioMsg

variable {M : Type}

def Decoded.isPackage : Decoded M → Bool
  | .package _ => true
  | _ => false

@[simp] theorem Decoded.isPackage_null : (Decoded.null : Decoded M).isPackage = false := rfl

theorem Decoded.isPackage_iff (result : Decoded M) :
    result.isPackage = true ↔ ∃ pac, result = .package pac := by
  cases result <;> simp [isPackage]

namespace Build

def parsedPackage (header : PacHeader) (typeName : Bytes) : Option M → Decoded M
  | some msg => .package { header := header, typeName := typeName, msgPtr := some msg }
  | none => .null

/-- The header behind a body that was uncompressed. -/
def unzippedHeader (header : PacHeader) : PacHeader :=
  { header.setIszip false with
    pacSize := BitVec.ofInt 32
      (kPackageHeaderSize + header.typeNameLen.toInt + header.msgSize.toInt) }

/-- The size of the body by the header. -/
def remainSize (header : PacHeader) : ℤ :=
  header.pacSize.toInt - kPackageHeaderSize - header.typeNameLen.toInt

/-- What the body of a known type gives, where `peek n` are the next `n` bytes. -/
def bodyOutcome (b : Build M) (header : PacHeader) (typeName : Bytes) (proto : M)
    (peek : ℕ → Bytes) : Decoded M :=
  if header.iszip then
    if header.msgSize.toInt < 0 then .lengthError
    else
      match b.zlib.uncompress (peek (sizeT (remainSize header))) header.msgSize.toInt.toNat with
      | some content => parsedPackage (unzippedHeader header) typeName
          (b.protobuf.parseFromArray proto content content.length)
      | none => .null
  else parsedPackage header typeName
    (b.protobuf.parseFromArray proto (peek header.msgSize.toInt.toNat) header.msgSize.toInt)

theorem finishMessage_value (header : PacHeader) (typeName : Bytes) (size : ℤ)
    (parsed : Option M) (buf : Buffer) :
    ∃ left, (finishMessage header typeName size parsed buf).value =
        .done (parsedPackage header typeName parsed) left ∧
      left.readable = if (parsedPackage header typeName parsed).isPackage then
        buf.readable.drop (sizeT size) else buf.readable := by
  cases parsed with
  | none => exact ⟨buf, rfl, rfl⟩
  | some msg =>
    refine ⟨(buf.retrieve (sizeT size)).value, rfl, ?_⟩
    rw [Buffer.readable_retrieve]
    rfl

/-- The body is consumed exactly when it gives a package. -/
theorem decodeMessage_value (b : Build M) (mem : Memory) (header : PacHeader) (typeName : Bytes)
    (proto : M) (buf : Buffer) :
    ∃ left, (b.decodeMessage mem header typeName proto buf).value =
        .done (b.bodyOutcome header typeName proto (buf.peekBytes mem)) left ∧
      left.readable = if (b.bodyOutcome header typeName proto (buf.peekBytes mem)).isPackage then
        buf.readable.drop (sizeT (remainSize header)) else buf.readable := by
  cases hzip : header.iszip with
  | false =>
    simp only [decodeMessage, bodyOutcome, hzip, Bool.false_eq_true, if_false, Traced.bind_value,
      Protobuf.parseFromArray_peek]
    exact finishMessage_value ..
  | true =>
    simp only [decodeMessage, bodyOutcome, hzip, if_true, Traced.bind_value]
    by_cases hsize : header.msgSize.toInt < 0
    · rw [if_pos hsize, if_pos hsize]
      exact ⟨buf, rfl, rfl⟩
    · rw [if_neg hsize, if_neg hsize]
      simp only [Traced.bind_value]
      rw [remainSize]
      cases b.zlib.uncompress _ _ with
      | none => exact ⟨buf, rfl, rfl⟩
      | some content => exact finishMessage_value ..

theorem parsedPackage_eq {header : PacHeader} {typeName : Bytes} {parsed : Option M}
    {pac : Package M} (h : parsedPackage header typeName parsed = .package pac) :
    pac.typeName = typeName ∧ pac.header = header ∧ parsed = pac.msgPtr := by
  cases parsed with
  | none => simp [parsedPackage] at h
  | some msg =>
    rw [parsedPackage, Decoded.package.injEq] at h
    subst h
    exact ⟨rfl, rfl, rfl⟩

/-- The package of a parsed body has the type name, and a header with the flag and the type name
length of the frame and iszip clear. -/
theorem bodyOutcome_package (b : Build M) {header : PacHeader} {typeName : Bytes} {proto : M}
    {peek : ℕ → Bytes} {pac : Package M}
    (h : b.bodyOutcome header typeName proto peek = .package pac) :
    pac.typeName = typeName ∧ pac.header.flag = header.flag ∧
      pac.header.typeNameLen = header.typeNameLen ∧ pac.header.iszip = false := by
  cases hzip : header.iszip with
  | false =>
    simp only [bodyOutcome, hzip, Bool.false_eq_true, if_false] at h
    obtain ⟨hname, hheader, _⟩ := parsedPackage_eq h
    rw [hheader]
    exact ⟨hname, rfl, rfl, hzip⟩
  | true =>
    simp only [bodyOutcome, hzip, if_true] at h
    split at h
    · simp at h
    · split at h
      · obtain ⟨hname, hheader, _⟩ := parsedPackage_eq h
        rw [hheader]
        exact ⟨hname, rfl, rfl, header.iszip_setIszip false⟩
      · simp at h

/-- Only the two reads matter. -/
theorem bodyOutcome_congr (b : Build M) (header : PacHeader) (typeName : Bytes) (proto : M)
    {peek peek' : ℕ → Bytes}
    (hzip : header.iszip = true → peek (sizeT (remainSize header)) =
      peek' (sizeT (remainSize header)))
    (hraw : header.iszip = false → peek header.msgSize.toInt.toNat =
      peek' header.msgSize.toInt.toNat) :
    b.bodyOutcome header typeName proto peek = b.bodyOutcome header typeName proto peek' := by
  cases hbit : header.iszip with
  | true => simp only [bodyOutcome, hbit, if_true, hzip hbit]
  | false => simp only [bodyOutcome, hbit, Bool.false_eq_true, if_false, hraw hbit]

/-- The parser of a raw body is kept inside the body, where a negative size reads nothing; a
compressed one has no other length. -/
def BodyFits (header : PacHeader) : Prop :=
  header.iszip = true ∨ header.msgSize.toInt ≤ remainSize header

instance (header : PacHeader) : Decidable (BodyFits header) :=
  inferInstanceAs (Decidable (_ ∨ _))

end Build

/-- A byte string that is one frame by the header in front of it. -/
structure SingleFrame (f : Bytes) : Prop where
  flag : startsWithFlag f = true
  pacSize_eq : (PacHeader.ofWire f).pacSize.toInt = f.length
  pacSize_le : (PacHeader.ofWire f).pacSize.toInt ≤ kMaxPackageLen
  name_pos : 1 ≤ (PacHeader.ofWire f).typeNameLen.toInt
  name_le : (PacHeader.ofWire f).typeNameLen.toInt ≤ 1024
  name_fits : kPackageHeaderSize + (PacHeader.ofWire f).typeNameLen.toInt ≤
    (PacHeader.ofWire f).pacSize.toInt

/-- The type name that the header in front of `f` announces. -/
def frameName (f : Bytes) : Bytes :=
  (f.drop kPackageHeaderSize).take (PacHeader.ofWire f).typeNameLen.toNat

theorem toNat_of_toInt_pos {w : ℕ} (x : BitVec w) (h : 0 ≤ x.toInt) :
    (x.toNat : ℤ) = x.toInt := by
  rw [BitVec.toInt_eq_toNat_cond] at h ⊢
  have hlt := x.isLt
  split at h <;> omega

namespace SingleFrame

variable {f : Bytes}

theorem long (h : SingleFrame f) : kPackageHeaderSize ≤ f.length := by
  have hpos := h.name_pos
  have hfits := h.name_fits
  have heq := h.pacSize_eq
  omega

theorem toNat_typeNameLen (h : SingleFrame f) :
    ((PacHeader.ofWire f).typeNameLen.toNat : ℤ) = (PacHeader.ofWire f).typeNameLen.toInt :=
  toNat_of_toInt_pos _ (Int.le_trans (by decide) h.name_pos)

theorem frameName_length (h : SingleFrame f) :
    (frameName f).length = (PacHeader.ofWire f).typeNameLen.toNat := by
  have hnat := h.toNat_typeNameLen
  have hfits := h.name_fits
  have heq := h.pacSize_eq
  rw [frameName, List.length_take, List.length_drop]
  omega

/-- The frame with its header, its type name and its body apart. -/
def wire (h : SingleFrame f) : WireFrame where
  header := PacHeader.ofWire f
  typeName := frameName f
  body := (f.drop kPackageHeaderSize).drop (PacHeader.ofWire f).typeNameLen.toNat
  flag_eq := flag_ofWire f h.flag
  typeNameLen_eq := by rw [h.frameName_length, h.toNat_typeNameLen]
  typeName_pos := by
    have hpos := h.name_pos
    have hnat := h.toNat_typeNameLen
    rw [h.frameName_length]
    omega
  typeName_le := by
    have hle := h.name_le
    have hnat := h.toNat_typeNameLen
    rw [h.frameName_length]
    omega
  pacSize_eq := by
    have hnat := h.toNat_typeNameLen
    have hfits := h.name_fits
    have heq := h.pacSize_eq
    rw [h.frameName_length, List.length_drop, List.length_drop]
    omega
  pacSize_le := h.pacSize_le

theorem wire_bytes (h : SingleFrame f) : h.wire.bytes = f := by
  have hnamed : frameName f ++ h.wire.body = f.drop kPackageHeaderSize :=
    List.take_append_drop ..
  have hbytes : h.wire.bytes = (PacHeader.ofWire f).toWire ++ (frameName f ++ h.wire.body) :=
    List.append_assoc ..
  rw [hbytes, hnamed, PacHeader.toWire_ofWire f h.long, List.take_append_drop]

end SingleFrame

namespace WireFrame

theorem ofWire_bytes (f : WireFrame) (rest : Bytes) :
    PacHeader.ofWire (f.bytes ++ rest) = f.header := by
  rw [bytes, List.append_assoc, List.append_assoc, PacHeader.ofWire_toWire_append]

theorem drop_header (f : WireFrame) (rest : Bytes) :
    (f.bytes ++ rest).drop kPackageHeaderSize = f.typeName ++ (f.body ++ rest) := by
  rw [bytes, List.append_assoc, List.append_assoc, ← PacHeader.toWire_length f.header,
    List.drop_left]

theorem frameName_bytes (f : WireFrame) (rest : Bytes) :
    frameName (f.bytes ++ rest) = f.typeName := by
  rw [frameName, ofWire_bytes, drop_header, toNat_typeNameLen, List.take_left]

theorem remainSize_toNat (f : WireFrame) :
    sizeT (Build.remainSize f.header) = f.body.length := by
  have hle := f.pacSize_le
  have heq := f.pacSize_eq
  have hremain := f.remainSize_eq
  unfold kMaxPackageLen at hle
  rw [Build.remainSize, hremain, sizeT_of_nonneg _ (by omega) (by omega), Int.toNat_natCast]

/-- What a frame of a known type gives by itself. -/
def outcome (b : Build M) (f : WireFrame) (proto : M) : Decoded M :=
  b.bodyOutcome f.header f.typeName proto fun n => f.body.take n

/-- With its body fit a frame gives its own outcome, and a package consumes exactly the frame. -/
theorem decodePass_outcome (b : Build M) (mem : Memory) (f : WireFrame) (rest : Bytes)
    (buf : Buffer) (hseek : seek buf.readable = f.bytes ++ rest)
    (hthrough : b.passesThrough f.typeName = false)
    (proto : M) (hproto : b.createMessage f.typeName = some proto)
    (hfits : Build.BodyFits f.header) :
    ∃ left, (b.decodePass mem buf).value = .done (f.outcome b proto) left ∧
      left.readable = if (f.outcome b proto).isPackage then rest else f.body ++ rest := by
  obtain ⟨body, hbody, hpass⟩ := f.decodePass_bytes b mem rest buf hseek
  rw [if_neg (by rw [hthrough]; exact Bool.false_ne_true), hproto] at hpass
  obtain ⟨left, hvalue, hleft⟩ :=
    b.decodeMessage_value mem f.header f.typeName proto body
  have hcount : body.readableBytes = f.body.length + rest.length := by
    rw [← Buffer.readable_length, hbody, List.length_append]
  have hpeek : ∀ n, n ≤ f.body.length → body.peekBytes mem n = f.body.take n := by
    intro n hn
    rw [Buffer.peekBytes_eq mem body n (by omega), hbody, List.take_append_of_le_length hn]
  -- both reads stay inside the body
  have hsame : b.bodyOutcome f.header f.typeName proto (body.peekBytes mem) =
      f.outcome b proto := by
    apply Build.bodyOutcome_congr
    · intro _
      exact hpeek _ (Nat.le_of_eq f.remainSize_toNat)
    · intro hraw
      have hsize : f.header.msgSize.toInt ≤ Build.remainSize f.header :=
        hfits.resolve_left (by rw [hraw]; exact Bool.false_ne_true)
      have hremain : Build.remainSize f.header = f.body.length := f.remainSize_eq
      exact hpeek _ (by omega)
  rw [hsame, f.remainSize_toNat, hbody, List.drop_left] at hleft
  rw [hsame] at hvalue
  exact ⟨left, hpass.trans hvalue, hleft⟩

/-- The package of a frame whose name the bus passes through. -/
def passedPackage (f : WireFrame) : Package M :=
  { header := f.header, typeName := f.typeName, body := f.body }

theorem decodePass_passed (b : Build M) (mem : Memory) (f : WireFrame) (rest : Bytes)
    (buf : Buffer) (hseek : seek buf.readable = f.bytes ++ rest)
    (hthrough : b.passesThrough f.typeName = true) :
    ∃ left, (b.decodePass mem buf).value = .done (.package f.passedPackage) left ∧
      left.readable = rest := by
  obtain ⟨body, hbody, hpass⟩ := f.decodePass_bytes b mem rest buf hseek
  rw [if_pos hthrough] at hpass
  have hcount : f.body.length ≤ body.readableBytes := by
    rw [← Buffer.readable_length, hbody, List.length_append]
    omega
  simp only [Build.decodeOpaque, f.remainSize_eq, Traced.bind_value] at hpass
  rw [if_neg (by omega), Int.toNat_natCast] at hpass
  by_cases hempty : f.body = []
  · rw [hempty, List.nil_append] at hbody
    refine ⟨body, ?_, hbody⟩
    rw [hpass, passedPackage]
    simp [Buffer.read, hempty]
  · refine ⟨(body.retrieve f.body.length).value, ?_, ?_⟩
    · have htake : body.readable.take f.body.length = f.body := by rw [hbody, List.take_left]
      rw [hpass, passedPackage]
      simp [Buffer.read, hempty, hcount, htake]
    · rw [Buffer.readable_retrieve, hbody, List.drop_left]

/-- A frame of an unknown type is skipped up to its body. -/
theorem decodePass_unknown (b : Build M) (mem : Memory) (f : WireFrame) (rest : Bytes)
    (buf : Buffer) (hseek : seek buf.readable = f.bytes ++ rest)
    (hthrough : b.passesThrough f.typeName = false)
    (hunknown : b.createMessage f.typeName = none) :
    ∃ left, (b.decodePass mem buf).value = .again left ∧ left.readable = f.body ++ rest := by
  obtain ⟨body, hbody, hpass⟩ := f.decodePass_bytes b mem rest buf hseek
  rw [if_neg (by rw [hthrough]; exact Bool.false_ne_true), hunknown] at hpass
  exact ⟨body, hpass, hbody⟩

end WireFrame

end AsioMsg
