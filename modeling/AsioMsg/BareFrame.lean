import AsioMsg.DecodeWaiting

/-!
Frames that are a header and a type name and nothing behind it. A decoder that
knows the type still looks for a body, by lengths that nobody has set for this
frame: pacSize decides whether it waits and what it consumes, msgSize what it
parses.
-/

namespace AsioMsg

variable {M : Type}

theorem Buffer.peekBytes_length (mem : Memory) (buf : Buffer) (n : ℕ) :
    (buf.peekBytes mem n).length = n := by
  obtain ⟨past, hpast⟩ := buf.exists_peekPast mem n
  rw [hpast, peekPast, List.length_take, List.length_append, List.length_map, List.length_range]
  omega

namespace Build

/-- Decoding the frame, whatever follows it, gives a package with the type name and the message
and leaves what follows. -/
def DecodesTo (b : Build M) (frame typeName : Bytes) (msg : M) : Prop :=
  ∀ (mem : Memory) (buf : Buffer) (r : Bytes), buf.readable = frame ++ r →
    ∃ pac left, (b.decode mem buf).value = (.package pac, left) ∧ left.readable = r ∧
      pac.typeName = typeName ∧ pac.msgPtr = some msg

/-- The message is what comes of an empty body: uncompressed, or parsed with as many bytes as
msgSize has it, whatever these are. -/
def EmptyBodyGives (b : Build M) (header : PacHeader) (proto msg : M) : Prop :=
  if header.iszip then
    0 ≤ header.msgSize.toInt ∧
      ∃ content, b.zlib.uncompress [] header.msgSize.toInt.toNat = some content ∧
        b.protobuf.parseFromArray proto content content.length = some msg
  else
    ∀ data : Bytes, data.length = header.msgSize.toInt.toNat →
      b.protobuf.parseFromArray proto data header.msgSize.toInt = some msg

section NoBody

variable (b : Build M) {header : PacHeader} (typeName : Bytes) {proto msg : M}

theorem EmptyBodyGives.outcome {b : Build M} (h : b.EmptyBodyGives header proto msg)
    (hremain : remainSize header = 0) {peek : ℕ → Bytes} (hpeek : ∀ n, (peek n).length = n) :
    ∃ pac, b.bodyOutcome header typeName proto peek = .package pac ∧ pac.msgPtr = some msg := by
  cases hzip : header.iszip with
  | false =>
    simp only [EmptyBodyGives, hzip, Bool.false_eq_true, if_false] at h
    simp only [bodyOutcome, hzip, Bool.false_eq_true, if_false, h _ (hpeek _)]
    exact ⟨_, rfl, rfl⟩
  | true =>
    simp only [EmptyBodyGives, hzip, if_true] at h
    obtain ⟨hsize, content, hcontent, hparse⟩ := h
    have hnone : peek (sizeT 0) = [] := List.length_eq_zero_iff.mp (hpeek (sizeT 0))
    simp only [bodyOutcome, hzip, if_true, hremain, hnone, if_neg (Int.not_lt.mpr hsize), hcontent,
      hparse]
    exact ⟨_, rfl, rfl⟩

/-- What every choice of the bytes that follow gives comes of an empty body. -/
theorem emptyBodyGives_of_outcome (hremain : remainSize header = 0)
    (h : ∀ data : Bytes, ∃ peek : ℕ → Bytes, ∃ pac, peek 0 = [] ∧ peek data.length = data ∧
      b.bodyOutcome header typeName proto peek = .package pac ∧ pac.msgPtr = some msg) :
    b.EmptyBodyGives header proto msg := by
  cases hzip : header.iszip with
  | false =>
    simp only [EmptyBodyGives, hzip, Bool.false_eq_true, if_false]
    intro data hdata
    obtain ⟨peek, pac, _, hpeek, hpac, hmsg⟩ := h data
    simp only [bodyOutcome, hzip, Bool.false_eq_true, if_false, ← hdata, hpeek] at hpac
    rw [(parsedPackage_eq hpac).2.2, hmsg]
  | true =>
    simp only [EmptyBodyGives, hzip, if_true]
    obtain ⟨peek, pac, hnone, _, hpac, hmsg⟩ := h []
    have hempty : peek (sizeT 0) = [] := hnone
    simp only [bodyOutcome, hzip, if_true, hremain, hempty] at hpac
    split at hpac
    · simp at hpac
    · next hsize =>
      refine ⟨Int.not_lt.mp hsize, ?_⟩
      split at hpac
      · next content hcontent =>
        exact ⟨content, hcontent, (parsedPackage_eq hpac).2.2.trans hmsg⟩
      · simp at hpac

end NoBody

end Build

/-- A header with the flag pair and a type name length that decode accepts, and so many bytes. -/
structure BareFrame where
  header : PacHeader
  typeName : Bytes
  flag_eq : header.flag = (flag0, flag1)
  name_pos : 1 ≤ header.typeNameLen.toInt
  name_le : header.typeNameLen.toInt ≤ 1024
  name_length : typeName.length = header.typeNameLen.toNat

namespace BareFrame

open Build

variable (f : BareFrame)

def bytes : Bytes := f.header.toWire ++ f.typeName

theorem name_toInt : (f.typeName.length : ℤ) = f.header.typeNameLen.toInt := by
  have hpos := f.name_pos
  rw [f.name_length, toNat_of_toInt_pos _ (by omega)]

theorem bytes_length : f.bytes.length = kPackageHeaderSize + f.typeName.length := by
  rw [bytes, List.length_append, PacHeader.toWire_length]

theorem seek_bytes (r : Bytes) : seek (f.bytes ++ r) = f.bytes ++ r := by
  have h0 : (f.bytes ++ r).getD 0 0 = f.header.flag.1 := rfl
  have h1 : (f.bytes ++ r).getD 1 0 = f.header.flag.2 := rfl
  apply seek_of_flag
  rw [startsWithFlag, h0, h1, f.flag_eq]
  decide

theorem ofWire_bytes (r : Bytes) : PacHeader.ofWire (f.bytes ++ r) = f.header := by
  rw [bytes, List.append_assoc, PacHeader.ofWire_toWire_append]

theorem drop_header (r : Bytes) : (f.bytes ++ r).drop kPackageHeaderSize = f.typeName ++ r := by
  rw [bytes, List.append_assoc, ← PacHeader.toWire_length f.header, List.drop_left]

theorem frameName_bytes (r : Bytes) : frameName (f.bytes ++ r) = f.typeName := by
  rw [frameName, ofWire_bytes, drop_header, ← f.name_length, List.take_left]

theorem behindName_bytes (r : Bytes) : behindName (f.bytes ++ r) = r := by
  rw [behindName, ofWire_bytes, drop_header, ← f.name_length, List.drop_left]

/-- pacSize in the range of what is there. -/
def SizeWithin (f : BareFrame) : Prop :=
  0 ≤ f.header.pacSize.toInt ∧
    f.header.pacSize.toInt ≤ kPackageHeaderSize + f.typeName.length

theorem SizeWithin.badSizes_eq {f : BareFrame} (h : f.SizeWithin) :
    badSizes f.header = false := by
  have hpos := f.name_pos
  have hle := f.name_le
  have hname := f.name_toInt
  obtain ⟨hlow, hhigh⟩ := h
  simp only [badSizes, badPacSize, badTypeNameLen, Bool.or_eq_false_iff, decide_eq_false_iff_not]
  unfold kPackageHeaderSize at hhigh
  unfold kMaxPackageLen
  omega

theorem SizeWithin.frontFrame {f : BareFrame} (h : f.SizeWithin) (r : Bytes) :
    FrontFrame (f.bytes ++ r) := by
  have hpos := f.name_pos
  have hlt : f.header.pacSize.toInt < 2 ^ 31 := BitVec.toInt_lt
  have hname := f.name_toInt
  obtain ⟨hlow, hhigh⟩ := h
  rw [FrontFrame, ofWire_bytes, List.length_append, bytes_length,
    sizeT_of_nonneg _ hlow (by omega)]
  omega

/-- A decoder that gives a package of the frame alone has not waited for more. -/
theorem sizeWithin_of_package (b : Build M) (mem : Memory) (buf : Buffer)
    (hbuf : buf.readable = f.bytes ++ []) (pac : Package M)
    (h : (b.decode mem buf).value.1 = .package pac) : f.SizeWithin := by
  have hpos := f.name_pos
  have hle := f.name_le
  have hname := f.name_toInt
  have hseek : seek buf.readable = f.bytes ++ [] := by rw [hbuf, seek_bytes]
  have hlong : kPackageHeaderSize < (seek buf.readable).length := by
    rw [hseek, List.append_nil, bytes_length]
    omega
  have hcomp : ¬ Incomplete buf.readable := by
    intro hinc
    rw [decode_of_done b mem buf _ _ (decodePass_incomplete b mem buf hlong hinc).1] at h
    simp at h
  rw [Incomplete, frontHeader, hseek, ofWire_bytes, List.append_nil, bytes_length] at hcomp
  have hlow : -2 ^ 31 ≤ f.header.pacSize.toInt := BitVec.le_toInt _
  have hhigh : f.header.pacSize.toInt < 2 ^ 31 := BitVec.toInt_lt
  unfold sizeT at hcomp
  unfold SizeWithin kPackageHeaderSize at *
  omega

/-- What an activation of decode makes of the frame when it does not wait. -/
theorem decodePass_bytes (b : Build M) (hbus : b.MSGBUS = false) (hsize : f.SizeWithin)
    (mem : Memory) (buf : Buffer) (r : Bytes) (hbuf : buf.readable = f.bytes ++ r) :
    (b.createMessage f.typeName = none ∧
      ∃ left, (b.decodePass mem buf).value = .again left ∧ left.readable = r) ∨
    ∃ (proto : M) (body left : Buffer), b.createMessage f.typeName = some proto ∧
      body.readable = r ∧
      (b.decodePass mem buf).value =
        .done (b.bodyOutcome f.header f.typeName proto (body.peekBytes mem)) left ∧
      left.readable =
        if (b.bodyOutcome f.header f.typeName proto (body.peekBytes mem)).isPackage then
          r.drop (sizeT (remainSize f.header)) else r := by
  have hthrough : b.passesThrough f.typeName = false := by simp [passesThrough, hbus]
  have hseek : seek buf.readable = f.bytes ++ r := by rw [hbuf, seek_bytes]
  have hpass := b.decodePass_front mem buf (by rw [hseek]; exact hsize.frontFrame r)
  rw [hseek] at hpass
  generalize (b.decodePass mem buf).value = pass at hpass
  cases hpass with
  | badSizes hbad => simp [ofWire_bytes, hsize.badSizes_eq] at hbad
  | overlong _ hover =>
    rw [ofWire_bytes, ← f.name_length, List.length_append, bytes_length] at hover
    omega
  | passed _ _ hpassed => simp [frameName_bytes, hthrough] at hpassed
  | unknown _ _ _ hnone hleft _ =>
    rw [frameName_bytes] at hnone
    rw [behindName_bytes] at hleft
    exact Or.inl ⟨hnone, _, rfl, hleft⟩
  | @known proto body left _ _ _ hproto hbody _ hleft =>
    rw [frameName_bytes] at hproto
    rw [behindName_bytes] at hbody
    rw [ofWire_bytes, frameName_bytes, hbody] at hleft
    rw [ofWire_bytes, frameName_bytes]
    exact Or.inr ⟨proto, body, left, hproto, hbody, rfl, hleft⟩

/-- decode of a frame of a known type that does not make it wait. -/
theorem decode_known (b : Build M) (hbus : b.MSGBUS = false) (hsize : f.SizeWithin) {proto : M}
    (hproto : b.createMessage f.typeName = some proto) (mem : Memory) (buf : Buffer) (r : Bytes)
    (hbuf : buf.readable = f.bytes ++ r) :
    ∃ body left : Buffer, body.readable = r ∧
      (b.decode mem buf).value =
        (b.bodyOutcome f.header f.typeName proto (body.peekBytes mem), left) ∧
      left.readable =
        if (b.bodyOutcome f.header f.typeName proto (body.peekBytes mem)).isPackage then
          r.drop (sizeT (remainSize f.header)) else r := by
  rcases f.decodePass_bytes b hbus hsize mem buf r hbuf with
    ⟨hnone, _⟩ | ⟨proto', body, left, hsome, hbody, hvalue, hleft⟩
  · simp [hproto] at hnone
  · rw [hproto, Option.some.injEq] at hsome
    subst hsome
    exact ⟨body, left, hbody, by rw [decode_of_done b mem buf left _ hvalue], hleft⟩

/-- A frame of a type that nobody knows gives nothing by itself. -/
theorem known_of_package (b : Build M) (hbus : b.MSGBUS = false) (hsize : f.SizeWithin)
    (mem : Memory) (buf : Buffer) (hbuf : buf.readable = f.bytes ++ []) (pac : Package M)
    (h : (b.decode mem buf).value.1 = .package pac) :
    ∃ proto, b.createMessage f.typeName = some proto := by
  rcases f.decodePass_bytes b hbus hsize mem buf [] hbuf with
    ⟨_, left, hvalue, hleft⟩ | ⟨proto, _, _, hsome, _⟩
  · rw [decode_value_of_again b mem buf left hvalue] at h
    have hcount := b.decode_consumes mem left (by rw [h]; simp)
    rw [← Buffer.readable_length left, hleft] at hcount
    simp [kPackageHeaderSize] at hcount
  · exact ⟨proto, hsome⟩

/-- The frame gives the message iff it carries the whole name and no more, its pacSize is its own
length and the message comes of an empty body. The bytes of another length may be any. -/
theorem decodesTo_iff (b : Build M) (hbus : b.MSGBUS = false) {typeName : Bytes} {proto msg : M}
    (hproto : b.createMessage typeName = some proto)
    (hname : f.typeName.length = typeName.length → f.typeName = typeName) :
    b.DecodesTo f.bytes typeName msg ↔
      f.header.typeNameLen.toInt = typeName.length ∧
      f.header.pacSize.toInt = kPackageHeaderSize + typeName.length ∧
      b.EmptyBodyGives f.header proto msg := by
  have hlen := f.name_toInt
  constructor
  · intro h
    have hempty : (Buffer.empty.append (f.bytes ++ [])).readable = f.bytes ++ [] :=
      Buffer.readable_empty_append _
    obtain ⟨pac, left, hvalue, -, htype, -⟩ := h PingPong.memory _ [] hempty
    have hfirst : (b.decode PingPong.memory (Buffer.empty.append (f.bytes ++ []))).value.1 =
        .package pac := by rw [hvalue]
    have hsize : f.SizeWithin := f.sizeWithin_of_package b _ _ hempty pac hfirst
    obtain ⟨proto', hproto'⟩ := f.known_of_package b hbus hsize _ _ hempty pac hfirst
    -- the name is the one on the wire, so its length is the right one
    have hsame : f.typeName = typeName := by
      obtain ⟨body, left, _, hdecode, _⟩ := f.decode_known b hbus hsize hproto' _ _ [] hempty
      rw [hdecode] at hfirst
      rw [← htype, (b.bodyOutcome_package hfirst).1]
    rw [hsame] at hlen
    obtain rfl : proto = proto' := by
      rw [hsame, hproto, Option.some.injEq] at hproto'
      exact hproto'
    -- a byte behind the frame is left where it is, so no body is consumed
    have hremain : remainSize f.header = 0 := by
      have hbyte := Buffer.readable_empty_append (f.bytes ++ [0])
      obtain ⟨pac, left, hvalue, hleft, -, -⟩ := h PingPong.memory _ [0] hbyte
      obtain ⟨body, left', _, hdecode, hleft'⟩ := f.decode_known b hbus hsize hproto' _ _ [0] hbyte
      rw [hdecode, Prod.mk.injEq] at hvalue
      rw [hvalue.1, hvalue.2, hleft] at hleft'
      have hcount := congrArg List.length hleft'
      simp only [Decoded.isPackage, if_true, List.length_drop, List.length_singleton] at hcount
      obtain ⟨hlow, hhigh⟩ := hsize
      have hle := f.name_le
      rw [hsame] at hhigh
      unfold sizeT remainSize kPackageHeaderSize at *
      omega
    refine ⟨hlen.symm, ?_, ?_⟩
    · unfold remainSize at hremain
      omega
    · refine b.emptyBodyGives_of_outcome f.typeName hremain fun data => ?_
      have hdata := Buffer.readable_empty_append (f.bytes ++ data)
      obtain ⟨pac, left, hvalue, -, -, hmsg⟩ := h PingPong.memory _ data hdata
      obtain ⟨body, left', hbody, hdecode, _⟩ :=
        f.decode_known b hbus hsize hproto' _ _ data hdata
      rw [hdecode, Prod.mk.injEq] at hvalue
      refine ⟨body.peekBytes PingPong.memory, pac, ?_, ?_, hvalue.1, hmsg⟩
      · exact List.length_eq_zero_iff.mp (body.peekBytes_length _ 0)
      · rw [Buffer.peekBytes_eq _ _ _ (Nat.le_of_eq (by rw [← Buffer.readable_length, hbody])),
          hbody, List.take_length]
  · rintro ⟨hnameLen, hpacSize, hbody⟩ mem buf r hbuf
    have hsame : f.typeName = typeName := hname (by omega)
    have hsize : f.SizeWithin := by
      rw [SizeWithin, hsame]
      omega
    have hremain : remainSize f.header = 0 := by
      unfold remainSize
      omega
    obtain ⟨body, left, _, hvalue, hleft⟩ :=
      f.decode_known b hbus hsize (by rw [hsame]; exact hproto) mem buf r hbuf
    obtain ⟨pac, hpac, hmsg⟩ := hbody.outcome f.typeName hremain (body.peekBytes_length mem)
    rw [hpac] at hvalue hleft
    refine ⟨pac, left, hvalue, ?_, ?_, hmsg⟩
    · rw [hleft, hremain]
      rfl
    · rw [(b.bodyOutcome_package hpac).1, hsame]

end BareFrame

end AsioMsg
