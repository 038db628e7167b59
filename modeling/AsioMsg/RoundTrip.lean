import AsioMsg.WireFrame
import AsioMsg.PingPong

/-!
decode undoes encode for packages that are serialized, which are all in a build
without MSGBUS. The frame of a package is written with the length fields of
what really goes on the wire; decode hands back the header with the lengths of
the uncompressed message, so the received package does not depend on the
compression threshold.
-/

namespace AsioMsg

variable {M : Type}

namespace PacHeader

def withLengths (header : PacHeader) (typeNameLen msgSize pacSize : ℕ) : PacHeader :=
  { header with
    typeNameLen := BitVec.ofNat 16 typeNameLen
    msgSize := BitVec.ofNat 32 msgSize
    pacSize := BitVec.ofNat 32 pacSize }

theorem iszip_withLengths (header : PacHeader) (l m p : ℕ) :
    (header.withLengths l m p).iszip = header.iszip := rfl

end PacHeader

namespace Build

/-- What encode writes behind the type name. -/
def wireContent (b : Build M) (enableCompressSize : BitVec 32) (package : Package M) (msg : M) :
    Bytes :=
  (b.compressContent enableCompressSize package.header (b.protobuf.serialize msg)).2

/-- The header encode writes. -/
def wireHeader (b : Build M) (enableCompressSize : BitVec 32) (package : Package M) (msg : M) :
    PacHeader :=
  (b.compressContent enableCompressSize package.header (b.protobuf.serialize msg)).1.withLengths
    (b.protobuf.getTypeName msg).length (b.protobuf.byteSizeLong msg)
    (kPackageHeaderSize + (b.protobuf.getTypeName msg).length +
      (b.wireContent enableCompressSize package msg).length)

/-- The package decode makes of the frame: nothing in it depends on the threshold. -/
def received (b : Build M) (package : Package M) (msg : M) : Package M where
  header := package.header.withLengths (b.protobuf.getTypeName msg).length
    (b.protobuf.byteSizeLong msg)
    (kPackageHeaderSize + (b.protobuf.getTypeName msg).length + b.protobuf.byteSizeLong msg)
  typeName := b.protobuf.getTypeName msg
  msgPtr := some msg

theorem received_eq (b : Build M) {package : Package M} {msg : M} {header : PacHeader}
    (h : (b.received package msg).header = header) :
    b.received package msg =
      { header := header, typeName := b.protobuf.getTypeName msg, msgPtr := some msg } := by
  rw [← h]
  rfl

/-- encode of a message that it serializes: header, type name and content. -/
theorem encode_serialized (b : Build M) (mem : Memory) (enableCompressSize : BitVec 32)
    (package : Package M) {msg : M} (buffer : Buffer) (hname : package.typeName ≠ [])
    (hplain : b.passesThrough package.typeName = false) (hmsg : package.msgPtr = some msg)
    (hsize : b.protobuf.byteSizeLong msg ≤ INT_MAX) :
    b.encode mem enableCompressSize package buffer =
      match appendString mem
        (bufferAppendHeader buffer (b.wireHeader enableCompressSize package msg))
        (b.protobuf.getTypeName msg)
        (b.wireHeader enableCompressSize package msg).typeNameLen with
      | none => .undefined
      | some named =>
        .frame { package with
          header := b.wireHeader enableCompressSize package msg
          typeName := b.protobuf.getTypeName msg }
          (named.append (b.wireContent enableCompressSize package msg)) := by
  have hser : b.protobuf.serializePartialToArray msg = some (b.protobuf.serialize msg) :=
    if_pos hsize
  simp only [encode, hplain, Bool.false_eq_true, if_false, if_neg hname, hmsg, hser]
  rfl

theorem finishMessage_frame (f : WireFrame) (header : PacHeader) (msg : M) (body : Buffer) :
    (finishMessage header f.typeName (f.header.pacSize.toInt - kPackageHeaderSize -
      f.header.typeNameLen.toInt) (some msg) body).value =
      .done (.package { header := header, typeName := f.typeName, msgPtr := some msg })
        (body.retrieve f.body.length).value := by
  have hmax := f.pacSize_le
  rw [f.pacSize_eq] at hmax
  unfold kMaxPackageLen at hmax
  have hsize : sizeT (f.body.length : ℤ) = f.body.length := by
    rw [sizeT_of_nonneg _ (by omega) (by omega), Int.toNat_natCast]
  simp only [finishMessage, Traced.bind_value, Traced.pure_value, f.remainSize_eq, hsize]

/-- A raw body is parsed where it lies. -/
theorem decodeMessage_raw (b : Build M) (mem : Memory) (f : WireFrame) (proto msg : M)
    (body : Buffer) (rest : Bytes) (hbody : body.readable = f.body ++ rest)
    (hzip : f.header.iszip = false) (hsize : f.header.msgSize.toInt = f.body.length)
    (hparse : b.protobuf.parseFromArray proto f.body f.body.length = some msg) :
    (b.decodeMessage mem f.header f.typeName proto body).value =
      .done (.package { header := f.header, typeName := f.typeName, msgPtr := some msg })
        (body.retrieve f.body.length).value := by
  have hpeek : body.peekBytes mem f.body.length = f.body := by
    rw [Buffer.peekBytes_eq, hbody, List.take_left]
    rw [← Buffer.readable_length, hbody, List.length_append]
    omega
  have hparsed : b.protobuf.parseFromArray proto
      (body.peekBytes mem (sizeT f.header.msgSize.toInt)) f.header.msgSize.toInt = some msg := by
    rw [Protobuf.parseFromArray_peek, hsize, Int.toNat_natCast, hpeek, hparse]
  simp only [decodeMessage, hzip, Bool.false_eq_true, if_false, Traced.bind_value, hparsed]
  exact finishMessage_frame f f.header msg body

/-- A compressed body is parsed after decompression, and the header is rewritten. -/
theorem decodeMessage_zip (b : Build M) (mem : Memory) (f : WireFrame) (proto msg : M)
    (body : Buffer) (rest content : Bytes) (hbody : body.readable = f.body ++ rest)
    (hzip : f.header.iszip = true) (hsize : f.header.msgSize.toInt = content.length)
    (huncompress : b.zlib.uncompress f.body content.length = some content)
    (hparse : b.protobuf.parseFromArray proto content content.length = some msg) :
    (b.decodeMessage mem f.header f.typeName proto body).value =
      .done (.package {
        header := { f.header.setIszip false with
          pacSize := BitVec.ofInt 32
            (kPackageHeaderSize + f.header.typeNameLen.toInt + f.header.msgSize.toInt) }
        typeName := f.typeName
        msgPtr := some msg }) (body.retrieve f.body.length).value := by
  have hmax := f.pacSize_le
  rw [f.pacSize_eq] at hmax
  unfold kMaxPackageLen at hmax
  have hpeek : body.peekBytes mem (sizeT (f.header.pacSize.toInt - kPackageHeaderSize -
      f.header.typeNameLen.toInt)) = f.body := by
    rw [f.remainSize_eq, sizeT_of_nonneg _ (by omega) (by omega), Int.toNat_natCast,
      Buffer.peekBytes_eq, hbody, List.take_left]
    rw [← Buffer.readable_length, hbody, List.length_append]
    omega
  have hnonneg : ¬ f.header.msgSize.toInt < 0 := by omega
  simp only [decodeMessage, hzip, if_true, Traced.bind_value, if_neg hnonneg, hpeek]
  rw [show f.header.msgSize.toInt.toNat = content.length by omega, huncompress]
  simp only [Traced.bind_value, hparse]
  exact finishMessage_frame f _ msg body

/-- A package whose message has a registered type and can be serialized, and whose frame is within
the limits of decode. The stale length fields are arbitrary. -/
structure Sendable (b : Build M) (enableCompressSize : BitVec 32) (package : Package M) (msg : M) :
    Prop where
  typeName_ne : package.typeName ≠ []
  plain : b.passesThrough package.typeName = false ∧
    b.passesThrough (b.protobuf.getTypeName msg) = false
  msgPtr_eq : package.msgPtr = some msg
  registered : b.protobuf.Registered msg
  name_pos : 1 ≤ (b.protobuf.getTypeName msg).length
  name_le : (b.protobuf.getTypeName msg).length ≤ 1024
  flag_eq : package.header.flag = (flag0, flag1)
  iszip_eq : package.header.iszip = false
  byteSizeLong_le : b.protobuf.byteSizeLong msg ≤ INT_MAX
  emitted_le : ((kPackageHeaderSize + (b.protobuf.getTypeName msg).length +
    (b.wireContent enableCompressSize package msg).length : ℕ) : ℤ) ≤ kMaxPackageLen

/-- The compression branch either succeeds and sets iszip or changes nothing. -/
theorem compressContent_cases (b : Build M) (enableCompressSize : BitVec 32) (header : PacHeader)
    (content : Bytes) :
    (∃ out, b.zlib.compress content = some out ∧
      b.compressContent enableCompressSize header content = (header.setIszip true, out)) ∨
    b.compressContent enableCompressSize header content = (header, content) := by
  unfold compressContent
  split
  · cases hout : b.zlib.compress content with
    | none => exact Or.inr rfl
    | some out => exact Or.inl ⟨out, rfl, rfl⟩
  · exact Or.inr rfl

theorem compressContent_flag (b : Build M) (enableCompressSize : BitVec 32) (header : PacHeader)
    (content : Bytes) :
    (b.compressContent enableCompressSize header content).1.flag = header.flag := by
  rcases compressContent_cases b enableCompressSize header content with ⟨out, _, h⟩ | h
  · rw [h]
    rfl
  · rw [h]

namespace Sendable

variable {b : Build M} {enableCompressSize : BitVec 32} {package : Package M} {msg : M}

/-- The frame of a sendable package. -/
def frame (h : Sendable b enableCompressSize package msg) : WireFrame where
  header := b.wireHeader enableCompressSize package msg
  typeName := b.protobuf.getTypeName msg
  body := b.wireContent enableCompressSize package msg
  flag_eq := (compressContent_flag ..).trans h.flag_eq
  typeNameLen_eq := toInt_ofNat_short _ (by have := h.name_le; omega)
  typeName_pos := h.name_pos
  typeName_le := h.name_le
  pacSize_eq := by
    have hle := h.emitted_le
    unfold kMaxPackageLen at hle
    rw [wireHeader, PacHeader.withLengths, toInt_ofNat_int _ (by unfold INT_MAX; omega)]
    push_cast
    rfl
  pacSize_le := by
    have hle := h.emitted_le
    rw [wireHeader, PacHeader.withLengths, toInt_ofNat_int _ (by
      unfold kMaxPackageLen at hle
      unfold INT_MAX
      omega)]
    exact hle

/-- encode appends exactly the frame. -/
theorem encode_eq (h : Sendable b enableCompressSize package msg) (mem : Memory)
    (buffer : Buffer) :
    ∃ out, b.encode mem enableCompressSize package buffer =
        .frame { package with
          header := b.wireHeader enableCompressSize package msg
          typeName := b.protobuf.getTypeName msg } out ∧
      out.readable = buffer.readable ++ h.frame.bytes := by
  have hlen : (b.wireHeader enableCompressSize package msg).typeNameLen.toInt =
      (b.protobuf.getTypeName msg).length := h.frame.typeNameLen_eq
  have happend : ∀ buf : Buffer, appendString mem buf (b.protobuf.getTypeName msg)
      (b.wireHeader enableCompressSize package msg).typeNameLen =
        some (buf.append (b.protobuf.getTypeName msg)) := by
    intro buf
    have hnat : (b.wireHeader enableCompressSize package msg).typeNameLen.toNat =
        (b.protobuf.getTypeName msg).length := h.frame.toNat_typeNameLen
    rw [appendString, if_neg (by rw [hlen]; omega), hnat, stringBytes, List.take_left]
  have henc := b.encode_serialized mem enableCompressSize package buffer h.typeName_ne h.plain.1
    h.msgPtr_eq h.byteSizeLong_le
  rw [happend] at henc
  refine ⟨_, henc, ?_⟩
  simp only [Buffer.readable_append, bufferAppendHeader, frame, WireFrame.bytes, PacHeader.toWire,
    List.append_assoc]

theorem received_raw (h : Sendable b enableCompressSize package msg)
    (hcomp : b.compressContent enableCompressSize package.header (b.protobuf.serialize msg) =
      (package.header, b.protobuf.serialize msg)) :
    (b.received package msg).header = h.frame.header := by
  simp only [received, frame, wireHeader, wireContent, hcomp, Protobuf.byteSizeLong]

/-- Clearing the bit and restoring the uncompressed size undoes what compression changed. -/
theorem received_zip (h : Sendable b enableCompressSize package msg) {out : Bytes}
    (hcomp : b.compressContent enableCompressSize package.header (b.protobuf.serialize msg) =
      (package.header.setIszip true, out)) :
    (b.received package msg).header = { h.frame.header.setIszip false with
      pacSize := BitVec.ofInt 32 (kPackageHeaderSize + h.frame.header.typeNameLen.toInt +
        h.frame.header.msgSize.toInt) } := by
  have hmsgSize : h.frame.header.msgSize.toInt = b.protobuf.byteSizeLong msg :=
    toInt_ofNat_int _ h.byteSizeLong_le
  have hsum : (kPackageHeaderSize : ℤ) + (h.frame.typeName.length : ℤ) +
      (b.protobuf.byteSizeLong msg : ℤ) =
      ((kPackageHeaderSize + h.frame.typeName.length + b.protobuf.byteSizeLong msg : ℕ) : ℤ) := by
    push_cast
    rfl
  have hext : ((package.header.setIszip true).setIszip false).extInfo = package.header.extInfo := by
    rw [PacHeader.setIszip_setIszip _ h.iszip_eq]
  rw [h.frame.typeNameLen_eq, hmsgSize, hsum, BitVec.ofInt_natCast]
  simp only [frame, wireHeader, hcomp, received, PacHeader.withLengths, PacHeader.setIszip]
  simp only [PacHeader.setIszip] at hext
  rw [hext]

/-- In front of the frame an activation of decode returns the received package. -/
theorem decodePass_frame (h : Sendable b enableCompressSize package msg)
    (hparse : b.protobuf.ParseUndoesSerialize) (hzlib : b.zlib.UncompressUndoesCompress)
    (mem : Memory) (buf : Buffer) (rest : Bytes)
    (hbuf : seek buf.readable = h.frame.bytes ++ rest) :
    ∃ left, (b.decodePass mem buf).value = .done (.package (b.received package msg)) left ∧
      left.readable = rest := by
  obtain ⟨proto, hproto⟩ := Option.isSome_iff_exists.mp h.registered
  obtain ⟨body, hbody, hpass⟩ := h.frame.decodePass_bytes b mem rest buf hbuf
  have hparsed := hparse msg proto hproto
  have hmsgSize : h.frame.header.msgSize.toInt = b.protobuf.byteSizeLong msg :=
    toInt_ofNat_int _ h.byteSizeLong_le
  have hcreate : b.createMessage h.frame.typeName = some proto := hproto
  have hthrough : ¬ b.passesThrough h.frame.typeName = true := by
    rw [Bool.not_eq_true]
    exact h.plain.2
  rw [if_neg hthrough, hcreate] at hpass
  -- the two encodings meet here: both bodies decode to the received package
  have hdone : ∃ left, (b.decodeMessage mem h.frame.header h.frame.typeName proto body).value =
      .done (.package (b.received package msg)) left ∧ left.readable = rest := by
    refine ⟨(body.retrieve h.frame.body.length).value, ?_, ?_⟩
    · rcases compressContent_cases b enableCompressSize package.header
        (b.protobuf.serialize msg) with ⟨out, hout, hcomp⟩ | hcomp
      · have hzip : h.frame.header.iszip = true := by
          change (PacHeader.withLengths _ _ _ _).iszip = true
          rw [hcomp, PacHeader.iszip_withLengths, PacHeader.iszip_setIszip]
        have hbodyOut : h.frame.body = out := congrArg Prod.snd hcomp
        rw [decodeMessage_zip b mem h.frame proto msg body rest _ hbody hzip hmsgSize
          (by rw [hbodyOut]; exact hzlib _ _ hout) hparsed, received_eq b (h.received_zip hcomp)]
        rfl
      · have hzip : h.frame.header.iszip = false := by
          change (PacHeader.withLengths _ _ _ _).iszip = false
          rw [hcomp, PacHeader.iszip_withLengths, h.iszip_eq]
        have hbodyRaw : h.frame.body = b.protobuf.serialize msg := congrArg Prod.snd hcomp
        rw [decodeMessage_raw b mem h.frame proto msg body rest hbody hzip
          (by rw [hbodyRaw]; exact hmsgSize) (by rw [hbodyRaw]; exact hparsed),
          received_eq b (h.received_raw hcomp)]
        rfl
    · rw [Buffer.readable_retrieve, hbody, List.drop_left]
  obtain ⟨left, hleft, hrest⟩ := hdone
  exact ⟨left, hpass.trans hleft, hrest⟩

/-- decode of the frame and whatever follows it returns the received package. -/
theorem decode_frame (h : Sendable b enableCompressSize package msg)
    (hparse : b.protobuf.ParseUndoesSerialize) (hzlib : b.zlib.UncompressUndoesCompress)
    (mem : Memory) (buf : Buffer) (rest : Bytes)
    (hbuf : seek buf.readable = h.frame.bytes ++ rest) :
    ∃ left, (b.decode mem buf).value = (.package (b.received package msg), left) ∧
      left.readable = rest := by
  obtain ⟨left, hpass, hrest⟩ := h.decodePass_frame hparse hzlib mem buf rest hbuf
  exact ⟨left, by rw [decode_of_done b mem buf left _ hpass], hrest⟩

/-- Into an empty buffer encode writes just the frame. -/
theorem readable_of_encode (h : Sendable b enableCompressSize package msg) {mem : Memory}
    {sent : Package M} {out : Buffer}
    (henc : b.encode mem enableCompressSize package Buffer.empty = .frame sent out) :
    out.readable = h.frame.bytes := by
  obtain ⟨out', henc', hout⟩ := h.encode_eq mem Buffer.empty
  rw [henc, Encoded.frame.injEq] at henc'
  rw [henc'.2, hout, Buffer.readable_empty, List.nil_append]

/-- The length fields of the received package are those of the uncompressed message. -/
theorem received_lengths (h : Sendable b enableCompressSize package msg)
    (hplain : ((kPackageHeaderSize + (b.protobuf.getTypeName msg).length +
      b.protobuf.byteSizeLong msg : ℕ) : ℤ) ≤ kMaxPackageLen) :
    (b.received package msg).header.typeNameLen.toInt = (b.protobuf.getTypeName msg).length ∧
      (b.received package msg).header.msgSize.toInt = b.protobuf.byteSizeLong msg ∧
      (b.received package msg).header.pacSize.toInt = (kPackageHeaderSize +
        (b.protobuf.getTypeName msg).length + b.protobuf.byteSizeLong msg : ℕ) := by
  have hname := h.name_le
  unfold kMaxPackageLen at hplain
  exact ⟨toInt_ofNat_short _ (by omega), toInt_ofNat_int _ h.byteSizeLong_le,
    toInt_ofNat_int _ (by unfold INT_MAX; omega)⟩

end Sendable

/-- decode undoes encode, for every threshold and whatever follows the frame. -/
theorem decode_encode (b : Build M)
    (hparse : b.protobuf.ParseUndoesSerialize) (hzlib : b.zlib.UncompressUndoesCompress)
    (enableCompressSize : BitVec 32) (package : Package M) (msg : M)
    (h : Sendable b enableCompressSize package msg)
    (hplain : ((kPackageHeaderSize + (b.protobuf.getTypeName msg).length +
      b.protobuf.byteSizeLong msg : ℕ) : ℤ) ≤ kMaxPackageLen)
    (mem mem' : Memory) (buffer : Buffer) :
    ∃ sent out bytes, b.encode mem enableCompressSize package buffer = .frame sent out ∧
      out.readable = buffer.readable ++ bytes ∧
      ∀ (r : Bytes) (buf : Buffer), buf.readable = bytes ++ r →
        ∃ left, (b.decode mem' buf).value = (.package (b.received package msg), left) ∧
          left.readable = r ∧
          (b.received package msg).msgPtr = package.msgPtr ∧
          (b.received package msg).typeName = b.protobuf.getTypeName msg ∧
          (b.received package msg).header.msgType = package.header.msgType ∧
          (b.received package msg).header.msgId = package.header.msgId ∧
          (b.received package msg).header.extInfo = package.header.extInfo ∧
          (b.received package msg).header.iszip = false ∧
          (b.received package msg).header.typeNameLen.toInt =
            (b.protobuf.getTypeName msg).length ∧
          (b.received package msg).header.msgSize.toInt = b.protobuf.byteSizeLong msg ∧
          (b.received package msg).header.pacSize.toInt = (kPackageHeaderSize +
            (b.protobuf.getTypeName msg).length + b.protobuf.byteSizeLong msg : ℕ) := by
  obtain ⟨out, henc, hout⟩ := h.encode_eq mem buffer
  refine ⟨_, out, h.frame.bytes, henc, hout, ?_⟩
  intro r buf hbuf
  obtain ⟨left, hdec, hleft⟩ := h.decode_frame hparse hzlib mem' buf r
    (by rw [hbuf, WireFrame.seek_bytes])
  exact ⟨left, hdec, hleft, h.msgPtr_eq.symm, rfl, rfl, rfl, rfl, h.iszip_eq,
    h.received_lengths hplain⟩

theorem sendable_request (msg : PingPong) (msgId : BitVec 32) :
    Sendable (PingPong.build false) (-1) (PingPong.request msg msgId) msg := by
  have hshort := msg.short
  have hser : (PingPong.serialize msg).length ≤ 129 := by
    unfold PingPong.serialize
    split <;> simp only [List.length_cons, List.length_nil] <;> omega
  have hcontent : (PingPong.build false).wireContent (-1) (PingPong.request msg msgId) msg =
      PingPong.serialize msg := rfl
  exact {
    typeName_ne := by simp [PingPong.request, PingPong.typeName]
    plain := ⟨rfl, rfl⟩
    msgPtr_eq := rfl
    registered := rfl
    name_pos := show 1 ≤ PingPong.typeName.length by decide
    name_le := show PingPong.typeName.length ≤ 1024 by decide
    flag_eq := rfl
    iszip_eq := by simp [PacHeader.iszip, PingPong.request]
    byteSizeLong_le := by
      change (PingPong.serialize msg).length ≤ INT_MAX
      unfold INT_MAX
      omega
    emitted_le := by
      rw [hcontent]
      change ((20 + 23 + (PingPong.serialize msg).length : ℕ) : ℤ) ≤ kMaxPackageLen
      unfold kMaxPackageLen
      omega }

theorem decode_encode_ping :
    ∃ sent out bytes, (PingPong.build false).encode PingPong.memory (-1)
        (PingPong.request PingPong.blank 7) Buffer.empty = .frame sent out ∧
      out.readable = Buffer.empty.readable ++ bytes ∧
      ∀ (r : Bytes) (buf : Buffer), buf.readable = bytes ++ r →
        ∃ left, ((PingPong.build false).decode PingPong.memory buf).value =
          (.package ((PingPong.build false).received (PingPong.request PingPong.blank 7)
            PingPong.blank), left) ∧ left.readable = r := by
  obtain ⟨sent, out, bytes, henc, hout, hdec⟩ :=
    decode_encode (PingPong.build false) PingPong.parseUndoesSerialize
      PingPong.uncompressUndoesCompress (-1) (PingPong.request PingPong.blank 7) PingPong.blank
      (sendable_request PingPong.blank 7) (by decide) PingPong.memory PingPong.memory
      Buffer.empty
  refine ⟨sent, out, bytes, henc, hout, ?_⟩
  intro r buf hbuf
  obtain ⟨left, hvalue, hleft, _⟩ := hdec r buf hbuf
  exact ⟨left, hvalue, hleft⟩

end Build

end AsioMsg
