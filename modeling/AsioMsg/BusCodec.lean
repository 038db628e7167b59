import AsioMsg.BareFrame
import AsioMsg.BusForwarding
import AsioMsg.BusPublish
import AsioMsg.RequestEcho

/-!
Messages of the bus itself through the codec of the bus. encode passes header,
name and body of a package on as they are, which only decode fills: a published
message leaves without its bytes and with pacSize 0, a reply with the lengths of
the request that it answers.
-/

namespace AsioMsg

variable {M : Type}

/-- The package Session::publishMessage sends. -/
def publishPackage (b : Build M) (msgId : BitVec 32) (msg : M) : Package M where
  header := {
    msgType := MsgType.PUBSUB.code
    msgId := msgId
    typeNameLen := BitVec.ofNat 16 (b.protobuf.getTypeName msg).length }
  typeName := b.protobuf.getTypeName msg
  msgPtr := some msg

@[simp] theorem stringBytes_length (mem : Memory) (s : Bytes) (len : ℕ) :
    (stringBytes mem s len).length = len := by
  rw [stringBytes, List.length_take, List.length_append, List.length_map, List.length_range]
  omega

theorem stringBytes_self (mem : Memory) (s : Bytes) : stringBytes mem s s.length = s := by
  rw [stringBytes, List.take_left]

namespace Build

/-- Session::publishMessage up to the buffer it posts to io_. -/
def publishMessage (b : Build M) (mem : Memory) (enableCompressSize msgId : BitVec 32) (msg : M) :
    Encoded M :=
  b.encode mem enableCompressSize (publishPackage b msgId msg) Buffer.empty

/-- The same program with MSGBUS defined or not. -/
def withBus (b : Build M) (bus : Bool) : Build M := { b with MSGBUS := bus }

theorem decodeOpaque_header {header : PacHeader} {typeName : Bytes} {buf left : Buffer}
    {pac : Package M}
    (h : (decodeOpaque header typeName buf).value = .done (.package pac) left) :
    pac.header = header := by
  simp only [decodeOpaque, Traced.bind_value] at h
  split at h
  · simp at h
  · simp only [Traced.bind_value, Traced.pure_value, Pass.done.injEq, Decoded.package.injEq] at h
    rw [← h.1]

/-- Passed through or parsed, a package has the flag and a type name length that is in range. -/
theorem decodePass_checked (b : Build M) (mem : Memory) (buf left : Buffer) (pac : Package M)
    (h : (b.decodePass mem buf).value = .done (.package pac) left) :
    pac.header.flag = (flag0, flag1) ∧ badTypeNameLen pac.header = false := by
  obtain ⟨hflag, hlen, hfrom⟩ := b.decodePass_package mem buf left pac h
  cases hfrom with
  | passed _ hvalue =>
    rw [decodeOpaque_header hvalue]
    exact ⟨hflag, hlen⟩
  | known _ hvalue =>
    obtain ⟨left, houtcome, _⟩ := b.decodeMessage_value mem (frontHeader buf.readable) _ _ _
    rw [houtcome, Pass.done.injEq] at hvalue
    obtain ⟨_, hsame, hlenSame, _⟩ := b.bodyOutcome_package hvalue.1
    rw [badTypeNameLen, hsame, hlenSame]
    exact ⟨hflag, hlen⟩

theorem decode_checked (b : Build M) (mem : Memory) (buf : Buffer) (pac : Package M)
    (h : (b.decode mem buf).value.1 = .package pac) :
    pac.header.flag = (flag0, flag1) ∧ badTypeNameLen pac.header = false :=
  b.decode_package_of_pass mem (b.decodePass_checked mem) buf pac h

/-- A message of a registered type outside ProtoBase that can be serialized, with a type name and
a frame within the limits of decode. -/
structure Routable (b : Build M) (enableCompressSize : BitVec 32) (msg : M) : Prop where
  registered : b.protobuf.Registered msg
  outside : hasPrefixString (b.protobuf.getTypeName msg) protoBase = false
  name_pos : 1 ≤ (b.protobuf.getTypeName msg).length
  name_le : (b.protobuf.getTypeName msg).length ≤ 1024
  byteSizeLong_le : b.protobuf.byteSizeLong msg ≤ INT_MAX
  emitted_le : ∀ package, ((kPackageHeaderSize + (b.protobuf.getTypeName msg).length +
    (b.wireContent enableCompressSize package msg).length : ℕ) : ℤ) ≤ kMaxPackageLen

section Codec

variable {b : Build M} {enableCompressSize : BitVec 32} {msg : M}

/-- Without MSGBUS the frame of a package with the flag and a clear iszip gives its message. -/
theorem Routable.decodesTo_plain (h : b.Routable enableCompressSize msg)
    (hparse : b.protobuf.ParseUndoesSerialize) (hzlib : b.zlib.UncompressUndoesCompress)
    (mem : Memory) (package : Package M) (htype : package.typeName = b.protobuf.getTypeName msg)
    (hptr : package.msgPtr = some msg) (hflag : package.header.flag = (flag0, flag1))
    (hzip : package.header.iszip = false) :
    ∃ sent out,
      (b.withBus false).encode mem enableCompressSize package Buffer.empty = .frame sent out ∧
        (b.withBus false).DecodesTo out.readable (b.protobuf.getTypeName msg) msg := by
  have hsend : Sendable (b.withBus false) enableCompressSize package msg := {
    typeName_ne := by
      rw [htype]
      exact List.ne_nil_of_length_pos h.name_pos
    plain := ⟨rfl, rfl⟩
    msgPtr_eq := hptr
    registered := h.registered
    name_pos := h.name_pos
    name_le := h.name_le
    flag_eq := hflag
    iszip_eq := hzip
    byteSizeLong_le := h.byteSizeLong_le
    emitted_le := h.emitted_le package }
  obtain ⟨out, henc, _⟩ := hsend.encode_eq mem Buffer.empty
  refine ⟨_, out, henc, ?_⟩
  intro mem' buf r hbuf
  obtain ⟨left, hvalue, hleft⟩ := hsend.decode_frame hparse hzlib mem' buf r
    (by rw [hbuf, hsend.readable_of_encode henc, WireFrame.seek_bytes])
  exact ⟨_, left, hvalue, hleft, rfl, rfl⟩

/-- With MSGBUS it is the header of the package and as many characters as that announces, and
what it gives is decided by the lengths in that header. -/
theorem Routable.decodesTo_bus (h : b.Routable enableCompressSize msg) (mem : Memory)
    (package : Package M) (htype : package.typeName = b.protobuf.getTypeName msg)
    (hbody : package.body = []) (hflag : package.header.flag = (flag0, flag1))
    (hsizes : badTypeNameLen package.header = false) {proto : M}
    (hproto : b.createMessage (b.protobuf.getTypeName msg) = some proto) :
    ∃ sent out,
      (b.withBus true).encode mem enableCompressSize package Buffer.empty = .frame sent out ∧
        ((b.withBus false).DecodesTo out.readable (b.protobuf.getTypeName msg) msg ↔
          package.header.typeNameLen.toInt = (b.protobuf.getTypeName msg).length ∧
          package.header.pacSize.toInt =
            kPackageHeaderSize + (b.protobuf.getTypeName msg).length ∧
          b.EmptyBodyGives package.header proto msg) := by
  simp only [badTypeNameLen, Bool.or_eq_false_iff, decide_eq_false_iff_not] at hsizes
  have hthrough : (b.withBus true).passesThrough package.typeName = true := by
    rw [htype]
    simp [passesThrough, withBus, h.outside]
  have hname : package.typeName ≠ [] := by
    rw [htype]
    exact List.ne_nil_of_length_pos h.name_pos
  obtain ⟨out, henc, hout⟩ := (b.withBus true).encode_passed mem enableCompressSize package
    Buffer.empty hthrough hname (by omega)
  let f : BareFrame := {
    header := package.header
    typeName := stringBytes mem package.typeName package.header.typeNameLen.toNat
    flag_eq := hflag
    name_pos := by omega
    name_le := by omega
    name_length := stringBytes_length _ _ _ }
  have hframe : out.readable = f.bytes := by
    rw [hout, hbody, List.append_nil, Buffer.readable_empty, List.nil_append]
    rfl
  refine ⟨_, out, henc, ?_⟩
  rw [hframe]
  refine f.decodesTo_iff (b.withBus false) rfl hproto ?_
  intro hlen
  rw [stringBytes_length] at hlen
  change stringBytes mem package.typeName package.header.typeNameLen.toNat = _
  rw [hlen, htype, stringBytes_self]

theorem publishPackage_checked (h : b.Routable enableCompressSize msg) (msgId : BitVec 32) :
    badTypeNameLen (publishPackage b msgId msg).header = false := by
  have hlen : (publishPackage b msgId msg).header.typeNameLen.toInt =
      (b.protobuf.getTypeName msg).length :=
    toInt_ofNat_short _ (by have := h.name_le; omega)
  have hpos := h.name_pos
  have hle := h.name_le
  rw [badTypeNameLen, hlen, Bool.or_eq_false_iff, decide_eq_false_iff_not, decide_eq_false_iff_not]
  omega

/-- A published message never comes through the bus build. -/
theorem Routable.publishMessage_lost (h : b.Routable enableCompressSize msg) (mem : Memory)
    (msgId : BitVec 32) :
    ∃ sent out, (b.withBus true).publishMessage mem enableCompressSize msgId msg =
        .frame sent out ∧
      ¬ (b.withBus false).DecodesTo out.readable (b.protobuf.getTypeName msg) msg := by
  obtain ⟨proto, hproto⟩ := Option.isSome_iff_exists.mp h.registered
  obtain ⟨sent, out, henc, hiff⟩ := h.decodesTo_bus mem (publishPackage (b.withBus true) msgId msg)
    rfl rfl rfl (publishPackage_checked h msgId) hproto
  refine ⟨sent, out, henc, ?_⟩
  rw [hiff]
  rintro ⟨_, hpacSize, _⟩
  change (0 : ℤ) = _ at hpacSize
  unfold kPackageHeaderSize at hpacSize
  omega

end Codec

/-- Without MSGBUS what publishMessage and replyMessage send gives the type name and the message.
With it a published message never does, and a reply does iff the request that it answers has as
long a type name, no body, and the message is what comes of an empty one. -/
theorem busCodec_iff (b : Build M) (hparse : b.protobuf.ParseUndoesSerialize)
    (hzlib : b.zlib.UncompressUndoesCompress) (enableCompressSize : BitVec 32) (msg : M)
    (h : b.Routable enableCompressSize msg) (proto : M)
    (hproto : b.createMessage (b.protobuf.getTypeName msg) = some proto) (mem : Memory) :
    ((∀ msgId, ∃ sent out,
        (b.withBus false).publishMessage mem enableCompressSize msgId msg = .frame sent out ∧
          (b.withBus false).DecodesTo out.readable (b.protobuf.getTypeName msg) msg) ∧
      ∀ mem' readBuffer req, ((b.withBus false).decode mem' readBuffer).value.1 = .package req →
        ∃ sent out,
          (b.withBus false).replyMessage mem enableCompressSize req msg = .frame sent out ∧
            (b.withBus false).DecodesTo out.readable (b.protobuf.getTypeName msg) msg) ∧
    (∀ msgId, ∃ sent out,
      (b.withBus true).publishMessage mem enableCompressSize msgId msg = .frame sent out ∧
        ¬ (b.withBus false).DecodesTo out.readable (b.protobuf.getTypeName msg) msg) ∧
    ∀ mem' readBuffer req, ((b.withBus true).decode mem' readBuffer).value.1 = .package req →
      ∃ sent out,
        (b.withBus true).replyMessage mem enableCompressSize req msg = .frame sent out ∧
          ((b.withBus false).DecodesTo out.readable (b.protobuf.getTypeName msg) msg ↔
            req.header.typeNameLen.toInt = (b.protobuf.getTypeName msg).length ∧
            req.header.pacSize.toInt =
              kPackageHeaderSize + (b.protobuf.getTypeName msg).length ∧
            b.EmptyBodyGives req.header proto msg) := by
  refine ⟨⟨fun msgId => ?_, fun mem' readBuffer req hreq => ?_⟩, h.publishMessage_lost mem,
    fun mem' readBuffer req hreq => ?_⟩
  · exact h.decodesTo_plain hparse hzlib mem (publishPackage (b.withBus false) msgId msg) rfl rfl
      rfl (by simp [publishPackage, PacHeader.iszip])
  · obtain ⟨hflag, hzip⟩ := (b.withBus false).decode_header rfl mem' readBuffer req hreq
    exact h.decodesTo_plain hparse hzlib mem (replyPackage (b.withBus false) req msg) rfl rfl hflag
      hzip
  · obtain ⟨hflag, hsizes⟩ := (b.withBus true).decode_checked mem' readBuffer req hreq
    exact h.decodesTo_bus mem (replyPackage (b.withBus true) req msg) rfl rfl hflag hsizes hproto

theorem routable_blank : (PingPong.build true).Routable (-1) PingPong.blank where
  registered := rfl
  outside := by decide
  name_pos := by decide
  name_le := by decide
  byteSizeLong_le := by decide
  emitted_le := fun _ => by
    change ((20 + 23 + 0 : ℕ) : ℤ) ≤ kMaxPackageLen
    decide

/-- A blank reply to a request of the same type with nothing in it. -/
theorem busCodec_blank :
    ∃ sent out, (PingPong.build true).replyMessage PingPong.memory (-1) MsgBus.published
        PingPong.blank = .frame sent out ∧
      (PingPong.build false).DecodesTo out.readable PingPong.typeName PingPong.blank := by
  obtain ⟨_, _, hreply⟩ := busCodec_iff (PingPong.build true) PingPong.parseUndoesSerialize
    PingPong.uncompressUndoesCompress (-1) PingPong.blank routable_blank PingPong.blank rfl
    PingPong.memory
  obtain ⟨sent, out, henc, hiff⟩ :=
    hreply PingPong.memory MsgBus.publishedBuffer MsgBus.published MsgBus.decode_published
  refine ⟨sent, out, henc, hiff.mpr ⟨by decide, by decide, ?_⟩⟩
  intro data hdata
  obtain rfl : data = [] := List.length_eq_zero_iff.mp hdata
  rfl

/-- A published blank message takes what follows its frame with it. -/
theorem busCodec_fails :
    ¬ ∀ (msg : PingPong) (sent : Package PingPong) (out : Buffer),
      (PingPong.build true).publishMessage PingPong.memory (-1) 1 msg = .frame sent out →
        (PingPong.build false).DecodesTo out.readable PingPong.typeName msg := by
  intro h
  obtain ⟨sent, out, henc, hlost⟩ := routable_blank.publishMessage_lost PingPong.memory 1
  exact hlost (h PingPong.blank sent out henc)

end Build

end AsioMsg
