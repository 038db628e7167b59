import AsioMsg.FrameOutcome
import AsioMsg.RoundTrip
import AsioMsg.Session

/-!
Replies echo their requests. The header of a reply is a copy of the header that
decode returned, whatever lengths were on the wire; decode has cleared iszip by
then, so encode starts from a clean bit and overwrites every length.
-/

namespace AsioMsg

variable {M : Type}

namespace Build

/-- Session::replyMessage up to the buffer it posts to io_. -/
def replyMessage (b : Build M) (mem : Memory) (enableCompressSize : BitVec 32) (req : Package M)
    (rspMsg : M) : Encoded M :=
  b.encode mem enableCompressSize (replyPackage b req rspMsg) Buffer.empty

theorem decodePass_header (b : Build M) (hbus : b.MSGBUS = false) (mem : Memory)
    (buf rest : Buffer) (pac : Package M)
    (h : (b.decodePass mem buf).value = .done (.package pac) rest) :
    pac.header.flag = (flag0, flag1) ∧ pac.header.iszip = false := by
  obtain ⟨hflag, _, hfrom⟩ := b.decodePass_package mem buf rest pac h
  cases hfrom with
  | passed hthrough _ => simp [passesThrough, hbus] at hthrough
  | known _ hvalue =>
    obtain ⟨left, houtcome, _⟩ := b.decodeMessage_value mem (frontHeader buf.readable) _ _ _
    rw [houtcome, Pass.done.injEq] at hvalue
    obtain ⟨_, hsame, _, hzip⟩ := b.bodyOutcome_package hvalue.1
    exact ⟨hsame.trans hflag, hzip⟩

/-- Whatever was on the wire, a package that decode returned has the flag and iszip clear. -/
theorem decode_header (b : Build M) (hbus : b.MSGBUS = false) (mem : Memory) (buf : Buffer)
    (pac : Package M) (h : (b.decode mem buf).value.1 = .package pac) :
    pac.header.flag = (flag0, flag1) ∧ pac.header.iszip = false :=
  b.decode_package_of_pass mem (b.decodePass_header hbus mem) buf pac h

/-- A reply of a registered type to a decoded request can be sent. -/
theorem sendable_reply (b : Build M) (hbus : b.MSGBUS = false) (mem : Memory)
    (readBuffer : Buffer) (req : Package M)
    (hreq : (b.decode mem readBuffer).value.1 = .package req)
    (enableCompressSize : BitVec 32) (rspMsg : M) (hregistered : b.protobuf.Registered rspMsg)
    (hpos : 1 ≤ (b.protobuf.getTypeName rspMsg).length)
    (hle : (b.protobuf.getTypeName rspMsg).length ≤ 1024)
    (hemitted : ((kPackageHeaderSize + (b.protobuf.getTypeName rspMsg).length +
      (b.wireContent enableCompressSize (replyPackage b req rspMsg) rspMsg).length : ℕ) : ℤ) ≤
        kMaxPackageLen)
    (hplain : ((kPackageHeaderSize + (b.protobuf.getTypeName rspMsg).length +
      b.protobuf.byteSizeLong rspMsg : ℕ) : ℤ) ≤ kMaxPackageLen) :
    Sendable b enableCompressSize (replyPackage b req rspMsg) rspMsg := by
  obtain ⟨hflag, hzip⟩ := b.decode_header hbus mem readBuffer req hreq
  have hthrough : ∀ typeName, b.passesThrough typeName = false := by simp [passesThrough, hbus]
  exact {
    typeName_ne := List.length_pos_iff.mp hpos
    plain := ⟨hthrough _, hthrough _⟩
    msgPtr_eq := rfl
    registered := hregistered
    name_pos := hpos
    name_le := hle
    flag_eq := hflag
    iszip_eq := hzip
    byteSizeLong_le := by
      unfold kMaxPackageLen at hplain
      unfold INT_MAX
      omega
    emitted_le := hemitted }

/-- The client gets the reply with the type, the id and the order bit of the request, and with
lengths that are the reply's own. -/
theorem replyMessage_echo (b : Build M) (hbus : b.MSGBUS = false)
    (hparse : b.protobuf.ParseUndoesSerialize) (hzlib : b.zlib.UncompressUndoesCompress)
    (mem : Memory) (readBuffer : Buffer) (req : Package M)
    (hreq : (b.decode mem readBuffer).value.1 = .package req)
    (enableCompressSize : BitVec 32) (rspMsg : M) (hregistered : b.protobuf.Registered rspMsg)
    (hpos : 1 ≤ (b.protobuf.getTypeName rspMsg).length)
    (hle : (b.protobuf.getTypeName rspMsg).length ≤ 1024)
    (hemitted : ((kPackageHeaderSize + (b.protobuf.getTypeName rspMsg).length +
      (b.wireContent enableCompressSize (replyPackage b req rspMsg) rspMsg).length : ℕ) : ℤ) ≤
        kMaxPackageLen)
    (hplain : ((kPackageHeaderSize + (b.protobuf.getTypeName rspMsg).length +
      b.protobuf.byteSizeLong rspMsg : ℕ) : ℤ) ≤ kMaxPackageLen)
    (mem₁ mem₂ : Memory) :
    ∃ sent out, b.replyMessage mem₁ enableCompressSize req rspMsg = .frame sent out ∧
      (out.readable.length : ℤ) ≤ kMaxPackageLen ∧
      ∀ (rest : Bytes) (buf : Buffer), buf.readable = out.readable ++ rest →
        ∃ rsp left, (b.decode mem₂ buf).value = (.package rsp, left) ∧ left.readable = rest ∧
          rsp.header.msgType = req.header.msgType ∧ rsp.header.msgId = req.header.msgId ∧
          rsp.header.isorder = req.header.isorder ∧ rsp.header.iszip = false ∧
          rsp.typeName = b.protobuf.getTypeName rspMsg ∧ rsp.msgPtr = some rspMsg ∧
          rsp.header.typeNameLen.toInt = (b.protobuf.getTypeName rspMsg).length ∧
          rsp.header.msgSize.toInt = b.protobuf.byteSizeLong rspMsg ∧
          rsp.header.pacSize.toInt = (kPackageHeaderSize +
            (b.protobuf.getTypeName rspMsg).length + b.protobuf.byteSizeLong rspMsg : ℕ) := by
  have h := b.sendable_reply hbus mem readBuffer req hreq enableCompressSize rspMsg hregistered
    hpos hle hemitted hplain
  obtain ⟨out, henc, hout⟩ := h.encode_eq mem₁ Buffer.empty
  rw [Buffer.readable_empty, List.nil_append] at hout
  refine ⟨_, out, henc, ?_, ?_⟩
  · rw [hout, WireFrame.bytes_length]
    exact hemitted
  · intro rest buf hbuf
    obtain ⟨left, hdec, hleft⟩ := h.decode_frame hparse hzlib mem₂ buf rest
      (by rw [hbuf, hout, WireFrame.seek_bytes])
    exact ⟨_, left, hdec, hleft, rfl, rfl, rfl, h.iszip_eq, rfl, rfl, h.received_lengths hplain⟩

/-- An ordered request as a client sends it. -/
def orderedPing : Package PingPong where
  header := {
    msgType := MsgType.REQREP.code, typeNameLen := 23, extInfo := 2, msgId := 9, pacSize := 43 }
  typeName := PingPong.typeName
  msgPtr := some PingPong.blank

def orderedPingBuffer : Buffer :=
  Buffer.empty.append (orderedPing.header.toWire ++ orderedPing.typeName)

theorem replyMessage_echo_ping :
    ∃ sent out, (PingPong.build false).replyMessage PingPong.memory (-1) orderedPing
        PingPong.blank = .frame sent out ∧
      ∀ (rest : Bytes) (buf : Buffer), buf.readable = out.readable ++ rest →
        ∃ rsp left, ((PingPong.build false).decode PingPong.memory buf).value =
            (.package rsp, left) ∧
          left.readable = rest ∧ rsp.header.msgId = 9 ∧ rsp.header.isorder = true := by
  obtain ⟨sent, out, henc, _, hdec⟩ := replyMessage_echo (PingPong.build false) rfl
    PingPong.parseUndoesSerialize PingPong.uncompressUndoesCompress PingPong.memory
    orderedPingBuffer orderedPing (by decide +kernel) (-1) PingPong.blank rfl (by decide)
    (by decide) (by decide) (by decide) PingPong.memory PingPong.memory
  refine ⟨sent, out, henc, ?_⟩
  intro rest buf hbuf
  obtain ⟨rsp, left, hvalue, hleft, _, hid, horder, _⟩ := hdec rest buf hbuf
  exact ⟨rsp, left, hvalue, hleft, hid, horder.trans (by decide)⟩

end Build

end AsioMsg
