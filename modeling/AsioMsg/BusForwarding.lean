import AsioMsg.FrameConfinement
import AsioMsg.MsgBus

/-!
Frames on their way through the bus. For a name it passes through, decode keeps
header, name and body as they came and encode writes them as they are, so that
the frame leaves the bus with nothing changed but the type that the bus has set.
-/

namespace AsioMsg

open ByteOrder

variable {M : Type}

/-- The frame with another message type, in network byte order. -/
def retyped (f : Bytes) (t : BitVec 16) : Bytes :=
  (f.set 2 (BitVec.ofNat 8 (t.toNat / 256))).set 3 (BitVec.ofNat 8 t.toNat)

def Package.withMsgType (pac : Package M) (t : BitVec 16) : Package M :=
  { pac with header := { pac.header with msgType := t } }

theorem toWire_msgType (header : PacHeader) (t : BitVec 16) (rest : Bytes) :
    PacHeader.toWire { header with msgType := t } ++ rest = retyped (header.toWire ++ rest) t := by
  have hswap : wordBytes 2 (byteSwap 2 t) =
      [BitVec.ofNat 8 (t.toNat / 256), BitVec.ofNat 8 t.toNat] :=
    wordBytes_byteSwap 2 t (by decide)
  simp only [PacHeader.toWire, PacHeader.netOrder, PacHeader.toMemory, hswap, retyped]
  rfl

namespace Build

/-- encode in the pass-through branch: the header as it is, as many characters of the name as it
announces, and the body. -/
theorem encode_passed (b : Build M) (mem : Memory) (enableCompressSize : BitVec 32)
    (package : Package M) (buffer : Buffer)
    (hthrough : b.passesThrough package.typeName = true) (hname : package.typeName ≠ [])
    (hlen : 0 ≤ package.header.typeNameLen.toInt) :
    ∃ out, b.encode mem enableCompressSize package buffer = .frame package out ∧
      out.readable = buffer.readable ++ (package.header.toWire ++
        (stringBytes mem package.typeName package.header.typeNameLen.toNat ++ package.body)) := by
  refine ⟨((bufferAppendHeader buffer package.header).append
    (stringBytes mem package.typeName package.header.typeNameLen.toNat)).append package.body,
    ?_, ?_⟩
  · rw [encode, if_neg hname, if_pos hthrough, appendString, if_neg (Int.not_lt.mpr hlen)]
  · simp only [Buffer.readable_append, bufferAppendHeader, PacHeader.toWire, List.append_assoc]

/-- The bus decodes exactly the frame, and encodes it with the type that it has set. -/
theorem forward_frame (b : Build M) (hbus : b.MSGBUS = true) {f : Bytes} (hf : SingleFrame f)
    (hbase : hasPrefixString (frameName f) protoBase = false) (r : Bytes) (mem : Memory)
    (buf : Buffer) (hbuf : buf.readable = f ++ r) :
    ∃ pac left, (b.decode mem buf).value = (.package pac, left) ∧ left.readable = r ∧
      ∀ (t : BitVec 16) (mem' : Memory) (enableCompressSize : BitVec 32) (buffer : Buffer),
        ∃ sent out, b.encode mem' enableCompressSize (pac.withMsgType t) buffer =
          .frame sent out ∧ out.readable = buffer.readable ++ retyped f t := by
  have hthrough : b.passesThrough (frameName f) = true := by simp [passesThrough, hbus, hbase]
  have hseek : seek buf.readable = hf.wire.bytes ++ r := by
    rw [hbuf, ← hf.wire.seek_bytes, hf.wire_bytes]
  obtain ⟨left, hpass, hleft⟩ := hf.wire.decodePass_passed b mem r buf hseek hthrough
  refine ⟨hf.wire.passedPackage, left, by rw [decode_of_done b mem buf left _ hpass], hleft, ?_⟩
  intro t mem' enableCompressSize buffer
  obtain ⟨out, henc, hout⟩ := b.encode_passed mem' enableCompressSize
    ((hf.wire.passedPackage (M := M)).withMsgType t) buffer hthrough
    (List.ne_nil_of_length_pos hf.wire.typeName_pos)
    (by
      change 0 ≤ hf.wire.header.typeNameLen.toInt
      rw [hf.wire.typeNameLen_eq]
      exact Int.natCast_nonneg _)
  refine ⟨_, out, henc, ?_⟩
  have hname : stringBytes mem' hf.wire.typeName hf.wire.header.typeNameLen.toNat =
      hf.wire.typeName := by
    rw [hf.wire.toNat_typeNameLen, stringBytes, List.take_left]
  have hframe : f = hf.wire.header.toWire ++ (hf.wire.typeName ++ hf.wire.body) := by
    rw [← List.append_assoc]
    exact hf.wire_bytes.symm
  rw [hout]
  change buffer.readable ++ (PacHeader.toWire { hf.wire.header with msgType := t } ++
    (stringBytes mem' hf.wire.typeName hf.wire.header.typeNameLen.toNat ++ hf.wire.body)) = _
  rw [hname, toWire_msgType, ← hframe]

theorem forward_frame_ping :
    ∃ pac left, ((PingPong.build true).decode PingPong.memory
        (Buffer.empty.append (pingFrame 7 ++ [0x60]))).value = (.package pac, left) ∧
      left.readable = [0x60] ∧ ∃ sent out, (PingPong.build true).encode PingPong.memory (-1)
        (pac.setMsgType .DELIVER) Buffer.empty = .frame sent out ∧
        out.readable = retyped (pingFrame 7) MsgType.DELIVER.code := by
  obtain ⟨pac, left, hvalue, hleft, hforward⟩ := forward_frame (PingPong.build true) rfl
    (f := pingFrame 7) ⟨by decide, by decide, by decide, by decide, by decide, by decide⟩
    (by decide) [0x60] PingPong.memory _ (Buffer.readable_empty_append _)
  exact ⟨pac, left, hvalue, hleft, hforward MsgType.DELIVER.code PingPong.memory (-1) Buffer.empty⟩

end Build

end AsioMsg
