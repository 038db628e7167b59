import AsioMsg.BusCodec
import AsioMsg.PackageChannel

/-!
One hop over the bus. The bus holds a package of a client without its message,
as the bytes that came; whatever type it sets, another client makes of the
frame that goes out the package that was sent, with that type.
-/

namespace AsioMsg

variable {M : Type}

namespace WireFrame

/-- The bus writes the frame as it came. -/
theorem encode_passedPackage (f : WireFrame) (b : Build M) (mem : Memory)
    (enableCompressSize : BitVec 32) (hthrough : b.passesThrough f.typeName = true) :
    ∃ out, b.encode mem enableCompressSize f.passedPackage Buffer.empty =
      .frame f.passedPackage out ∧ out.readable = f.bytes := by
  have hlen : 0 ≤ (f.passedPackage (M := M)).header.typeNameLen.toInt := by
    change 0 ≤ f.header.typeNameLen.toInt
    rw [f.typeNameLen_eq]
    exact Int.natCast_nonneg _
  obtain ⟨out, henc, hout⟩ := b.encode_passed mem enableCompressSize f.passedPackage Buffer.empty
    hthrough (List.ne_nil_of_length_pos f.typeName_pos) hlen
  refine ⟨out, henc, ?_⟩
  have hname : stringBytes mem f.typeName f.header.typeNameLen.toNat = f.typeName := by
    rw [f.toNat_typeNameLen, stringBytes_self]
  rw [hout, Buffer.readable_empty, List.nil_append]
  change f.header.toWire ++ (stringBytes mem f.typeName f.header.typeNameLen.toNat ++ f.body) = _
  rw [hname]
  exact (List.append_assoc ..).symm

end WireFrame

namespace Build

/-- The package that the bus makes of one that is sent. -/
def atBus (b : Build M) (enableCompressSize : BitVec 32) (pac : Package M) : Package M :=
  if hasPrefixString pac.typeName protoBase then b.atPeer pac
  else (pac.msgPtr.map fun msg => {
    header := b.wireHeader enableCompressSize pac msg
    typeName := b.protobuf.getTypeName msg
    body := b.wireContent enableCompressSize pac msg }).getD pac

variable {b : Build M} {enableCompressSize : BitVec 32} {pac : Package M}

theorem passesThrough_withBus (b : Build M) (bus : Bool) (typeName : Bytes) :
    (b.withBus bus).passesThrough typeName = (bus && !hasPrefixString typeName protoBase) := rfl

/-- The codec of a build depends on MSGBUS only for names that one of them passes through. -/
theorem Postable.withBus {bus other : Bool}
    (h : (b.withBus bus).Postable enableCompressSize pac)
    (hname : (b.withBus other).passesThrough pac.typeName = false) :
    (b.withBus other).Postable enableCompressSize pac := by
  obtain ⟨hplain, msg, hmsg, htype, _, hfits⟩ := h
  exact ⟨hplain, msg, hmsg, htype, htype ▸ hname, hfits⟩

theorem wireHeader_setMsgType (b : Build M) (enableCompressSize : BitVec 32) (pac : Package M)
    (t : MsgType) (msg : M) :
    b.wireHeader enableCompressSize (pac.setMsgType t) msg =
        { b.wireHeader enableCompressSize pac msg with msgType := t.code } ∧
      b.wireContent enableCompressSize (pac.setMsgType t) msg =
        b.wireContent enableCompressSize pac msg := by
  have hcontent : b.wireContent enableCompressSize (pac.setMsgType t) msg =
      b.wireContent enableCompressSize pac msg :=
    compressContent_content b enableCompressSize _ _ _
  refine ⟨?_, hcontent⟩
  rw [wireHeader, wireHeader, hcontent]
  simp only [compressContent, Package.setMsgType]
  split
  · cases b.zlib.compress (b.protobuf.serialize msg) <;> rfl
  · rfl

theorem Postable.setMsgType (h : b.Postable enableCompressSize pac) (t : MsgType) :
    b.Postable enableCompressSize (pac.setMsgType t) := h

/-- The frame of a package is delivered to the bus, as the bytes that it is. -/
theorem Postable.arrives_bus (h : (b.withBus false).Postable enableCompressSize pac)
    (hparse : b.protobuf.ParseUndoesSerialize) (hzlib : b.zlib.UncompressUndoesCompress)
    (mem : Memory) :
    ∃ sent out f, (b.withBus false).encode mem enableCompressSize pac Buffer.empty =
        .frame sent out ∧ out.readable = WireFrame.bytes f ∧
      (b.withBus true).Delivers f (b.atBus enableCompressSize pac) := by
  obtain ⟨msg, hmsg, hsend⟩ := h.sendable
  obtain ⟨out, henc, hout⟩ := hsend.encode_eq mem Buffer.empty
  refine ⟨_, out, hsend.frame, henc, by simpa using hout, ?_⟩
  by_cases hbase : hasPrefixString pac.typeName protoBase = true
  · have hname : (b.withBus true).passesThrough pac.typeName = false := by
      simp [passesThrough_withBus, hbase]
    obtain ⟨other, hother, hsend'⟩ := (h.withBus hname).sendable
    obtain rfl : msg = other := Option.some.inj (hmsg.symm.trans hother)
    rw [atBus, if_pos hbase, atPeer, hmsg]
    exact fun mem buf rest hbuf => hsend'.decode_frame hparse hzlib mem buf rest hbuf
  · rw [atBus, if_neg hbase, hmsg]
    have htype : pac.typeName = b.protobuf.getTypeName msg := by
      obtain ⟨_, other, hother, htype, _⟩ := h
      rw [hmsg, Option.mem_some_iff] at hother
      exact hother ▸ htype
    have hthrough : (b.withBus true).passesThrough hsend.frame.typeName = true := by
      change (b.withBus true).passesThrough (b.protobuf.getTypeName msg) = true
      rw [← htype]
      simpa [passesThrough_withBus] using hbase
    intro mem buf rest hbuf
    obtain ⟨left, hpass, hleft⟩ :=
      hsend.frame.decodePass_passed (b.withBus true) mem rest buf hbuf hthrough
    exact ⟨left, by rw [decode_of_done _ mem buf left _ hpass]; rfl, hleft⟩

/-- What the bus sends on, with a type that it has set, is the package that was sent with that
type. -/
theorem Postable.relays (h : (b.withBus false).Postable enableCompressSize pac)
    (hbase : hasPrefixString pac.typeName protoBase = false)
    (hparse : b.protobuf.ParseUndoesSerialize) (hzlib : b.zlib.UncompressUndoesCompress)
    (t : MsgType) (mem : Memory) (busCompressSize : BitVec 32) :
    ∃ sent out f, (b.withBus true).encode mem busCompressSize
        ((b.atBus enableCompressSize pac).setMsgType t) Buffer.empty = .frame sent out ∧
      out.readable = WireFrame.bytes f ∧
      (b.withBus false).Delivers f (b.atPeer (pac.setMsgType t)) := by
  obtain ⟨msg, hmsg, hsend⟩ := (h.setMsgType t).sendable
  obtain ⟨hheader, hcontent⟩ := (b.withBus false).wireHeader_setMsgType enableCompressSize pac t msg
  have hmsg' : pac.msgPtr = some msg := hmsg
  have htype : pac.typeName = b.protobuf.getTypeName msg := by
    obtain ⟨_, other, hother, htype, _⟩ := h
    rw [hmsg', Option.mem_some_iff] at hother
    exact hother ▸ htype
  have hpassed : (b.atBus enableCompressSize pac).setMsgType t = hsend.frame.passedPackage := by
    rw [atBus, if_neg (by simp [hbase]), hmsg']
    simp only [WireFrame.passedPackage, Sendable.frame, hheader, hcontent]
    rfl
  have hthrough : (b.withBus true).passesThrough hsend.frame.typeName = true := by
    change (b.withBus true).passesThrough (b.protobuf.getTypeName msg) = true
    rw [← htype]
    simp [passesThrough_withBus, hbase]
  obtain ⟨out, henc, hout⟩ :=
    hsend.frame.encode_passedPackage (b.withBus true) mem busCompressSize hthrough
  refine ⟨_, out, hsend.frame, by rw [hpassed]; exact henc, hout, ?_⟩
  rw [atPeer, hmsg]
  exact fun mem buf rest hbuf => hsend.decode_frame hparse hzlib mem buf rest hbuf

/-- What the bus itself sends is read by the clients as it is. -/
theorem Postable.arrives_client (h : (b.withBus true).Postable enableCompressSize pac)
    (hparse : b.protobuf.ParseUndoesSerialize) (hzlib : b.zlib.UncompressUndoesCompress)
    (mem : Memory) :
    ∃ sent out f, (b.withBus true).encode mem enableCompressSize pac Buffer.empty =
        .frame sent out ∧ out.readable = WireFrame.bytes f ∧
      (b.withBus false).Delivers f (b.atPeer pac) := by
  obtain ⟨msg, hmsg, hsend⟩ := h.sendable
  obtain ⟨out, henc, hout⟩ := hsend.encode_eq mem Buffer.empty
  have hclient : (b.withBus false).Postable enableCompressSize pac := h.withBus rfl
  obtain ⟨other, hother, hsend'⟩ := hclient.sendable
  obtain rfl : msg = other := Option.some.inj (hmsg.symm.trans hother)
  refine ⟨_, out, hsend.frame, henc, by simpa using hout, ?_⟩
  rw [atPeer, hmsg]
  exact fun mem buf rest hbuf => hsend'.decode_frame hparse hzlib mem buf rest hbuf

/-- Whether the bus holds the message of a package tells the names of its own. -/
theorem Postable.atBus_msgPtr (h : (b.withBus false).Postable enableCompressSize pac) :
    (b.atBus enableCompressSize pac).msgPtr.isSome = hasPrefixString pac.typeName protoBase ∧
      (b.atBus enableCompressSize pac).header.msgType = pac.header.msgType := by
  obtain ⟨_, msg, hmsg, _⟩ := h
  rw [Option.mem_def] at hmsg
  by_cases hbase : hasPrefixString pac.typeName protoBase = true
  · rw [atBus, if_pos hbase, hbase]
    refine ⟨?_, (b.atPeer_header pac).1⟩
    rw [atPeer, hmsg]
    rfl
  · rw [atBus, if_neg hbase, hmsg]
    refine ⟨(Bool.eq_false_of_not_eq_true hbase).symm, ?_⟩
    change (b.wireHeader enableCompressSize pac msg).msgType = _
    rw [wireHeader]
    rcases compressContent_cases b enableCompressSize pac.header (b.protobuf.serialize msg) with
      ⟨out, _, heq⟩ | heq <;> rw [heq] <;> rfl

theorem Postable.atPeer_typeName (h : (b.withBus false).Postable enableCompressSize pac) :
    (b.atPeer pac).typeName = pac.typeName := by
  obtain ⟨_, msg, hmsg, htype, _⟩ := h
  rw [Option.mem_def] at hmsg
  rw [atPeer, hmsg, htype]
  rfl

theorem Postable.atBus_typeName (h : (b.withBus false).Postable enableCompressSize pac) :
    (b.atBus enableCompressSize pac).typeName = pac.typeName := by
  unfold atBus
  split
  · exact h.atPeer_typeName
  · obtain ⟨_, msg, hmsg, htype, _⟩ := h
    rw [Option.mem_def] at hmsg
    rw [hmsg, htype]
    rfl

end Build

end AsioMsg
