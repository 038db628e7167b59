import AsioMsg.Lib.Channel
import AsioMsg.AsioClient
import AsioMsg.StreamReassembly
import AsioMsg.Session

/-!
Packages on their way over a connection. A frame written behind those that are
already under way is read behind them, wherever the reads cut the stream. Of a
message that fits, whatever header it is sent under makes such a frame.
-/

namespace AsioMsg

variable {M : Type}

namespace Build

/-- One more frame at the end of a stream. -/
theorem Stream.concat {b : Build M} {packages : List (Package M)} {bs : Bytes}
    (h : b.Stream NoFlagPair packages bs) {f : WireFrame} {package : Package M}
    (hdel : b.Delivers f package) :
    b.Stream NoFlagPair (packages ++ [package]) (bs ++ f.bytes) := by
  induction h with
  | done htail =>
    have hframe := Stream.frame htail hdel (.done NoFlagPair.nil)
    rwa [List.append_nil] at hframe
  | frame hclean hfirst _ ih =>
    rw [List.append_assoc, List.cons_append]
    exact .frame hclean hfirst ih

/-- The packages that a reader still has to deliver from its buffer and the wire. -/
abbrev Carrying (b : Build M) (mem : Memory) (packages : List (Package M)) (readBuffer : Buffer)
    (wire : Bytes) : Prop :=
  (b.reader mem).InTransit (b.Stream NoFlagPair) packages readBuffer wire

theorem carrying_empty (b : Build M) (mem : Memory) : b.Carrying mem [] Buffer.empty [] where
  carried := .done NoFlagPair.nil
  drained _ hothers := hothers.short (Nat.zero_le _)

section Carrying

variable {b : Build M} {mem : Memory} {packages : List (Package M)} {readBuffer : Buffer}
  {wire : Bytes}

theorem Carrying.writeFrame (h : b.Carrying mem packages readBuffer wire) {f : WireFrame}
    {package : Package M} (hdel : b.Delivers f package) :
    b.Carrying mem (packages ++ [package]) readBuffer (wire ++ f.bytes) :=
  h.write fun _ _ hstream => hstream.concat hdel

theorem Carrying.doRead (h : b.Carrying mem packages readBuffer wire) {chunk : Bytes}
    (hchunk : chunk <+: wire) :
    (b.doRead mem readBuffer chunk).failed = false ∧
      ∃ rest, packages = (b.doRead mem readBuffer chunk).items ++ rest ∧
        b.Carrying mem rest (b.doRead mem readBuffer chunk).state (wire.drop chunk.length) :=
  h.read (b.reader_carries mem NoFlagPair.isTail) hchunk

end Carrying

/-- A message of a registered type whose frame is within the limits of decode. -/
def Fits (b : Build M) (enableCompressSize : BitVec 32) (msg : M) : Prop :=
  b.passesThrough (b.protobuf.getTypeName msg) = false ∧ b.protobuf.Registered msg ∧
    1 ≤ (b.protobuf.getTypeName msg).length ∧ (b.protobuf.getTypeName msg).length ≤ 1024 ∧
    b.protobuf.byteSizeLong msg ≤ INT_MAX ∧
    ((kPackageHeaderSize + (b.protobuf.getTypeName msg).length +
      (b.compressContent enableCompressSize {} (b.protobuf.serialize msg)).2.length : ℕ) : ℤ) ≤
        kMaxPackageLen

instance (b : Build M) (enableCompressSize : BitVec 32) (msg : M) :
    Decidable (b.Fits enableCompressSize msg) :=
  inferInstanceAs (Decidable (_ ∧ (_ = true) ∧ _ ∧ _ ∧ _ ∧ _))

/-- What is compressed does not depend on the header. -/
theorem compressContent_content (b : Build M) (enableCompressSize : BitVec 32)
    (header other : PacHeader) (content : Bytes) :
    (b.compressContent enableCompressSize header content).2 =
      (b.compressContent enableCompressSize other content).2 := by
  unfold compressContent
  split
  · cases b.zlib.compress content <;> rfl
  · rfl

/-- The header of a package that has not been compressed. -/
def Plain (header : PacHeader) : Prop := header.flag = (flag0, flag1) ∧ header.iszip = false

instance : DecidablePred Plain := fun header =>
  inferInstanceAs (Decidable (header.flag = (flag0, flag1) ∧ header.iszip = false))

/-- A package with a plain header and a message that fits. -/
def Postable (b : Build M) (enableCompressSize : BitVec 32) (pac : Package M) : Prop :=
  Plain pac.header ∧ ∃ msg ∈ pac.msgPtr, pac.typeName = b.protobuf.getTypeName msg ∧
    b.Fits enableCompressSize msg

instance (b : Build M) (enableCompressSize : BitVec 32) (pac : Package M) :
    Decidable (b.Postable enableCompressSize pac) :=
  inferInstanceAs (Decidable (_ ∧ ∃ msg ∈ pac.msgPtr, _))

/-- The package that the other side makes of one that is sent. -/
def atPeer (b : Build M) (pac : Package M) : Package M :=
  (pac.msgPtr.map fun msg => b.received pac msg).getD pac

section Postable

variable {b : Build M} {enableCompressSize : BitVec 32} {pac : Package M}

theorem Postable.sendable (h : b.Postable enableCompressSize pac) :
    ∃ msg, pac.msgPtr = some msg ∧ Sendable b enableCompressSize pac msg := by
  obtain ⟨hplain, msg, hmsg, hname, hpasses, hregistered, hpos, hle, hsize, hframe⟩ := h
  exact ⟨msg, hmsg, {
    typeName_ne := by
      rw [hname]
      exact List.ne_nil_of_length_pos hpos
    plain := ⟨hname ▸ hpasses, hpasses⟩
    msgPtr_eq := hmsg
    registered := hregistered
    name_pos := hpos
    name_le := hle
    flag_eq := hplain.1
    iszip_eq := hplain.2
    byteSizeLong_le := hsize
    emitted_le := by
      rw [wireContent, compressContent_content b enableCompressSize pac.header {}]
      exact hframe }⟩

/-- Into an empty buffer encode writes a frame that is delivered as the package of the other
side. -/
theorem Postable.encode_eq (h : b.Postable enableCompressSize pac)
    (hparse : b.protobuf.ParseUndoesSerialize) (hzlib : b.zlib.UncompressUndoesCompress)
    (mem : Memory) :
    ∃ sent out f, b.encode mem enableCompressSize pac Buffer.empty = .frame sent out ∧
      out.readable = WireFrame.bytes f ∧ b.Delivers f (b.atPeer pac) := by
  obtain ⟨msg, hmsg, hsend⟩ := h.sendable
  obtain ⟨out, henc, hout⟩ := hsend.encode_eq mem Buffer.empty
  refine ⟨_, out, hsend.frame, henc, by simpa using hout, ?_⟩
  rw [atPeer, hmsg]
  exact fun mem buf rest hbuf => hsend.decode_frame hparse hzlib mem buf rest hbuf

/-- The header of the package that arrives is that of the package sent, but for the lengths. -/
theorem atPeer_header (b : Build M) (pac : Package M) :
    (b.atPeer pac).header.msgType = pac.header.msgType ∧
      (b.atPeer pac).header.msgId = pac.header.msgId ∧
      (b.atPeer pac).header.extInfo = pac.header.extInfo ∧
      (b.atPeer pac).header.flag = pac.header.flag := by
  unfold atPeer
  cases pac.msgPtr <;> exact ⟨rfl, rfl, rfl, rfl⟩

theorem Plain.atPeer (h : Plain pac.header) : Plain (b.atPeer pac).header := by
  obtain ⟨_, _, hext, hflag⟩ := b.atPeer_header pac
  refine ⟨hflag.trans h.1, ?_⟩
  rw [PacHeader.iszip, hext]
  exact h.2

/-- A message that fits can be sent under any plain header. -/
theorem Fits.postable {msg : M} (h : b.Fits enableCompressSize msg) {header : PacHeader}
    (hplain : Plain header) :
    b.Postable enableCompressSize
      { header := header, typeName := b.protobuf.getTypeName msg, msgPtr := some msg } :=
  ⟨hplain, msg, rfl, rfl, h⟩

end Postable

theorem plain_makePackage (b : Build M) (msgType : MsgType) (isOrder : Bool) (msgId : BitVec 32)
    (msg : M) : Plain (AsioClient.makePackage b msgType isOrder msgId msg).header := by
  refine ⟨rfl, ?_⟩
  cases isOrder <;> simp [AsioClient.makePackage, PacHeader.iszip, PacHeader.setIsorder]

end Build

end AsioMsg
