import AsioMsg.ReadLoop
import AsioMsg.RoundTrip

/-!
Stream reassembly. The frames of encode, with garbage around them that holds
no flag pair, form a stream; so the read loop of a session delivers the
packages in order and once, wherever the stream is cut into chunks.
-/

namespace AsioMsg

variable {M : Type}

namespace Build

/-- Chunk after chunk through doRead, from the empty buffer of a new connection. -/
def doReads (b : Build M) (mem : Memory) (chunks : List Bytes) : Delivery Buffer (Package M) :=
  (b.reader mem).feed Buffer.empty chunks

/-- A package to send and the threshold it is encoded under. -/
structure Outgoing (b : Build M) where
  enableCompressSize : BitVec 32
  package : Package M
  msg : M
  sendable : Sendable b enableCompressSize package msg

namespace Outgoing

variable {b : Build M}

/-- The bytes encode appends for the package. -/
def encoded (mem : Memory) (o : Outgoing b) : Bytes :=
  match b.encode mem o.enableCompressSize o.package Buffer.empty with
  | .frame _ out => out.readable
  | _ => []

def received (o : Outgoing b) : Package M := b.received o.package o.msg

theorem encoded_eq (o : Outgoing b) (mem : Memory) :
    o.encoded mem = o.sendable.frame.bytes := by
  obtain ⟨out, henc, hout⟩ := o.sendable.encode_eq mem Buffer.empty
  rw [encoded, henc]
  simpa using hout

theorem delivers (o : Outgoing b) (hparse : b.protobuf.ParseUndoesSerialize)
    (hzlib : b.zlib.UncompressUndoesCompress) :
    b.Delivers o.sendable.frame o.received :=
  fun mem buf rest hbuf => o.sendable.decode_frame hparse hzlib mem buf rest hbuf

end Outgoing

/-- Bytes without a flag pair in them. -/
abbrev Garbage := { garbage : Bytes // NoFlagPair garbage }

/-- Garbage and frames in turn. -/
def streamOf {b : Build M} (mem : Memory) (outs : List (Garbage × Outgoing b)) : Bytes :=
  outs.flatMap fun out => out.1 ++ out.2.encoded mem

/-- What a sender writes, with a tail, is a stream of the received packages. -/
theorem stream_streamOf (b : Build M) (hparse : b.protobuf.ParseUndoesSerialize)
    (hzlib : b.zlib.UncompressUndoesCompress)
    {T : Bytes → Prop} (mem : Memory) (outs : List (Garbage × Outgoing b)) (tail : Bytes)
    (htail : T tail) :
    b.Stream T (outs.map fun out => out.2.received) (streamOf mem outs ++ tail) := by
  induction outs with
  | nil => exact .done htail
  | cons out outs ih =>
    rw [streamOf, List.flatMap_cons, List.append_assoc, out.2.encoded_eq]
    exact .frame out.1.property (out.2.delivers hparse hzlib) ih

/-- The read loop delivers what was sent, however the stream is cut. -/
theorem doReads_streamOf (b : Build M) (hparse : b.protobuf.ParseUndoesSerialize)
    (hzlib : b.zlib.UncompressUndoesCompress)
    (mem mem' : Memory) (outs : List (Garbage × Outgoing b)) (tail : Garbage)
    (chunks : List Bytes) (hcut : chunks.flatten = streamOf mem outs ++ tail) :
    (b.doReads mem' chunks).failed = false ∧
      (b.doReads mem' chunks).items = outs.map fun out => out.2.received := by
  have hstream := stream_streamOf b hparse hzlib mem outs tail.1 tail.2
  rw [← hcut] at hstream
  obtain ⟨hfail, hitems, _⟩ := Reader.feed_carries (b.reader_carries mem' NoFlagPair.isTail)
    chunks _ Buffer.empty (fun others h => h.short (Nat.zero_le _)) hstream
  exact ⟨hfail, hitems⟩

def pingOutgoing (msgId : BitVec 32) : Outgoing (PingPong.build false) where
  enableCompressSize := -1
  package := PingPong.request PingPong.blank msgId
  msg := PingPong.blank
  sendable := sendable_request PingPong.blank msgId

/-- Two requests with a stray flag byte between them, one byte at a time. -/
theorem doReads_streamOf_ping :
    let outs := [(⟨[], by decide⟩, pingOutgoing 7), (⟨[flag0], by decide⟩, pingOutgoing 8)]
    let chunks := (streamOf PingPong.memory outs ++ [flag0]).map fun x => [x]
    ((PingPong.build false).doReads PingPong.memory chunks).failed = false ∧
      ((PingPong.build false).doReads PingPong.memory chunks).items =
        outs.map fun out => out.2.received :=
  doReads_streamOf (PingPong.build false) PingPong.parseUndoesSerialize
    PingPong.uncompressUndoesCompress PingPong.memory PingPong.memory _ ⟨[flag0], by decide⟩ _
    (by rw [← List.flatMap_def, List.flatMap_singleton'])

end Build

end AsioMsg
