import AsioMsg.ProtoHelp

/-!
The message type ProtoSimple.PingPongReq of pb_simple.proto as an instance of
the protobuf parameter. Contents are short, so that their length is one byte
on the wire. The zlib instance fails on every call, as one that runs out of
memory does; with a negative threshold encode never calls it.
-/

namespace AsioMsg

/-- ProtoSimple.PingPongReq with a content below 128 bytes. -/
structure PingPong where
  content : Bytes
  short : content.length < 128
  deriving DecidableEq

namespace PingPong

/-- The string "ProtoSimple.PingPongReq". -/
def typeName : Bytes :=
  [0x50, 0x72, 0x6F, 0x74, 0x6F, 0x53, 0x69, 0x6D, 0x70, 0x6C, 0x65, 0x2E,
    0x50, 0x69, 0x6E, 0x67, 0x50, 0x6F, 0x6E, 0x67, 0x52, 0x65, 0x71]

def blank : PingPong := ⟨[], by decide⟩

/-- Field 1 with its length, left out where it has its default value. -/
def serialize (msg : PingPong) : Bytes :=
  if msg.content = [] then [] else 0x0A#8 :: BitVec.ofNat 8 msg.content.length :: msg.content

def parse (data : Bytes) : Option PingPong :=
  match data with
  | [] => some blank
  | tag :: len :: content =>
      if h : tag = 0x0A#8 ∧ content.length = len.toNat ∧ content.length < 128 then
        some ⟨content, h.2.2⟩
      else none
  | _ => none

theorem parse_serialize (msg : PingPong) : parse msg.serialize = some msg := by
  obtain ⟨content, hshort⟩ := msg
  unfold serialize
  by_cases h : content = []
  · subst h
    rfl
  · have hlen : content.length = (BitVec.ofNat 8 content.length).toNat := by
      rw [BitVec.toNat_ofNat, Nat.mod_eq_of_lt (by omega)]
    rw [if_neg h, parse, dif_pos ⟨rfl, hlen, hshort⟩]

def protobuf : Protobuf PingPong where
  getTypeName _ := typeName
  serialize := serialize
  newMessage name := if name = typeName then some blank else none
  parseFromArray _ data size := if size = data.length then parse data else none
  parseFromArray_negative _ data data' size h := by
    have hnone : ∀ content : Bytes, size ≠ content.length := fun content => by omega
    rw [if_neg (hnone data), if_neg (hnone data')]

theorem parseUndoesSerialize : protobuf.ParseUndoesSerialize := by
  intro msg proto _
  change (if ((serialize msg).length : ℤ) = (serialize msg).length then parse (serialize msg)
    else none) = some msg
  rw [if_pos rfl, parse_serialize]

def zlib : Zlib where
  compress _ := none
  uncompress _ _ := none
  uncompress_length _ _ _ h := nomatch h

theorem uncompressUndoesCompress : zlib.UncompressUndoesCompress :=
  fun _ _ h => nomatch h

def build (bus : Bool) : Build PingPong := ⟨protobuf, zlib, bus⟩

def memory : Memory := ⟨fun _ _ => 0, fun _ _ => 0⟩

/-- A request as postMessage builds it. -/
def request (msg : PingPong) (msgId : BitVec 32) : Package PingPong where
  header := { msgType := MsgType.REQREP.code, msgId := msgId, typeNameLen := 23 }
  typeName := typeName
  msgPtr := some msg

end PingPong

end AsioMsg
