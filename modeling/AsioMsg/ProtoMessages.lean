import AsioMsg.WireFormat
import Mathlib.Algebra.Ring.Nat
import Mathlib.Data.Fintype.Pi
import Mathlib.Data.List.FinRange

/-!
The message classes of pb_base.pb.cc and pb_simple.pb.cc. Their functions are
generated from the fields of the message; a class is given here by its fields,
and its functions are those of the generator for that list. Which function of
the runtime reads and writes a field depends on the type of the field alone.
-/

namespace AsioMsg

/-- The types of fields that the messages have. -/
inductive FieldType
  | int32
  | int64
  | string
  | repeatedInt32
  | repeatedString
  deriving DecidableEq

@[reducible] def FieldType.Value : FieldType → Type
  | .int32 => BitVec 32
  | .int64 => BitVec 64
  | .string => Bytes
  | .repeatedInt32 => List (BitVec 32)
  | .repeatedString => List Bytes

namespace FieldType

instance : (type : FieldType) → DecidableEq type.Value
  | .int32 => inferInstanceAs (DecidableEq (BitVec 32))
  | .int64 => inferInstanceAs (DecidableEq (BitVec 64))
  | .string => inferInstanceAs (DecidableEq Bytes)
  | .repeatedInt32 => inferInstanceAs (DecidableEq (List (BitVec 32)))
  | .repeatedString => inferInstanceAs (DecidableEq (List Bytes))

/-- The part of Clear that sets the field. -/
def clear : (type : FieldType) → type.Value
  | .int32 => 0
  | .int64 => 0
  | .string => []
  | .repeatedInt32 => []
  | .repeatedString => []

/-- The part of MergeFrom: a field without presence is taken over unless it has its default. -/
def mergeFrom : (type : FieldType) → type.Value → type.Value → type.Value
  | .int32, value, source => if source ≠ 0 then source else value
  | .int64, value, source => if source ≠ 0 then source else value
  | .string, value, source => if source ≠ [] then source else value
  | .repeatedInt32, value, source => value ++ source
  | .repeatedString, value, source => value ++ source

variable {F : Type} (w : WireFormat F)

/-- The part of _InternalSerialize. An invalid string is logged and written. -/
def internalSerialize (number : ℕ) : (type : FieldType) → type.Value → Bytes
  | .int32, value => if value ≠ 0 then w.writeInt32ToArray number value else []
  | .int64, value => if value ≠ 0 then w.writeInt64ToArray number value else []
  | .string, value => if value ≠ [] then w.writeString number value else []
  | .repeatedInt32, value =>
      -- the size is kept in an int between ByteSizeLong and here
      if 0 < (BitVec.ofNat 32 (w.int32ListSize value)).toInt then w.writeInt32Packed number value
      else []
  | .repeatedString, value => value.flatMap (w.writeString number)

/-- The part of ByteSizeLong. -/
def byteSizeLong : (type : FieldType) → type.Value → ℕ
  | .int32, value => if value ≠ 0 then 1 + w.int32Size value else 0
  | .int64, value => if value ≠ 0 then 1 + w.int64Size value else 0
  | .string, value => if value ≠ [] then 1 + w.stringSize value else 0
  | .repeatedInt32, value =>
      let dataSize := w.int32ListSize value
      (if 0 < dataSize then 1 + w.int32Size (BitVec.ofNat 32 dataSize) else 0) + dataSize
  | .repeatedString, value => value.length + (value.map w.stringSize).sum

/-- A string up to its CHK_ of VerifyUTF8. -/
def parseString (ptr : Bytes) : Option (Bytes × Bytes) :=
  (w.inlineGreedyStringParser ptr).bind fun (str, ptr) =>
    if w.verifyUTF8 str then some (str, ptr) else none

/-- The loop of a repeated string, which goes on without readTag while the next byte is `tag`. -/
def parseStrings (tag : Byte) : ℕ → List Bytes → Bytes → Option (List Bytes × Bytes)
  | 0, _, _ => none
  | fuel + 1, list, ptr =>
      (parseString w ptr).bind fun (str, ptr) =>
        match ptr with
        | [] => some (list ++ [str], [])
        | b :: rest =>
            if b = tag then parseStrings tag fuel (list ++ [str]) rest
            else some (list ++ [str], ptr)

/-- The case of a field in the switch of _InternalParse: what reads the value behind `tag`, and
`none` where the case goes to handle_unusual. -/
def parseCase (number : ℕ) (tag : Byte) :
    (type : FieldType) → Option (type.Value → Bytes → Option (type.Value × Bytes))
  | .int32 =>
      if tag = tagByte number 0 then
        some fun _ ptr => (w.readVarint64 ptr).map fun (v, ptr) => (v.setWidth 32, ptr)
      else none
  | .int64 =>
      if tag = tagByte number 0 then some fun _ ptr => w.readVarint64 ptr else none
  | .string =>
      if tag = tagByte number 2 then some fun _ ptr => parseString w ptr else none
  | .repeatedInt32 =>
      if tag = tagByte number 2 then some w.packedInt32Parser
      else if tag = tagByte number 0 then
        some fun list ptr =>
          (w.readVarint64 ptr).map fun (v, ptr) => (list ++ [v.setWidth 32], ptr)
      else none
  | .repeatedString =>
      if tag = tagByte number 2 then
        some fun list ptr => parseStrings w tag (ptr.length + 1) list ptr
      else none

end FieldType

structure Field where
  number : ℕ
  type : FieldType
  deriving DecidableEq

/-- A message of a .proto file. -/
structure MessageType where
  typeName : Bytes
  fields : List Field
  number_lt : ∀ field ∈ fields, field.number < 16
  nodup : (fields.map Field.number).Nodup

namespace MessageType

def field (t : MessageType) (i : Fin t.fields.length) : Field := t.fields.get i

/-- The values of the fields. -/
abbrev Content (t : MessageType) : Type :=
  ∀ i : Fin t.fields.length, (t.field i).type.Value

end MessageType

def nameBytes (name : String) : Bytes := name.toList.map fun c => BitVec.ofNat 8 c.toNat

namespace ProtoBase

/-- type, msgTypeList and typeNameList. -/
def SubscribeReq : MessageType where
  typeName := nameBytes "ProtoBase.SubscribeReq"
  fields := [⟨1, .int32⟩, ⟨2, .repeatedInt32⟩, ⟨3, .repeatedString⟩]
  number_lt := by decide
  nodup := by decide

/-- errorcode. -/
def SubscribeRsp : MessageType where
  typeName := nameBytes "ProtoBase.SubscribeRsp"
  fields := [⟨1, .int32⟩]
  number_lt := by decide
  nodup := by decide

/-- cpu and memory. -/
def HeartbeatReq : MessageType where
  typeName := nameBytes "ProtoBase.HeartbeatReq"
  fields := [⟨1, .int32⟩, ⟨2, .int32⟩]
  number_lt := by decide
  nodup := by decide

/-- serverTime. -/
def HeartbeatRsp : MessageType where
  typeName := nameBytes "ProtoBase.HeartbeatRsp"
  fields := [⟨1, .int64⟩]
  number_lt := by decide
  nodup := by decide

/-- code and msg. -/
def CommonRsp : MessageType where
  typeName := nameBytes "ProtoBase.CommonRsp"
  fields := [⟨1, .int32⟩, ⟨2, .string⟩]
  number_lt := by decide
  nodup := by decide

end ProtoBase

namespace ProtoSimple

/-- content. -/
def PingPongReq : MessageType where
  typeName := nameBytes "ProtoSimple.PingPongReq"
  fields := [⟨1, .string⟩]
  number_lt := by decide
  nodup := by decide

/-- content. -/
def PingPongRsp : MessageType where
  typeName := nameBytes "ProtoSimple.PingPongRsp"
  fields := [⟨1, .string⟩]
  number_lt := by decide
  nodup := by decide

def DaytimeReq : MessageType where
  typeName := nameBytes "ProtoSimple.DaytimeReq"
  fields := []
  number_lt := by decide
  nodup := by decide

/-- time. -/
def DaytimeRsp : MessageType where
  typeName := nameBytes "ProtoSimple.DaytimeRsp"
  fields := [⟨1, .string⟩]
  number_lt := by decide
  nodup := by decide

/-- content. -/
def DiscardReq : MessageType where
  typeName := nameBytes "ProtoSimple.DiscardReq"
  fields := [⟨1, .string⟩]
  number_lt := by decide
  nodup := by decide

/-- size and total. -/
def DiscardRsp : MessageType where
  typeName := nameBytes "ProtoSimple.DiscardRsp"
  fields := [⟨1, .int32⟩, ⟨2, .int32⟩]
  number_lt := by decide
  nodup := by decide

/-- hello. -/
def ServerInfoPub : MessageType where
  typeName := nameBytes "ProtoSimple.ServerInfoPub"
  fields := [⟨1, .string⟩]
  number_lt := by decide
  nodup := by decide

def ServerInfoReq : MessageType where
  typeName := nameBytes "ProtoSimple.ServerInfoReq"
  fields := []
  number_lt := by decide
  nodup := by decide

/-- time, coreCount, memorySize and diskSize. -/
def ServerInfoRsp : MessageType where
  typeName := nameBytes "ProtoSimple.ServerInfoRsp"
  fields := [⟨1, .string⟩, ⟨2, .int32⟩, ⟨3, .string⟩, ⟨4, .string⟩]
  number_lt := by decide
  nodup := by decide

end ProtoSimple

open ProtoBase ProtoSimple in
/-- The classes that the generated pool and factory know. -/
def messageTypes : List MessageType :=
  [ProtoBase.SubscribeReq, SubscribeRsp, HeartbeatReq, HeartbeatRsp, CommonRsp, PingPongReq,
    PingPongRsp, DaytimeReq, DaytimeRsp, DiscardReq, DiscardRsp, ServerInfoPub, ServerInfoReq,
    ServerInfoRsp]

theorem nodup_typeName : (messageTypes.map MessageType.typeName).Nodup := by decide

/-- An object of a message class with the unknown fields of its metadata. -/
structure Message (F : Type) (t : MessageType) where
  content : t.Content
  unknownFields : List F

namespace Message

variable {F : Type} {t : MessageType}

instance [DecidableEq F] : DecidableEq (Message F t) := fun a b =>
  decidable_of_iff (a.content = b.content ∧ a.unknownFields = b.unknownFields)
    ⟨fun ⟨h, h'⟩ => by cases a; cases b; exact congrArg₂ Message.mk h h', fun h => h ▸ ⟨rfl, rfl⟩⟩

/-- Clear, and a new object. -/
def clear : Message F t := ⟨fun i => (t.field i).type.clear, []⟩

def set (msg : Message F t) (i : Fin t.fields.length) (value : (t.field i).type.Value) :
    Message F t :=
  { msg with content := Function.update msg.content i value }

def addUnknown (msg : Message F t) (field : F) : Message F t :=
  { msg with unknownFields := msg.unknownFields ++ [field] }

/-- MergeFrom, which copies a message onto a cleared one in CopyFrom. -/
def mergeFrom (msg source : Message F t) : Message F t where
  content i := (t.field i).type.mergeFrom (msg.content i) (source.content i)
  unknownFields := msg.unknownFields ++ source.unknownFields

variable (w : WireFormat F)

/-- _InternalSerialize, with the fields in the order of their numbers. -/
def internalSerialize (msg : Message F t) : Bytes :=
  ((List.finRange t.fields.length).flatMap fun i =>
    (t.field i).type.internalSerialize w (t.field i).number (msg.content i)) ++
  msg.unknownFields.flatMap w.serializeUnknownField

/-- ByteSizeLong. The source adds the repeated fields, then the strings, then the numbers. -/
def byteSizeLong (msg : Message F t) : ℕ :=
  ((List.finRange t.fields.length).map fun i =>
    (t.field i).type.byteSizeLong w (msg.content i)).sum +
  (msg.unknownFields.map w.unknownFieldSize).sum

/-- The case that the switch of _InternalParse has for a tag, with the field it is for. -/
def parseCase (tag : BitVec 32) : Option (Σ i : Fin t.fields.length,
    (t.field i).type.Value → Bytes → Option ((t.field i).type.Value × Bytes)) :=
  (t.fields.findFinIdx? fun field => field.number == (tag >>> 3).toNat).bind fun i =>
    ((t.field i).type.parseCase w (t.field i).number (tag.setWidth 8)).map (⟨i, ·⟩)

/-- One round of the loop of _InternalParse: on at a pointer, or out at the end of a group. -/
inductive Parsed (F : Type) (t : MessageType)
  | next (msg : Message F t) (ptr : Bytes)
  | lastTag (msg : Message F t) (tag : BitVec 32)

/-- The switch of _InternalParse, behind readTag. -/
def parseField (msg : Message F t) (tag : BitVec 32) (ptr : Bytes) : Option (Parsed F t) :=
  match parseCase w tag with
  | some ⟨i, read⟩ => (read (msg.content i) ptr).map fun (value, ptr) => .next (msg.set i value) ptr
  | none =>
      if tag &&& 7 = 4 ∨ tag = 0 then some (.lastTag msg tag)
      else (w.unknownFieldParse tag ptr).map fun (field, ptr) => .next (msg.addUnknown field) ptr

/-- The loop of _InternalParse: the message with the tag given to SetLastTag, if any. -/
def parseLoop : ℕ → Message F t → Bytes → Option (Message F t × Option (BitVec 32))
  | _, msg, [] => some (msg, none)
  | 0, _, _ :: _ => none
  | fuel + 1, msg, b :: data =>
      (w.readTag (b :: data)).bind fun (tag, ptr) =>
        (parseField w msg tag ptr).bind fun
          | .next msg ptr => parseLoop fuel msg ptr
          | .lastTag msg tag => some (msg, some tag)

/-- _InternalParse up to the limit. -/
def internalParse (msg : Message F t) (data : Bytes) :
    Option (Message F t × Option (BitVec 32)) :=
  parseLoop w data.length msg data

end Message

end AsioMsg
