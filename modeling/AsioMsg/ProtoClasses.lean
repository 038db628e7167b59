import AsioMsg.ProtoCanonical
import AsioMsg.ProtoHelp

/-!
The message library that the generated classes make together with the runtime.
An object of it is what the parser lets out: its strings are UTF-8. Messages of
one library are bounded in size, as those are that the two ends send.
-/

namespace AsioMsg

variable {F : Type} {w : WireFormat F}

namespace Message

variable {t : MessageType}

theorem byteSizeLong_clear (hw : w.Lawful) : (clear : Message F t).byteSizeLong w = 0 := by
  have hfield : ∀ type : FieldType, type.byteSizeLong w type.clear = 0 := by
    intro type
    cases type with
    | int32 | int64 | string | repeatedString => rfl
    | repeatedInt32 =>
      have hzero := (hw.int32ListSize_eq_zero []).mpr rfl
      simp [FieldType.byteSizeLong, FieldType.clear, hzero]
  have hsum : ((List.finRange t.fields.length).map fun i =>
      (t.field i).type.byteSizeLong w ((clear : Message F t).content i)).sum = 0 := by
    refine List.sum_eq_zero fun size hsize => ?_
    obtain ⟨i, _, rfl⟩ := List.mem_map.mp hsize
    exact hfield (t.field i).type
  rw [byteSizeLong, hsum]
  rfl

end Message

/-- An object of one of the classes, of no more than `limit` bytes. -/
structure GeneratedMessage (w : WireFormat F) (limit : ℕ) where
  type : MessageType
  registered : type ∈ messageTypes
  message : Message F type
  valid : message.Valid w
  byteSizeLong_le : message.byteSizeLong w ≤ limit

namespace GeneratedMessage

variable {limit : ℕ}

/-- A new object of a class. -/
def new (hw : w.Lawful) (type : MessageType) (registered : type ∈ messageTypes) :
    GeneratedMessage w limit :=
  ⟨type, registered, Message.clear, Message.valid_clear hw,
    le_of_eq_of_le (Message.byteSizeLong_clear hw) (Nat.zero_le _)⟩

/-- ParseFromArray: Clear, _InternalParse up to the size, and the end not inside a group. -/
def parseFromArray (msg : GeneratedMessage w limit) (data : Bytes) (size : ℤ) :
    Option (GeneratedMessage w limit) :=
  if 0 ≤ size ∧ size ≤ data.length then
    match Message.internalParse w (Message.clear : Message F msg.type) (data.take size.toNat) with
    | some (parsed, none) =>
        if h : parsed.Valid w ∧ parsed.byteSizeLong w ≤ limit then
          some ⟨msg.type, msg.registered, parsed, h.1, h.2⟩
        else none
    | _ => none
  else none

/-- The generated classes as the message library. -/
def protobuf (hw : w.Lawful) : Protobuf (GeneratedMessage w limit) where
  getTypeName msg := msg.type.typeName
  serialize msg := msg.message.internalSerialize w
  newMessage name := (messageTypes.attach.find? fun type => type.val.typeName == name).map
    fun type => new hw type.val type.property
  parseFromArray := parseFromArray
  parseFromArray_negative msg data data' size h := by
    have hnone : ¬ 0 ≤ size := Int.not_le.mpr h
    simp [parseFromArray, hnone]

theorem type_eq_of_typeName {msg : GeneratedMessage w limit} {type : MessageType}
    (htype : type ∈ messageTypes) (h : msg.type.typeName = type.typeName) : msg.type = type :=
  List.inj_on_of_nodup_map nodup_typeName msg.registered htype h

theorem type_newMessage (hw : w.Lawful) {msg proto : GeneratedMessage w limit}
    (h : (protobuf hw).newMessage ((protobuf hw).getTypeName msg) = some proto) :
    proto.type = msg.type := by
  obtain ⟨type, hfind, rfl⟩ := Option.map_eq_some_iff.mp h
  have hname := List.find?_some hfind
  exact (type_eq_of_typeName type.property (eq_of_beq hname).symm).symm

theorem registered_protobuf (hw : w.Lawful) (msg : GeneratedMessage w limit) :
    (protobuf hw).Registered msg := by
  change (Option.map _ (messageTypes.attach.find? _)).isSome = true
  rw [Option.isSome_map, List.find?_isSome]
  exact ⟨⟨msg.type, msg.registered⟩, List.mem_attach .., beq_self_eq_true _⟩

/-- What the other theorems assume of the message library holds of the generated classes. -/
theorem parseUndoesSerialize (hw : w.Lawful) (hlimit : limit ≤ w.maxSize) :
    (protobuf hw : Protobuf (GeneratedMessage w limit)).ParseUndoesSerialize := by
  rintro ⟨type, registered, msg, hvalid, hsize⟩ proto hproto
  obtain rfl := type_newMessage hw hproto
  have hparse := hvalid.internalParse_internalSerialize hw (le_trans hsize hlimit)
  change parseFromArray proto (msg.internalSerialize w) (msg.internalSerialize w).length = _
  rw [parseFromArray, if_pos ⟨Int.natCast_nonneg _, le_refl _⟩, Int.toNat_natCast,
    List.take_length, hparse]
  exact dif_pos ⟨hvalid, hsize⟩

end GeneratedMessage

end AsioMsg
