import AsioMsg.ProtoEntries
import AsioMsg.ProtoWire

/-!
Parsing what was serialized. The bytes of a message, read onto another message
of its class, merge into it as MergeFrom does, so that the bytes of messages
one after the other are those of all of them merged. A message with a string
that is not UTF-8 is serialized, and no parser takes it.
-/

namespace AsioMsg

open WireFormat

variable {F : Type} {w : WireFormat F} {t : MessageType}

namespace MessageType

theorem field_number_lt (t : MessageType) (i : Fin t.fields.length) : (t.field i).number < 16 :=
  t.number_lt _ (List.get_mem ..)

theorem field_number_inj (t : MessageType) {i j : Fin t.fields.length}
    (h : (t.field i).number = (t.field j).number) : i = j := by
  have hfield : t.fields.get i = t.fields.get j :=
    List.inj_on_of_nodup_map t.nodup (List.get_mem ..) (List.get_mem ..) h
  exact List.nodup_iff_injective_get.mp (List.Nodup.of_map _ t.nodup) hfield

end MessageType

namespace Message

/-- All strings of the message pass VerifyUTF8. -/
def ValidUTF8 (w : WireFormat F) (msg : Message F t) : Prop :=
  ∀ i, (t.field i).type.ValidUTF8 w (msg.content i)

instance (w : WireFormat F) : DecidablePred (ValidUTF8 (t := t) w) :=
  fun msg => inferInstanceAs (Decidable (∀ i, (t.field i).type.ValidUTF8 w (msg.content i)))

/-- No unknown field of the message has a tag for which _InternalParse has a case. -/
def ForeignUnknown (w : WireFormat F) (msg : Message F t) : Prop :=
  ∀ field ∈ msg.unknownFields, parseCase (t := t) w (w.unknownTag field) = none

instance (w : WireFormat F) : DecidablePred (ForeignUnknown (t := t) w) := fun msg =>
  decidable_of_iff
    (∀ field ∈ msg.unknownFields, (parseCase (t := t) w (w.unknownTag field)).isNone)
    (forall₂_congr fun _ _ => Option.isNone_iff_eq_none)

theorem tagByte_toNat {number wireType : ℕ} (hnumber : number < 16) (htype : wireType < 8) :
    (tagByte number wireType).toNat = 8 * number + wireType := by
  rw [tagByte, BitVec.toNat_ofNat, Nat.mod_eq_of_lt (by omega)]

/-- The switch comes to the field of a tag. -/
theorem parseCase_of_begins {i : Fin t.fields.length} {bytes body : Bytes} {tag : Byte}
    {read : (t.field i).type.Value → Bytes → Option ((t.field i).type.Value × Bytes)}
    (h : (t.field i).type.Begins w (t.field i).number bytes tag body read) :
    parseCase w (tag.setWidth 32) = some ⟨i, read⟩ := by
  obtain ⟨wireType, htype, htag⟩ := h.tag_eq
  have hlt := t.field_number_lt i
  have hnat : tag.toNat = 8 * (t.field i).number + wireType := by
    rw [htag, tagByte_toNat hlt htype]
  have hwidth : (tag.setWidth 32).setWidth 8 = tag := by
    rw [BitVec.setWidth_setWidth_of_le _ (by omega), BitVec.setWidth_eq]
  have hnumber : (tag.setWidth 32 >>> 3).toNat = (t.field i).number := by
    rw [BitVec.toNat_ushiftRight, BitVec.toNat_setWidth, Nat.shiftRight_eq_div_pow, hnat,
      Nat.mod_eq_of_lt (by omega)]
    omega
  have hfind : (t.fields.findFinIdx? fun field =>
      field.number == (tag.setWidth 32 >>> 3).toNat) = some i := by
    rw [List.findFinIdx?_eq_some_iff, hnumber]
    refine ⟨by simp [MessageType.field], fun j hj heq => ?_⟩
    exact absurd (t.field_number_inj (eq_of_beq heq)) (Fin.ne_of_lt hj)
  rw [parseCase, hfind, Option.bind_some, hwidth, h.case_eq, Option.map_some]

/-- A parse of bytes that begin with a tag of a field. -/
theorem internalParse_begins (hw : w.Lawful) {i : Fin t.fields.length} {bytes body : Bytes}
    {tag : Byte} {read : (t.field i).type.Value → Bytes → Option ((t.field i).type.Value × Bytes)}
    (h : (t.field i).type.Begins w (t.field i).number bytes tag body read) (msg : Message F t)
    (rest : Bytes) :
    internalParse w msg (bytes ++ rest) = (read (msg.content i) (body ++ rest)).bind
      fun (value, ptr) => internalParse w (msg.set i value) ptr := by
  have hbyte : tag.toNat < 128 := by
    obtain ⟨wireType, htype, htag⟩ := h.tag_eq
    have hlt := t.field_number_lt i
    rw [htag, tagByte_toNat hlt htype]
    omega
  have hfield : parseField w msg (tag.setWidth 32) (body ++ rest) =
      (read (msg.content i) (body ++ rest)).map
        fun (value, ptr) => .next (msg.set i value) ptr := by
    rw [parseField, parseCase_of_begins h]
  rw [h.bytes_eq, List.cons_append,
    internalParse_of_readTag hw msg (hw.readTag_byte tag (body ++ rest) hbyte), hfield,
    Option.bind_map]
  rfl

theorem set_set (msg : Message F t) (i : Fin t.fields.length)
    (value value' : (t.field i).type.Value) :
    (msg.set i value).set i value' = msg.set i value' := by
  simp only [set, Function.update_idem]

@[simp] theorem content_set (msg : Message F t) (i : Fin t.fields.length)
    (value : (t.field i).type.Value) : (msg.set i value).content i = value :=
  Function.update_self ..

/-- The inner loop of a repeated string does what the rounds of the outer one do. -/
theorem internalParse_entry (hw : w.Lawful) {i : Fin t.fields.length} {bytes : Bytes}
    {effect : (t.field i).type.Value → (t.field i).type.Value}
    (h : (t.field i).type.Entry w (t.field i).number bytes effect) (msg : Message F t)
    (rest : Bytes) :
    internalParse w msg (bytes ++ rest) =
      internalParse w (msg.set i (effect (msg.content i))) rest := by
  obtain ⟨tag, body, read, hbegins, hread⟩ := h
  rw [internalParse_begins hw hbegins]
  rcases hread (msg.content i) rest with hvalue | ⟨ptr, rfl, hloop⟩
  · rw [hvalue, Option.bind_some]
  · have hnext : (t.field i).type.Begins w (t.field i).number (tag :: []) tag [] read :=
      ⟨rfl, hbegins.tag_eq, hbegins.case_eq⟩
    have houter := internalParse_begins hw hnext (msg.set i (effect (msg.content i))) ptr
    rw [List.singleton_append, List.nil_append, content_set] at houter
    rw [hloop, houter]
    simp only [set_set]

theorem internalParse_badEntry (hw : w.Lawful) {i : Fin t.fields.length} {bytes : Bytes}
    (h : (t.field i).type.BadEntry w (t.field i).number bytes) (msg : Message F t)
    (rest : Bytes) : internalParse w msg (bytes ++ rest) = none := by
  obtain ⟨tag, body, read, hbegins, hread⟩ := h
  rw [internalParse_begins hw hbegins, hread, Option.bind_none]

theorem internalParse_entries (hw : w.Lawful) {i : Fin t.fields.length} {bytes : Bytes}
    {effect : (t.field i).type.Value → (t.field i).type.Value}
    (h : (t.field i).type.Entries w (t.field i).number bytes effect) (msg : Message F t)
    (rest : Bytes) :
    internalParse w msg (bytes ++ rest) =
      internalParse w (msg.set i (effect (msg.content i))) rest := by
  induction h generalizing msg with
  | nil => simp only [id, set, Function.update_eq_self, List.nil_append]
  | cons hentry _ ih =>
    rw [List.append_assoc, internalParse_entry hw hentry, ih, content_set, set_set]
    rfl

/-- One field of `source`, merged into a message. -/
def mergeField (source msg : Message F t) (i : Fin t.fields.length) : Message F t :=
  msg.set i ((t.field i).type.mergeFrom (msg.content i) (source.content i))

theorem unknownFields_foldl_mergeField (source msg : Message F t)
    (is : List (Fin t.fields.length)) :
    (is.foldl (mergeField source) msg).unknownFields = msg.unknownFields := by
  induction is generalizing msg with
  | nil => rfl
  | cons i is ih => exact ih _

theorem content_foldl_mergeField (source msg : Message F t) (is : List (Fin t.fields.length))
    (hnodup : is.Nodup) (j : Fin t.fields.length) :
    (is.foldl (mergeField source) msg).content j =
      if j ∈ is then (t.field j).type.mergeFrom (msg.content j) (source.content j)
      else msg.content j := by
  induction is generalizing msg with
  | nil => rw [List.foldl_nil, if_neg List.not_mem_nil]
  | cons i is ih =>
    obtain ⟨hi, hrest⟩ := List.nodup_cons.mp hnodup
    rw [List.foldl_cons, ih _ hrest]
    by_cases hj : j = i
    · subst hj
      rw [if_neg hi, if_pos (List.mem_cons_self ..), mergeField, content_set]
    · have hother : (mergeField source msg i).content j = msg.content j :=
        Function.update_of_ne hj ..
      simp only [hother, List.mem_cons, hj, false_or]

/-- MergeFrom is the merge of all fields and of the unknown ones. -/
theorem mergeFrom_eq (msg source : Message F t) :
    msg.mergeFrom source =
      { (List.finRange t.fields.length).foldl (mergeField source) msg with
        unknownFields := msg.unknownFields ++ source.unknownFields } := by
  have hcontent : (msg.mergeFrom source).content =
      ((List.finRange t.fields.length).foldl (mergeField source) msg).content := by
    funext j
    rw [content_foldl_mergeField source msg _ (List.nodup_finRange _) j,
      if_pos (List.mem_finRange j)]
    rfl
  exact congrArg₂ Message.mk hcontent rfl

/-- Fields that were serialized are merged, up to the first invalid string. -/
theorem internalParse_fields (hw : w.Lawful) (source : Message F t)
    (hsize : ∀ i, (t.field i).type.byteSizeLong w (source.content i) ≤ w.maxSize)
    (is : List (Fin t.fields.length)) (msg : Message F t) (rest : Bytes) :
    internalParse w msg ((is.flatMap fun i =>
        (t.field i).type.internalSerialize w (t.field i).number (source.content i)) ++ rest) =
      if ∀ i ∈ is, (t.field i).type.ValidUTF8 w (source.content i) then
        internalParse w (is.foldl (mergeField source) msg) rest
      else none := by
  induction is generalizing msg with
  | nil =>
    rw [if_pos fun _ h => absurd h List.not_mem_nil]
    rfl
  | cons i is ih =>
    have hnumber := t.field_number_lt i
    rw [List.flatMap_cons, List.append_assoc]
    by_cases hutf8 : (t.field i).type.ValidUTF8 w (source.content i)
    · rw [internalParse_entries hw (FieldType.entries_internalSerialize hw hnumber _ _ (hsize i)
        hutf8), ih]
      simp only [List.forall_mem_cons, hutf8, true_and]
      rfl
    · obtain ⟨before, bad, after, effects, hbytes, hentries, hbad⟩ :=
        FieldType.badEntry_internalSerialize hw hnumber _ _ (hsize i) hutf8
      rw [hbytes, List.append_assoc, internalParse_entries hw hentries, List.append_assoc,
        internalParse_badEntry hw hbad, if_neg fun h => hutf8 (h i (List.mem_cons_self ..))]

theorem internalParse_unknownFields (hw : w.Lawful) (fields : List F)
    (hforeign : ∀ field ∈ fields, parseCase (t := t) w (w.unknownTag field) = none)
    (msg : Message F t) (rest : Bytes) :
    internalParse w msg (fields.flatMap w.serializeUnknownField ++ rest) =
      internalParse w { msg with unknownFields := msg.unknownFields ++ fields } rest := by
  induction fields generalizing msg with
  | nil => rw [List.append_nil, List.flatMap_nil, List.nil_append]
  | cons field fields ih =>
    have hcase := hforeign field (List.mem_cons_self ..)
    obtain ⟨ptr, htag, hparse⟩ := hw.serializeUnknownField field
      (fields.flatMap w.serializeUnknownField ++ rest)
    have hfield : parseField w msg (w.unknownTag field) ptr = some (.next (msg.addUnknown field)
        (fields.flatMap w.serializeUnknownField ++ rest)) := by
      rw [parseField, hcase]
      simp only [if_neg (hw.unknownTag_field field), hparse, Option.map_some]
    rw [List.flatMap_cons, List.append_assoc, internalParse_of_readTag hw msg htag, hfield,
      Option.bind_some, Parsed.rest, ih fun f hf => hforeign f (List.mem_cons_of_mem field hf)]
    simp only [addUnknown, List.append_assoc, List.singleton_append]

theorem field_byteSizeLong_le (msg : Message F t) (i : Fin t.fields.length) :
    (t.field i).type.byteSizeLong w (msg.content i) ≤ msg.byteSizeLong w := by
  have hmem : (t.field i).type.byteSizeLong w (msg.content i) ∈
      (List.finRange t.fields.length).map fun j =>
        (t.field j).type.byteSizeLong w (msg.content j) :=
    List.mem_map.mpr ⟨i, List.mem_finRange i, rfl⟩
  exact le_trans (List.le_sum_of_mem hmem) (Nat.le_add_right _ _)

/-- The bytes of a message merge it into the message that they are read onto. -/
theorem internalParse_internalSerialize (hw : w.Lawful) (msg source : Message F t)
    (hforeign : source.ForeignUnknown w) (hsize : source.byteSizeLong w ≤ w.maxSize)
    (rest : Bytes) :
    internalParse w msg (source.internalSerialize w ++ rest) =
      if source.ValidUTF8 w then internalParse w (msg.mergeFrom source) rest else none := by
  have hfields := internalParse_fields hw source
    (fun i => le_trans (field_byteSizeLong_le source i) hsize) (List.finRange t.fields.length) msg
    (source.unknownFields.flatMap w.serializeUnknownField ++ rest)
  rw [internalSerialize, List.append_assoc, hfields, internalParse_unknownFields hw _ hforeign,
    unknownFields_foldl_mergeField, mergeFrom_eq]
  exact if_congr ⟨fun h i => h i (List.mem_finRange i), fun h i _ => h i⟩ rfl rfl

theorem mergeFrom_clear (type : FieldType) (value : type.Value) :
    type.mergeFrom type.clear value = value := by
  cases type with
  | int32 | int64 | string =>
    simp only [FieldType.mergeFrom, FieldType.clear, ite_not]
    split <;> simp_all
  | repeatedInt32 | repeatedString => exact List.nil_append value

/-- CopyFrom. -/
theorem clear_mergeFrom (msg : Message F t) : clear.mergeFrom msg = msg := by
  have hcontent : (clear.mergeFrom msg).content = msg.content :=
    funext fun i => mergeFrom_clear _ (msg.content i)
  cases msg
  exact congrArg₂ Message.mk hcontent rfl

/-- The bytes of messages one after the other are those of all of them merged: they parse to what
MergeFrom makes of the messages in their order, if all strings are UTF-8, and are refused if not. -/
theorem internalParse_flatMap (hw : w.Lawful) (msgs : List (Message F t))
    (h : ∀ msg ∈ msgs, msg.ForeignUnknown w ∧ msg.byteSizeLong w ≤ w.maxSize) :
    internalParse w clear (msgs.flatMap (internalSerialize w)) =
      if ∀ msg ∈ msgs, msg.ValidUTF8 w then some (msgs.foldl mergeFrom clear, none) else none := by
  suffices hfrom : ∀ start : Message F t,
      internalParse w start (msgs.flatMap (internalSerialize w)) =
        if ∀ msg ∈ msgs, msg.ValidUTF8 w then some (msgs.foldl mergeFrom start, none) else none from
    hfrom clear
  induction msgs with
  | nil =>
    intro start
    rw [if_pos fun _ h => absurd h List.not_mem_nil]
    rfl
  | cons msg msgs ih =>
    intro start
    obtain ⟨hforeign, hsize⟩ := h msg (List.mem_cons_self ..)
    rw [List.flatMap_cons, internalParse_internalSerialize hw start msg hforeign hsize,
      ih (fun m hm => h m (List.mem_cons_of_mem msg hm))]
    by_cases hutf8 : msg.ValidUTF8 w
    · simp only [List.forall_mem_cons, hutf8, true_and, if_true, List.foldl_cons]
    · simp only [List.forall_mem_cons, hutf8, false_and, if_false]

def subscription (type : BitVec 32) (msgTypes : List (BitVec 32)) (typeNames : List Bytes) :
    Message ProtoWire.UnknownField ProtoBase.SubscribeReq :=
  ((clear.set ⟨0, by decide⟩ type).set ⟨1, by decide⟩ msgTypes).set ⟨2, by decide⟩ typeNames

/-- A subscription that is extended by a second one, and one with a name that is not UTF-8. -/
theorem internalParse_flatMap_subscriptions :
    internalParse ProtoWire.wire clear
        ([subscription 1 [1] [[0x41]], subscription 0 [1, 2] [[0x42], [0x43]]].flatMap
          (internalSerialize ProtoWire.wire)) =
      some (subscription 1 [1, 1, 2] [[0x41], [0x42], [0x43]], none) ∧
    (internalParse ProtoWire.wire clear
        ([subscription 1 [1] [[0x80]]].flatMap (internalSerialize ProtoWire.wire)) :
      Option (Message ProtoWire.UnknownField ProtoBase.SubscribeReq × Option (BitVec 32))) =
      none := by
  have hmerge : [subscription 1 [1] [[0x41]], subscription 0 [1, 2] [[0x42], [0x43]]].foldl
      mergeFrom clear = subscription 1 [1, 1, 2] [[0x41], [0x42], [0x43]] := by decide
  constructor
  · rw [internalParse_flatMap ProtoWire.lawful _ (by decide), if_pos (by decide), hmerge]
  · rw [internalParse_flatMap ProtoWire.lawful _ (by decide), if_neg (by decide)]

end Message

end AsioMsg
