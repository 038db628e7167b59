import AsioMsg.ProtoMerge

/-!
What _InternalParse accepts. The data may have the fields in any order and more
than once, packed lists in pieces, longer varints than needed and fields that
the class does not know; the message that comes out can be serialized again, in
as many bytes as ByteSizeLong says, and is what these bytes parse to.
-/

namespace AsioMsg

open WireFormat

variable {F : Type} {w : WireFormat F}

namespace FieldType

theorem validUTF8_clear (hw : w.Lawful) (type : FieldType) : type.ValidUTF8 w type.clear := by
  cases type with
  | int32 | int64 | repeatedInt32 => trivial
  | string => exact hw.verifyUTF8_nil
  | repeatedString => exact fun _ h => absurd h List.not_mem_nil

theorem parseString_verified {ptr ptr' str : Bytes} (h : parseString w ptr = some (str, ptr')) :
    w.verifyUTF8 str = true := by
  obtain ⟨⟨str', rest⟩, _, hcheck⟩ := Option.bind_eq_some_iff.mp h
  obtain ⟨hutf8, heq⟩ := Option.ite_none_right_eq_some.mp hcheck
  obtain ⟨rfl, -⟩ := Prod.mk.inj (Option.some.inj heq)
  exact hutf8

theorem parseStrings_verified {tag : Byte} {fuel : ℕ} {list list' : List Bytes} {ptr ptr' : Bytes}
    (hlist : ∀ str ∈ list, w.verifyUTF8 str = true)
    (h : parseStrings w tag fuel list ptr = some (list', ptr')) :
    ∀ str ∈ list', w.verifyUTF8 str = true := by
  induction fuel generalizing list ptr with
  | zero => exact absurd h (by simp [parseStrings])
  | succ fuel ih =>
    rw [parseStrings_succ] at h
    obtain ⟨⟨str, rest⟩, hread, h⟩ := Option.bind_eq_some_iff.mp h
    have hadd : ∀ s ∈ list ++ [str], w.verifyUTF8 s = true := by
      intro s hs
      rcases List.mem_append.mp hs with hs | hs
      · exact hlist s hs
      · exact List.mem_singleton.mp hs ▸ parseString_verified hread
    cases rest with
    | nil =>
      obtain ⟨rfl, -⟩ := Prod.mk.inj (Option.some.inj h)
      exact hadd
    | cons b rest =>
      by_cases htag : b = tag
      · simp only [if_pos htag] at h
        exact ih hadd h
      · simp only [if_neg htag] at h
        obtain ⟨rfl, -⟩ := Prod.mk.inj (Option.some.inj h)
        exact hadd

/-- The case of a field lets no invalid string in. -/
theorem validUTF8_of_parseCase {number : ℕ} {tag : Byte} {type : FieldType}
    {read : type.Value → Bytes → Option (type.Value × Bytes)}
    (hcase : type.parseCase w number tag = some read) {value value' : type.Value}
    {ptr ptr' : Bytes} (hvalue : type.ValidUTF8 w value)
    (h : read value ptr = some (value', ptr')) : type.ValidUTF8 w value' := by
  cases type with
  | int32 | int64 | repeatedInt32 => trivial
  | string =>
    obtain ⟨_, heq⟩ := Option.ite_none_right_eq_some.mp hcase
    obtain rfl := Option.some.inj heq
    exact parseString_verified h
  | repeatedString =>
    obtain ⟨_, heq⟩ := Option.ite_none_right_eq_some.mp hcase
    obtain rfl := Option.some.inj heq
    exact parseStrings_verified hvalue h

end FieldType

namespace Message

variable {t : MessageType}

/-- The strings are UTF-8, and what is kept as unknown is unknown. -/
structure Valid (w : WireFormat F) (msg : Message F t) : Prop where
  utf8 : msg.ValidUTF8 w
  foreign : msg.ForeignUnknown w

instance (w : WireFormat F) : DecidablePred (Valid (t := t) w) := fun msg =>
  decidable_of_iff (msg.ValidUTF8 w ∧ msg.ForeignUnknown w)
    ⟨fun ⟨h, h'⟩ => ⟨h, h'⟩, fun h => ⟨h.utf8, h.foreign⟩⟩

theorem valid_clear (hw : w.Lawful) : (clear : Message F t).Valid w where
  utf8 _ := FieldType.validUTF8_clear hw _
  foreign _ h := absurd h List.not_mem_nil

theorem Valid.set {msg : Message F t} (h : msg.Valid w) {i : Fin t.fields.length}
    {value : (t.field i).type.Value} (hvalue : (t.field i).type.ValidUTF8 w value) :
    (msg.set i value).Valid w where
  utf8 j := by
    by_cases hj : j = i
    · subst hj
      rw [content_set]
      exact hvalue
    · have hother : (msg.set i value).content j = msg.content j := Function.update_of_ne hj ..
      rw [hother]
      exact h.utf8 j
  foreign := h.foreign

theorem Valid.addUnknown {msg : Message F t} (h : msg.Valid w) {field : F}
    (hfield : parseCase (t := t) w (w.unknownTag field) = none) :
    (msg.addUnknown field).Valid w where
  utf8 := h.utf8
  foreign f hf := by
    rcases List.mem_append.mp hf with hf | hf
    · exact h.foreign f hf
    · exact List.mem_singleton.mp hf ▸ hfield

/-- The message behind a round of the loop. -/
def Parsed.message : Parsed F t → Message F t
  | .next msg _ => msg
  | .lastTag msg _ => msg

theorem Valid.parseField (hw : w.Lawful) {msg : Message F t} (h : msg.Valid w) {tag : BitVec 32}
    {ptr : Bytes} {parsed : Parsed F t} (hparse : Message.parseField w msg tag ptr = some parsed) :
    parsed.message.Valid w := by
  rw [Message.parseField] at hparse
  split at hparse
  · next i read hcase =>
    obtain ⟨⟨value, rest⟩, hread, rfl⟩ := Option.map_eq_some_iff.mp hparse
    obtain ⟨j, _, hfield⟩ := Option.bind_eq_some_iff.mp hcase
    obtain ⟨read', hcase', heq⟩ := Option.map_eq_some_iff.mp hfield
    obtain ⟨rfl, hread'⟩ := Sigma.mk.inj heq
    obtain rfl := eq_of_heq hread'
    exact h.set (FieldType.validUTF8_of_parseCase hcase' (h.utf8 j) hread)
  · next hcase =>
    split at hparse
    · obtain rfl := Option.some.inj hparse
      exact h
    · obtain ⟨⟨field, rest⟩, hread, rfl⟩ := Option.map_eq_some_iff.mp hparse
      exact h.addUnknown (by rw [hw.unknownFieldParse_tag hread, hcase])

theorem Valid.parseLoop (hw : w.Lawful) {fuel : ℕ} {msg msg' : Message F t} (h : msg.Valid w)
    {data : Bytes} {lastTag : Option (BitVec 32)}
    (hparse : Message.parseLoop w fuel msg data = some (msg', lastTag)) : msg'.Valid w := by
  induction fuel generalizing msg data with
  | zero =>
    cases data with
    | nil =>
      rw [Message.parseLoop] at hparse
      obtain ⟨rfl, -⟩ := Prod.mk.inj (Option.some.inj hparse)
      exact h
    | cons => exact absurd hparse (by simp [Message.parseLoop])
  | succ fuel ih =>
    cases data with
    | nil =>
      rw [Message.parseLoop] at hparse
      obtain ⟨rfl, -⟩ := Prod.mk.inj (Option.some.inj hparse)
      exact h
    | cons b data =>
      rw [Message.parseLoop] at hparse
      obtain ⟨⟨tag, ptr⟩, _, hparse⟩ := Option.bind_eq_some_iff.mp hparse
      obtain ⟨parsed, hfield, hparse⟩ := Option.bind_eq_some_iff.mp hparse
      have hvalid := h.parseField hw hfield
      cases parsed with
      | next msg ptr => exact ih hvalid hparse
      | lastTag msg tag =>
        obtain ⟨rfl, -⟩ := Prod.mk.inj (Option.some.inj hparse)
        exact hvalid

/-- ByteSizeLong says how many bytes _InternalSerialize writes. -/
theorem length_internalSerialize (hw : w.Lawful) (msg : Message F t)
    (hsize : msg.byteSizeLong w ≤ w.maxSize) :
    (msg.internalSerialize w).length = msg.byteSizeLong w := by
  have hfields : ((List.finRange t.fields.length).flatMap fun i =>
      (t.field i).type.internalSerialize w (t.field i).number (msg.content i)).length =
      ((List.finRange t.fields.length).map fun i =>
        (t.field i).type.byteSizeLong w (msg.content i)).sum := by
    rw [List.length_flatMap]
    refine congrArg List.sum (List.map_congr_left fun i _ => ?_)
    exact FieldType.length_internalSerialize hw (t.field_number_lt i) _ _
      (le_trans (field_byteSizeLong_le msg i) hsize)
  have hunknown : (msg.unknownFields.flatMap w.serializeUnknownField).length =
      (msg.unknownFields.map w.unknownFieldSize).sum := by
    rw [List.length_flatMap]
    exact congrArg List.sum (List.map_congr_left fun field _ => hw.unknownFieldSize field)
  rw [internalSerialize, List.length_append, hfields, hunknown, byteSizeLong]

/-- Serializing a valid message and parsing it gives the message. -/
theorem Valid.internalParse_internalSerialize (hw : w.Lawful) {msg : Message F t}
    (h : msg.Valid w) (hsize : msg.byteSizeLong w ≤ w.maxSize) :
    internalParse w clear (msg.internalSerialize w) = some (msg, none) := by
  have hparse := Message.internalParse_internalSerialize hw clear msg h.foreign hsize []
  rwa [List.append_nil, if_pos h.utf8, clear_mergeFrom, internalParse_nil] at hparse

/-- Whatever bytes are accepted, the message that comes out is written in as many bytes as
ByteSizeLong says, and these parse to it again: a second round trip changes nothing. -/
theorem internalParse_stable (hw : w.Lawful) {data : Bytes} {msg : Message F t}
    {lastTag : Option (BitVec 32)} (h : internalParse w clear data = some (msg, lastTag))
    (hsize : msg.byteSizeLong w ≤ w.maxSize) :
    msg.Valid w ∧ (msg.internalSerialize w).length = msg.byteSizeLong w ∧
      internalParse w clear (msg.internalSerialize w) = some (msg, none) := by
  have hvalid := (valid_clear hw).parseLoop hw h
  exact ⟨hvalid, length_internalSerialize hw msg hsize,
    hvalid.internalParse_internalSerialize hw hsize⟩

/-- Entries of the list of types apart and packed, a longer varint, a field that is not known and
an empty name behind the others. -/
def looseSubscription : Bytes :=
  [0x10, 1, 0x1A, 1, 0x41, 0x12, 2, 5, 6, 0x08, 0x81, 0, 0x20, 7, 0x1A, 0]

theorem internalParse_stable_subscription :
    ∃ msg : Message ProtoWire.UnknownField ProtoBase.SubscribeReq,
      internalParse ProtoWire.wire clear looseSubscription = some (msg, none) ∧
      msg.content = (subscription 1 [1, 5, 6] [[0x41], []]).content ∧
      msg.unknownFields.length = 1 ∧
      internalParse ProtoWire.wire clear (msg.internalSerialize ProtoWire.wire) =
        some (msg, none) := by
  have hparse : ((internalParse ProtoWire.wire clear looseSubscription).map fun parsed =>
      (parsed.1.content, parsed.1.unknownFields.length, parsed.1.byteSizeLong ProtoWire.wire,
        parsed.2)) = some ((subscription 1 [1, 5, 6] [[0x41], []]).content, 1, 14, none) := by
    decide
  obtain ⟨⟨msg, lastTag⟩, hmsg, heq⟩ := Option.map_eq_some_iff.mp hparse
  obtain ⟨hcontent, hunknown, hsize, rfl⟩ := by simpa only [Prod.mk.injEq] using heq
  exact ⟨msg, hmsg, hcontent, hunknown,
    (internalParse_stable ProtoWire.lawful hmsg (by rw [hsize]; decide)).2.2⟩

end Message

end AsioMsg
