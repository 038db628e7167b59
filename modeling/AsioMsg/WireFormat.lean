import AsioMsg.Lib.ByteOrder

/-!
What the generated message classes use of the protobuf runtime. A pointer into
the data is the bytes from there up to the limit, and none is a null pointer.
The functions are parameters; what is promised of them is the encoding: a tag
is a number and a type in a varint, lengths stand in front of what they count.
-/

namespace AsioMsg

/-- The functions of google::protobuf::internal. `F` is a field of an UnknownFieldSet. -/
structure WireFormat (F : Type) where
  readTag : Bytes → Option (BitVec 32 × Bytes)
  readVarint64 : Bytes → Option (BitVec 64 × Bytes)
  /-- Adds to the list that it is given. -/
  packedInt32Parser : List (BitVec 32) → Bytes → Option (List (BitVec 32) × Bytes)
  inlineGreedyStringParser : Bytes → Option (Bytes × Bytes)
  verifyUTF8 : Bytes → Bool
  unknownFieldParse : BitVec 32 → Bytes → Option (F × Bytes)
  writeInt32ToArray : ℕ → BitVec 32 → Bytes
  writeInt64ToArray : ℕ → BitVec 64 → Bytes
  writeInt32Packed : ℕ → List (BitVec 32) → Bytes
  writeString : ℕ → Bytes → Bytes
  serializeUnknownField : F → Bytes
  int32Size : BitVec 32 → ℕ
  int64Size : BitVec 64 → ℕ
  int32ListSize : List (BitVec 32) → ℕ
  stringSize : Bytes → ℕ
  unknownFieldSize : F → ℕ
  /-- Number and type of an unknown field. -/
  unknownTag : F → BitVec 32
  /-- A longer length is refused when it is read. -/
  maxSize : ℕ

/-- The one byte that is the tag of a field with a number below 16. -/
def tagByte (number wireType : ℕ) : Byte := BitVec.ofNat 8 (8 * number + wireType)

namespace WireFormat

variable {F : Type}

/-- `body` stands behind a tag, and `read` gives `value` for it whatever follows. -/
def Written {V : Type} (bytes : Bytes) (tag : Byte) (size : ℕ) (read : Bytes → Option (V × Bytes))
    (value : V) : Prop :=
  ∃ body, bytes = tag :: body ∧ body.length = size ∧
    ∀ rest, read (body ++ rest) = some (value, rest)

/-- What the wire format promises of the functions. -/
structure Lawful (w : WireFormat F) : Prop where
  readTag_length : ∀ {data tag ptr}, w.readTag data = some (tag, ptr) → ptr.length < data.length
  readVarint64_length : ∀ {data v ptr}, w.readVarint64 data = some (v, ptr) →
    ptr.length ≤ data.length
  packedInt32Parser_length : ∀ {list data list' ptr},
    w.packedInt32Parser list data = some (list', ptr) → ptr.length ≤ data.length
  inlineGreedyStringParser_length : ∀ {data str ptr},
    w.inlineGreedyStringParser data = some (str, ptr) → ptr.length ≤ data.length
  unknownFieldParse_length : ∀ {tag data field ptr},
    w.unknownFieldParse tag data = some (field, ptr) → ptr.length ≤ data.length
  readTag_byte : ∀ (tag : Byte) data, tag.toNat < 128 →
    w.readTag (tag :: data) = some (tag.setWidth 32, data)
  writeInt32ToArray : ∀ number value, number < 16 →
    Written (w.writeInt32ToArray number value) (tagByte number 0) (w.int32Size value)
      w.readVarint64 (value.signExtend 64)
  writeInt64ToArray : ∀ number value, number < 16 →
    Written (w.writeInt64ToArray number value) (tagByte number 0) (w.int64Size value)
      w.readVarint64 value
  writeString : ∀ number str, number < 16 → str.length ≤ w.maxSize →
    Written (w.writeString number str) (tagByte number 2) (w.stringSize str)
      w.inlineGreedyStringParser str
  writeInt32Packed : ∀ number list, number < 16 → list ≠ [] → w.int32ListSize list ≤ w.maxSize →
    ∀ start, Written (w.writeInt32Packed number list) (tagByte number 2)
      (w.int32Size (BitVec.ofNat 32 (w.int32ListSize list)) + w.int32ListSize list)
      (w.packedInt32Parser start) (start ++ list)
  verifyUTF8_nil : w.verifyUTF8 [] = true
  maxSize_lt : w.maxSize < 2 ^ 31
  int32ListSize_eq_zero : ∀ list, w.int32ListSize list = 0 ↔ list = []
  length_le_stringSize : ∀ str, str.length ≤ w.stringSize str
  /-- An unknown field is written with its tag and read back behind it. -/
  serializeUnknownField : ∀ field rest, ∃ ptr,
    w.readTag (w.serializeUnknownField field ++ rest) = some (w.unknownTag field, ptr) ∧
      w.unknownFieldParse (w.unknownTag field) ptr = some (field, rest)
  unknownFieldSize : ∀ field, (w.serializeUnknownField field).length = w.unknownFieldSize field
  unknownFieldParse_tag : ∀ {tag data field ptr},
    w.unknownFieldParse tag data = some (field, ptr) → w.unknownTag field = tag
  /-- No field has the tag that ends a group, and none the number 0 and the type 0. -/
  unknownTag_field : ∀ field, ¬ (w.unknownTag field &&& 7 = 4 ∨ w.unknownTag field = 0)

end WireFormat

end AsioMsg
