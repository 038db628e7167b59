import AsioMsg.Lib.Varint
import AsioMsg.WireFormat
import Mathlib.Algebra.Order.Group.Nat
import Mathlib.Algebra.Ring.Nat

/-!
The wire format written out, as an instance of the runtime that the generated
classes use. A tag or a length is a varint of at most five bytes, a number one
of at most ten, of which 64 bits are kept. Of the unknown fields it has those
that are not groups.
-/

namespace AsioMsg

namespace ProtoWire

/-- INT_MAX without the bytes that the runtime keeps behind its buffers. -/
def maxSize : ℕ := 2 ^ 31 - 1 - 16

def readTag (data : Bytes) : Option (BitVec 32 × Bytes) :=
  (Varint.decode 5 data).map fun (n, ptr) => (BitVec.ofNat 32 n, ptr)

def readVarint64 (data : Bytes) : Option (BitVec 64 × Bytes) :=
  (Varint.decode 10 data).map fun (n, ptr) => (BitVec.ofNat 64 n, ptr)

/-- The next bytes, if there are as many. -/
def readBytes (size : ℕ) (data : Bytes) : Option (Bytes × Bytes) :=
  if size ≤ data.length then some (data.take size, data.drop size) else none

/-- A length with the bytes that it counts. -/
def readSized (data : Bytes) : Option (Bytes × Bytes) :=
  (Varint.decode 5 data).bind fun (size, ptr) =>
    if size ≤ maxSize then readBytes size ptr else none

def packedInt32Parser (list : List (BitVec 32)) (data : Bytes) :
    Option (List (BitVec 32) × Bytes) :=
  (readSized data).bind fun (bytes, ptr) =>
    (Varint.decodeAll 10 bytes.length bytes).map fun ns => (list ++ ns.map (BitVec.ofNat 32), ptr)

/-- A byte that goes on with a character. -/
def isTrail (b : Byte) : Bool := decide (0x80 ≤ b.toNat ∧ b.toNat ≤ 0xBF)

/-- A second byte that its first byte allows. -/
def isSecond (a b : Byte) : Bool :=
  isTrail b && decide ((a = 0xE0 → 0xA0 ≤ b.toNat) ∧ (a = 0xED → b.toNat ≤ 0x9F) ∧
    (a = 0xF0 → 0x90 ≤ b.toNat) ∧ (a = 0xF4 → b.toNat ≤ 0x8F))

def verifyUTF8 : Bytes → Bool
  | [] => true
  | a :: rest =>
      if a.toNat < 0x80 then verifyUTF8 rest
      else
        match rest with
        | [] => false
        | b :: rest =>
            if 0xC2 ≤ a.toNat ∧ a.toNat ≤ 0xDF then isTrail b && verifyUTF8 rest
            else
              match rest with
              | [] => false
              | c :: rest =>
                  if 0xE0 ≤ a.toNat ∧ a.toNat ≤ 0xEF then
                    isSecond a b && isTrail c && verifyUTF8 rest
                  else
                    match rest with
                    | [] => false
                    | d :: rest =>
                        decide (0xF0 ≤ a.toNat ∧ a.toNat ≤ 0xF4) && isSecond a b && isTrail c &&
                          isTrail d && verifyUTF8 rest

/-- What stands behind the tag of an unknown field. -/
inductive UnknownValue
  | varint (value : BitVec 64)
  | fixed (bytes : Bytes)
  | sized (bytes : Bytes)
  deriving DecidableEq

/-- The type in the tag is that of the value. -/
def UnknownValue.HasType : UnknownValue → ℕ → Prop
  | .varint _, wireType => wireType = 0
  | .fixed bytes, wireType =>
      (wireType = 1 ∧ bytes.length = 8) ∨ (wireType = 5 ∧ bytes.length = 4)
  | .sized bytes, wireType => wireType = 2 ∧ bytes.length ≤ maxSize

instance : (value : UnknownValue) → (wireType : ℕ) → Decidable (value.HasType wireType)
  | .varint _, wireType => inferInstanceAs (Decidable (wireType = 0))
  | .fixed bytes, wireType => inferInstanceAs (Decidable
      ((wireType = 1 ∧ bytes.length = 8) ∨ (wireType = 5 ∧ bytes.length = 4)))
  | .sized bytes, wireType =>
      inferInstanceAs (Decidable (wireType = 2 ∧ bytes.length ≤ maxSize))

structure UnknownField where
  tag : BitVec 32
  value : UnknownValue
  number_pos : 8 ≤ tag.toNat
  hasType : value.HasType (tag.toNat % 8)
  deriving DecidableEq

def readValue (wireType : ℕ) (ptr : Bytes) : Option (UnknownValue × Bytes) :=
  match wireType with
  | 0 => (readVarint64 ptr).map fun (value, ptr) => (.varint value, ptr)
  | 1 => (readBytes 8 ptr).map fun (bytes, ptr) => (.fixed bytes, ptr)
  | 2 => (readSized ptr).map fun (bytes, ptr) => (.sized bytes, ptr)
  | 5 => (readBytes 4 ptr).map fun (bytes, ptr) => (.fixed bytes, ptr)
  | _ => none

def unknownFieldParse (tag : BitVec 32) (ptr : Bytes) : Option (UnknownField × Bytes) :=
  (readValue (tag.toNat % 8) ptr).bind fun (value, ptr) =>
    if h : 8 ≤ tag.toNat ∧ value.HasType (tag.toNat % 8) then some (⟨tag, value, h.1, h.2⟩, ptr)
    else none

def writeTag (tag : ℕ) : Bytes := Varint.encode 5 tag

def writeVarint64 (value : BitVec 64) : Bytes := Varint.encode 10 value.toNat

def writeSized (bytes : Bytes) : Bytes := Varint.encode 5 bytes.length ++ bytes

def writeValue : UnknownValue → Bytes
  | .varint value => writeVarint64 value
  | .fixed bytes => bytes
  | .sized bytes => writeSized bytes

/-- A negative number is written as one of 64 bits. -/
def writeInt32 (value : BitVec 32) : Bytes := writeVarint64 (value.signExtend 64)

def wire : WireFormat UnknownField where
  readTag := readTag
  readVarint64 := readVarint64
  packedInt32Parser := packedInt32Parser
  inlineGreedyStringParser := readSized
  verifyUTF8 := verifyUTF8
  unknownFieldParse := unknownFieldParse
  writeInt32ToArray number value := writeTag (8 * number) ++ writeInt32 value
  writeInt64ToArray number value := writeTag (8 * number) ++ writeVarint64 value
  writeInt32Packed number list := writeTag (8 * number + 2) ++ writeSized (list.flatMap writeInt32)
  writeString number str := writeTag (8 * number + 2) ++ writeSized str
  serializeUnknownField field := writeTag field.tag.toNat ++ writeValue field.value
  int32Size value := (writeInt32 value).length
  int64Size value := (writeVarint64 value).length
  int32ListSize list := (list.map fun value => (writeInt32 value).length).sum
  stringSize str := (writeSized str).length
  unknownFieldSize field := (writeTag field.tag.toNat ++ writeValue field.value).length
  unknownTag := UnknownField.tag
  maxSize := maxSize

theorem writeTag_eq {number wireType : ℕ} (hnumber : number < 16) (htype : wireType < 8) :
    writeTag (8 * number + wireType) = [tagByte number wireType] := by
  rw [writeTag, Varint.encode, if_pos (by omega)]
  rfl

theorem readTag_writeTag (tag : BitVec 32) (rest : Bytes) :
    readTag (writeTag tag.toNat ++ rest) = some (tag, rest) := by
  have hlt : tag.toNat < 128 ^ 5 := by omega
  rw [readTag, writeTag, Varint.decode_encode_append 4 _ _ hlt]
  simp only [Option.map_some, BitVec.ofNat_toNat, BitVec.setWidth_eq]

theorem readVarint64_writeVarint64 (value : BitVec 64) (rest : Bytes) :
    readVarint64 (writeVarint64 value ++ rest) = some (value, rest) := by
  have hlt : value.toNat < 128 ^ 10 := by omega
  rw [readVarint64, writeVarint64, Varint.decode_encode_append 9 _ _ hlt]
  simp only [Option.map_some, BitVec.ofNat_toNat, BitVec.setWidth_eq]

theorem readBytes_append (bytes rest : Bytes) :
    readBytes bytes.length (bytes ++ rest) = some (bytes, rest) := by
  rw [readBytes, if_pos (by simp), List.take_left, List.drop_left]

theorem readSized_writeSized {bytes : Bytes} (hsize : bytes.length ≤ maxSize) (rest : Bytes) :
    readSized (writeSized bytes ++ rest) = some (bytes, rest) := by
  have hlt : bytes.length < 128 ^ 5 := by
    unfold maxSize at hsize
    omega
  rw [readSized, writeSized, List.append_assoc, Varint.decode_encode_append 4 _ _ hlt,
    Option.bind_some]
  simp only [if_pos hsize, readBytes_append]

theorem readBytes_length {size : ℕ} {data bytes ptr : Bytes}
    (h : readBytes size data = some (bytes, ptr)) : ptr.length ≤ data.length := by
  obtain ⟨_, heq⟩ := Option.ite_none_right_eq_some.mp h
  obtain ⟨-, rfl⟩ := Prod.mk.inj (Option.some.inj heq)
  rw [List.length_drop]
  exact Nat.sub_le ..

theorem readVarint64_length {data ptr : Bytes} {value : BitVec 64}
    (h : readVarint64 data = some (value, ptr)) : ptr.length ≤ data.length := by
  obtain ⟨⟨n, rest⟩, hread, heq⟩ := Option.map_eq_some_iff.mp h
  obtain ⟨-, rfl⟩ := Prod.mk.inj heq
  exact (Varint.decode_length hread).le

theorem readSized_length {data bytes ptr : Bytes} (h : readSized data = some (bytes, ptr)) :
    ptr.length ≤ data.length := by
  obtain ⟨⟨size, rest⟩, hsize, h⟩ := Option.bind_eq_some_iff.mp h
  obtain ⟨_, h⟩ := Option.ite_none_right_eq_some.mp h
  exact le_trans (readBytes_length h) (Varint.decode_length hsize).le

theorem readValue_length {wireType : ℕ} {data ptr : Bytes} {value : UnknownValue}
    (h : readValue wireType data = some (value, ptr)) : ptr.length ≤ data.length := by
  unfold readValue at h
  split at h
  · obtain ⟨⟨v, rest⟩, hread, heq⟩ := Option.map_eq_some_iff.mp h
    obtain ⟨-, rfl⟩ := Prod.mk.inj heq
    exact readVarint64_length hread
  · obtain ⟨⟨bytes, rest⟩, hread, heq⟩ := Option.map_eq_some_iff.mp h
    obtain ⟨-, rfl⟩ := Prod.mk.inj heq
    exact readBytes_length hread
  · obtain ⟨⟨bytes, rest⟩, hread, heq⟩ := Option.map_eq_some_iff.mp h
    obtain ⟨-, rfl⟩ := Prod.mk.inj heq
    exact readSized_length hread
  · obtain ⟨⟨bytes, rest⟩, hread, heq⟩ := Option.map_eq_some_iff.mp h
    obtain ⟨-, rfl⟩ := Prod.mk.inj heq
    exact readBytes_length hread
  · exact absurd h (by simp)

/-- A value is read back by the type of its tag. -/
theorem readValue_writeValue {value : UnknownValue} {wireType : ℕ} (h : value.HasType wireType)
    (rest : Bytes) : readValue wireType (writeValue value ++ rest) = some (value, rest) := by
  cases value with
  | varint value =>
    obtain rfl := h
    rw [readValue, writeValue, readVarint64_writeVarint64, Option.map_some]
  | fixed bytes =>
    rcases h with ⟨rfl, hlength⟩ | ⟨rfl, hlength⟩
    · rw [readValue, writeValue, ← hlength, readBytes_append, Option.map_some]
    · rw [readValue, writeValue, ← hlength, readBytes_append, Option.map_some]
  | sized bytes =>
    obtain ⟨rfl, hsize⟩ := h
    rw [readValue, writeValue, readSized_writeSized hsize, Option.map_some]

theorem length_flatMap_writeInt32 (list : List (BitVec 32)) :
    (list.flatMap writeInt32).length = wire.int32ListSize list := List.length_flatMap

theorem decodeAll_writeInt32 (list : List (BitVec 32)) :
    Varint.decodeAll 10 (list.flatMap writeInt32).length (list.flatMap writeInt32) =
      some (list.map fun value => (value.signExtend 64).toNat) := by
  have hmap : list.flatMap writeInt32 =
      (list.map fun value => (value.signExtend 64).toNat).flatMap (Varint.encode 10) := by
    rw [List.flatMap_map]
    rfl
  rw [hmap]
  refine Varint.decodeAll_flatMap 9 _ (fun n hn => ?_) _ (le_refl _)
  obtain ⟨value, _, rfl⟩ := List.mem_map.mp hn
  have hlt := (value.signExtend 64).isLt
  omega

/-- The size of a list fits the varint in front of it. -/
theorem length_writeInt32_size {size : ℕ} (hsize : size ≤ maxSize) :
    (writeInt32 (BitVec.ofNat 32 size)).length = (Varint.encode 5 size).length := by
  unfold maxSize at hsize
  have hvalue : ((BitVec.ofNat 32 size).signExtend 64).toNat = size := by
    have hmsb : (BitVec.ofNat 32 size).msb = false := by
      rw [BitVec.msb_eq_false_iff_two_mul_lt, BitVec.toNat_ofNat]
      omega
    rw [BitVec.signExtend_eq_setWidth_of_msb_false hmsb, BitVec.toNat_setWidth, BitVec.toNat_ofNat]
    omega
  rw [writeInt32, writeVarint64, hvalue, Varint.encode_eq_of_lt (k := 4) (m := 9) (by omega)
    (by omega)]

theorem packedInt32Parser_written (list start : List (BitVec 32))
    (hsize : wire.int32ListSize list ≤ maxSize) (rest : Bytes) :
    packedInt32Parser start (writeSized (list.flatMap writeInt32) ++ rest) =
      some (start ++ list, rest) := by
  have hlength : (list.flatMap writeInt32).length ≤ maxSize := by
    rw [length_flatMap_writeInt32]
    exact hsize
  have hvalues : (list.map fun value => (value.signExtend 64).toNat).map (BitVec.ofNat 32) =
      list := by
    rw [List.map_map]
    refine (List.map_congr_left fun value _ => ?_).trans (List.map_id list)
    apply BitVec.eq_of_toNat_eq
    rw [Function.comp_apply, BitVec.toNat_ofNat, BitVec.toNat_signExtend]
    split <;> simp <;> omega
  rw [packedInt32Parser, readSized_writeSized hlength, Option.bind_some]
  simp only [decodeAll_writeInt32, Option.map_some, hvalues]

theorem unknownFieldParse_serialize (field : UnknownField) (rest : Bytes) :
    unknownFieldParse field.tag (writeValue field.value ++ rest) = some (field, rest) := by
  rw [unknownFieldParse, readValue_writeValue field.hasType, Option.bind_some]
  simp only [dif_pos (And.intro field.number_pos field.hasType)]

theorem lawful : wire.Lawful where
  readTag_length h := by
    obtain ⟨⟨n, rest⟩, hread, heq⟩ := Option.map_eq_some_iff.mp h
    obtain ⟨-, rfl⟩ := Prod.mk.inj heq
    exact Varint.decode_length hread
  readVarint64_length := readVarint64_length
  packedInt32Parser_length h := by
    obtain ⟨⟨bytes, rest⟩, hread, h⟩ := Option.bind_eq_some_iff.mp h
    obtain ⟨ns, _, heq⟩ := Option.map_eq_some_iff.mp h
    obtain ⟨-, rfl⟩ := Prod.mk.inj heq
    exact readSized_length hread
  inlineGreedyStringParser_length := readSized_length
  unknownFieldParse_length h := by
    obtain ⟨⟨value, rest⟩, hread, h⟩ := Option.bind_eq_some_iff.mp h
    obtain ⟨_, heq⟩ := Option.dite_none_right_eq_some.mp h
    obtain ⟨-, rfl⟩ := Prod.mk.inj (Option.some.inj heq)
    exact readValue_length hread
  readTag_byte tag data h := by
    change readTag (tag :: data) = _
    rw [readTag, Varint.decode, if_pos h]
    simp only [Option.map_some, BitVec.ofNat_toNat]
  writeInt32ToArray number value h := by
    refine ⟨writeInt32 value, ?_, rfl, readVarint64_writeVarint64 _⟩
    exact congrArg (· ++ writeInt32 value) (writeTag_eq h (show 0 < 8 by omega))
  writeInt64ToArray number value h := by
    refine ⟨writeVarint64 value, ?_, rfl, readVarint64_writeVarint64 _⟩
    exact congrArg (· ++ writeVarint64 value) (writeTag_eq h (show 0 < 8 by omega))
  writeString number str h hsize := by
    refine ⟨writeSized str, ?_, rfl, readSized_writeSized hsize⟩
    exact congrArg (· ++ writeSized str) (writeTag_eq h (show 2 < 8 by omega))
  writeInt32Packed number list h _ hsize start := by
    refine ⟨writeSized (list.flatMap writeInt32), ?_, ?_,
      packedInt32Parser_written list start hsize⟩
    · exact congrArg (· ++ writeSized (list.flatMap writeInt32))
        (writeTag_eq h (show 2 < 8 by omega))
    · rw [writeSized, List.length_append, length_flatMap_writeInt32]
      exact congrArg (· + wire.int32ListSize list) (length_writeInt32_size hsize).symm
  verifyUTF8_nil := rfl
  maxSize_lt := by decide
  int32ListSize_eq_zero list := by
    refine ⟨fun h => ?_, fun h => h ▸ rfl⟩
    cases list with
    | nil => rfl
    | cons value list =>
      have hpos := List.length_pos_iff.mpr (Varint.encode_ne_nil 9 (value.signExtend 64).toNat)
      have hsum : (Varint.encode 10 (value.signExtend 64).toNat).length +
          wire.int32ListSize list = 0 := h
      exact absurd (Nat.eq_zero_of_add_eq_zero_right hsum) hpos.ne'
  length_le_stringSize str := by
    change str.length ≤ (Varint.encode 5 str.length ++ str).length
    rw [List.length_append]
    exact Nat.le_add_left ..
  serializeUnknownField field rest := by
    refine ⟨writeValue field.value ++ rest, ?_, unknownFieldParse_serialize field rest⟩
    change readTag (writeTag field.tag.toNat ++ writeValue field.value ++ rest) = _
    rw [List.append_assoc, readTag_writeTag]
    rfl
  unknownFieldSize _ := rfl
  unknownFieldParse_tag h := by
    obtain ⟨⟨value, rest⟩, _, h⟩ := Option.bind_eq_some_iff.mp h
    obtain ⟨_, heq⟩ := Option.dite_none_right_eq_some.mp h
    obtain ⟨rfl, -⟩ := Prod.mk.inj (Option.some.inj heq)
    rfl
  unknownTag_field field h := by
    have hpos := field.number_pos
    have htype := field.hasType
    rcases h with h | h
    · have hmod : field.tag.toNat % 8 = 4 := by
        have hnat := congrArg BitVec.toNat h
        rw [BitVec.toNat_and] at hnat
        exact (Nat.and_two_pow_sub_one_eq_mod field.tag.toNat 3).symm.trans hnat
      rw [hmod] at htype
      cases hvalue : field.value <;> simp [hvalue, UnknownValue.HasType] at htype
    · have hzero : field.tag.toNat = 0 := congrArg BitVec.toNat h
      omega

end ProtoWire

end AsioMsg
