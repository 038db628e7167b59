import AsioMsg.ProtoLoop
import Mathlib.Algebra.Order.BigOperators.Group.List
import Mathlib.Algebra.Order.Group.Nat

/-!
The values of a field as entries on the wire, each a tag with what stands
behind it. A number, a string or a packed list is one entry, a repeated string
is one for each of its strings. Reading the entries of a value one after the
other merges the value into the field, unless a string among them is not UTF-8.
-/

namespace AsioMsg

open WireFormat

variable {F : Type} {w : WireFormat F}

namespace FieldType

/-- All strings of the value pass VerifyUTF8. -/
def ValidUTF8 (w : WireFormat F) : (type : FieldType) → type.Value → Prop
  | .int32, _ => True
  | .int64, _ => True
  | .string, value => w.verifyUTF8 value = true
  | .repeatedInt32, _ => True
  | .repeatedString, value => ∀ str ∈ value, w.verifyUTF8 str = true

instance (w : WireFormat F) : (type : FieldType) → DecidablePred (type.ValidUTF8 w)
  | .int32 => fun _ => inferInstanceAs (Decidable True)
  | .int64 => fun _ => inferInstanceAs (Decidable True)
  | .string => fun value => inferInstanceAs (Decidable (w.verifyUTF8 value = true))
  | .repeatedInt32 => fun _ => inferInstanceAs (Decidable True)
  | .repeatedString => fun value =>
      inferInstanceAs (Decidable (∀ str ∈ value, w.verifyUTF8 str = true))

/-- The bytes begin with a tag of the field, and `read` is the case of that tag. -/
structure Begins (w : WireFormat F) (number : ℕ) (type : FieldType) (bytes : Bytes) (tag : Byte)
    (body : Bytes) (read : type.Value → Bytes → Option (type.Value × Bytes)) : Prop where
  bytes_eq : bytes = tag :: body
  tag_eq : ∃ wireType < 8, tag = tagByte number wireType
  case_eq : type.parseCase w number tag = some read

/-- The bytes are an entry of the field that changes its value so. The loop over a repeated string
goes on with what follows where that is another entry. -/
def Entry (w : WireFormat F) (number : ℕ) (type : FieldType) (bytes : Bytes)
    (effect : type.Value → type.Value) : Prop :=
  ∃ tag body read, Begins w number type bytes tag body read ∧ ∀ value rest,
    read value (body ++ rest) = some (effect value, rest) ∨
      ∃ ptr, rest = tag :: ptr ∧ read value (body ++ rest) = read (effect value) ptr

/-- The bytes are an entry of the field that is refused. -/
def BadEntry (w : WireFormat F) (number : ℕ) (type : FieldType) (bytes : Bytes) : Prop :=
  ∃ tag body read, Begins w number type bytes tag body read ∧
    ∀ value rest, read value (body ++ rest) = none

inductive Entries (w : WireFormat F) (number : ℕ) (type : FieldType) :
    Bytes → (type.Value → type.Value) → Prop
  | nil : Entries w number type [] id
  | cons {bytes rest : Bytes} {effect effects : type.Value → type.Value} :
      Entry w number type bytes effect → Entries w number type rest effects →
      Entries w number type (bytes ++ rest) (effects ∘ effect)

theorem Entry.entries {number : ℕ} {type : FieldType} {bytes : Bytes}
    {effect : type.Value → type.Value} (h : Entry w number type bytes effect) :
    Entries w number type bytes effect := by
  have hcons := Entries.cons h Entries.nil
  rwa [List.append_nil, Function.id_comp] at hcons

/-- No entries change nothing. -/
theorem entries_nil {number : ℕ} {type : FieldType} {effect : type.Value → type.Value}
    (h : ∀ value, effect value = value) : Entries w number type [] effect := by
  obtain rfl : effect = id := funext h
  exact Entries.nil

section Written

variable {number : ℕ}

theorem begins_repeatedString {str body : Bytes}
    (hbytes : w.writeString number str = tagByte number 2 :: body) :
    Begins w number .repeatedString (w.writeString number str) (tagByte number 2) body
      (fun list ptr => parseStrings w (tagByte number 2) (ptr.length + 1) list ptr) :=
  ⟨hbytes, ⟨2, by omega, rfl⟩, if_pos rfl⟩

theorem entry_int32 (hw : w.Lawful) (hnumber : number < 16) (value : BitVec 32) :
    Entry w number .int32 (w.writeInt32ToArray number value) fun _ => value := by
  obtain ⟨body, hbytes, -, hread⟩ := hw.writeInt32ToArray number value hnumber
  refine ⟨_, body, _, ⟨hbytes, ⟨0, by omega, rfl⟩, if_pos rfl⟩, fun _ rest => Or.inl ?_⟩
  have hvalue : (value.signExtend 64).setWidth 32 = value := by
    ext i hi
    rw [BitVec.getElem_setWidth, BitVec.getLsbD_signExtend]
    simp [hi, show i < 64 by omega, BitVec.getLsbD_eq_getElem]
  simp only [hread, Option.map_some, hvalue]

theorem entry_int64 (hw : w.Lawful) (hnumber : number < 16) (value : BitVec 64) :
    Entry w number .int64 (w.writeInt64ToArray number value) fun _ => value := by
  obtain ⟨body, hbytes, -, hread⟩ := hw.writeInt64ToArray number value hnumber
  exact ⟨_, body, _, ⟨hbytes, ⟨0, by omega, rfl⟩, if_pos rfl⟩, fun _ rest => Or.inl (hread rest)⟩

/-- A string that was written is read back, if it is UTF-8. -/
theorem parseString_writeString (hw : w.Lawful) (hnumber : number < 16) {str : Bytes}
    (hsize : str.length ≤ w.maxSize) :
    ∃ body, w.writeString number str = tagByte number 2 :: body ∧
      ∀ rest, parseString w (body ++ rest) =
        if w.verifyUTF8 str then some (str, rest) else none := by
  obtain ⟨body, hbytes, -, hread⟩ := hw.writeString number str hnumber hsize
  exact ⟨body, hbytes, fun rest => by rw [parseString, hread, Option.bind_some]⟩

theorem entry_string (hw : w.Lawful) (hnumber : number < 16) {str : Bytes}
    (hsize : str.length ≤ w.maxSize) (hutf8 : w.verifyUTF8 str = true) :
    Entry w number .string (w.writeString number str) fun _ => str := by
  obtain ⟨body, hbytes, hread⟩ := parseString_writeString hw hnumber hsize
  refine ⟨_, body, _, ⟨hbytes, ⟨2, by omega, rfl⟩, if_pos rfl⟩, fun _ rest => Or.inl ?_⟩
  rw [hread, if_pos hutf8]

theorem badEntry_string (hw : w.Lawful) (hnumber : number < 16) {str : Bytes}
    (hsize : str.length ≤ w.maxSize) (hutf8 : ¬ w.verifyUTF8 str = true) :
    BadEntry w number .string (w.writeString number str) := by
  obtain ⟨body, hbytes, hread⟩ := parseString_writeString hw hnumber hsize
  refine ⟨_, body, _, ⟨hbytes, ⟨2, by omega, rfl⟩, if_pos rfl⟩, fun _ rest => ?_⟩
  rw [hread, if_neg hutf8]

theorem entry_repeatedInt32 (hw : w.Lawful) (hnumber : number < 16) {list : List (BitVec 32)}
    (hlist : list ≠ []) (hsize : w.int32ListSize list ≤ w.maxSize) :
    Entry w number .repeatedInt32 (w.writeInt32Packed number list) fun value => value ++ list := by
  have hwritten := hw.writeInt32Packed number list hnumber hlist hsize
  obtain ⟨body, hbytes, -, -⟩ := hwritten []
  refine ⟨_, body, _, ⟨hbytes, ⟨2, by omega, rfl⟩, if_pos rfl⟩, fun value rest => Or.inl ?_⟩
  obtain ⟨body', hbytes', -, hread⟩ := hwritten value
  obtain rfl : body' = body := (List.cons.inj (hbytes'.symm.trans hbytes)).2
  exact hread rest

/-- One round of the loop over a repeated string, for a string that was written. -/
theorem entry_repeatedString (hw : w.Lawful) (hnumber : number < 16) {str : Bytes}
    (hsize : str.length ≤ w.maxSize) (hutf8 : w.verifyUTF8 str = true) :
    Entry w number .repeatedString (w.writeString number str) fun list => list ++ [str] := by
  obtain ⟨body, hbytes, hread⟩ := parseString_writeString hw hnumber hsize
  refine ⟨_, body, _, begins_repeatedString hbytes, fun list rest => ?_⟩
  have hround := parseStrings_succ (w := w) (tagByte number 2) (body ++ rest).length list
    (body ++ rest)
  rw [hread, if_pos hutf8, Option.bind_some] at hround
  cases rest with
  | nil => exact Or.inl hround
  | cons b ptr =>
    by_cases htag : b = tagByte number 2
    · refine Or.inr ⟨ptr, by rw [htag], hround.trans ?_⟩
      have hlt : ptr.length < (body ++ b :: ptr).length := by
        rw [List.length_append, List.length_cons]
        omega
      simp only [if_pos htag]
      exact parseStrings_fuel hw _ _ _ ptr hlt
    · simp only [if_neg htag] at hround
      exact Or.inl hround

theorem badEntry_repeatedString (hw : w.Lawful) (hnumber : number < 16) {str : Bytes}
    (hsize : str.length ≤ w.maxSize) (hutf8 : ¬ w.verifyUTF8 str = true) :
    BadEntry w number .repeatedString (w.writeString number str) := by
  obtain ⟨body, hbytes, hread⟩ := parseString_writeString hw hnumber hsize
  refine ⟨_, body, _, begins_repeatedString hbytes, fun list rest => ?_⟩
  rw [parseStrings_succ, hread, if_neg hutf8, Option.bind_none]

theorem int32ListSize_pos_iff (hw : w.Lawful) {list : List (BitVec 32)}
    (hsize : w.int32ListSize list ≤ w.maxSize) :
    0 < (BitVec.ofNat 32 (w.int32ListSize list)).toInt ↔ list ≠ [] := by
  have hmax := hw.maxSize_lt
  have hint : (BitVec.ofNat 32 (w.int32ListSize list)).toInt = w.int32ListSize list := by
    rw [BitVec.toInt_eq_toNat_of_lt, BitVec.toNat_ofNat, Nat.mod_eq_of_lt (by omega)]
    rw [BitVec.toNat_ofNat, Nat.mod_eq_of_lt (by omega)]
    omega
  rw [hint, Ne, ← hw.int32ListSize_eq_zero list]
  omega

theorem length_le_of_repeatedString (hw : w.Lawful) {list : List Bytes}
    (hsize : byteSizeLong w .repeatedString list ≤ w.maxSize) {str : Bytes} (hstr : str ∈ list) :
    str.length ≤ w.maxSize := by
  have hsum : w.stringSize str ≤ (list.map w.stringSize).sum :=
    List.le_sum_of_mem (List.mem_map_of_mem hstr)
  have hlength := hw.length_le_stringSize str
  have htotal : list.length + (list.map w.stringSize).sum ≤ w.maxSize := hsize
  omega

theorem entries_repeatedString (hw : w.Lawful) (hnumber : number < 16) (list : List Bytes)
    (hsize : ∀ str ∈ list, str.length ≤ w.maxSize)
    (hutf8 : ∀ str ∈ list, w.verifyUTF8 str = true) :
    Entries w number .repeatedString (list.flatMap (w.writeString number))
      fun value => value ++ list := by
  induction list with
  | nil => exact entries_nil List.append_nil
  | cons str list ih =>
    have hfirst := entry_repeatedString hw hnumber (hsize str (List.mem_cons_self ..))
      (hutf8 str (List.mem_cons_self ..))
    have hrest := ih (fun s hs => hsize s (List.mem_cons_of_mem str hs))
      fun s hs => hutf8 s (List.mem_cons_of_mem str hs)
    have heffect : (fun value : List Bytes => value ++ str :: list) =
        (fun value => value ++ list) ∘ fun value => value ++ [str] := by
      funext value
      exact (List.append_assoc value [str] list).symm
    rw [List.flatMap_cons, heffect]
    exact Entries.cons hfirst hrest

/-- What is written for a value are entries that merge it into a field. -/
theorem entries_internalSerialize (hw : w.Lawful) (hnumber : number < 16) (type : FieldType)
    (value : type.Value) (hsize : type.byteSizeLong w value ≤ w.maxSize)
    (hutf8 : type.ValidUTF8 w value) :
    Entries w number type (type.internalSerialize w number value)
      fun old => type.mergeFrom old value := by
  cases type with
  | int32 =>
    by_cases hvalue : value ≠ 0
    · simp only [internalSerialize, mergeFrom, if_pos hvalue]
      exact (entry_int32 hw hnumber value).entries
    · simp only [internalSerialize, mergeFrom, if_neg hvalue]
      exact Entries.nil
  | int64 =>
    by_cases hvalue : value ≠ 0
    · simp only [internalSerialize, mergeFrom, if_pos hvalue]
      exact (entry_int64 hw hnumber value).entries
    · simp only [internalSerialize, mergeFrom, if_neg hvalue]
      exact Entries.nil
  | string =>
    by_cases hvalue : value ≠ []
    · simp only [byteSizeLong, if_pos hvalue] at hsize
      have hlength := hw.length_le_stringSize value
      simp only [internalSerialize, mergeFrom, if_pos hvalue]
      exact (entry_string hw hnumber (by omega) hutf8).entries
    · simp only [internalSerialize, mergeFrom, if_neg hvalue]
      exact Entries.nil
  | repeatedInt32 =>
    have hlist : w.int32ListSize value ≤ w.maxSize := le_trans (Nat.le_add_left _ _) hsize
    simp only [internalSerialize, mergeFrom, int32ListSize_pos_iff hw hlist]
    by_cases hvalue : value ≠ []
    · rw [if_pos hvalue]
      exact (entry_repeatedInt32 hw hnumber hvalue hlist).entries
    · rw [if_neg hvalue, not_not.mp hvalue]
      exact entries_nil List.append_nil
  | repeatedString =>
    exact entries_repeatedString hw hnumber value
      (fun _ hstr => length_le_of_repeatedString hw hsize hstr) hutf8

/-- What is written for a value with an invalid string is refused behind its valid entries. -/
theorem badEntry_internalSerialize (hw : w.Lawful) (hnumber : number < 16) (type : FieldType)
    (value : type.Value) (hsize : type.byteSizeLong w value ≤ w.maxSize)
    (hutf8 : ¬ type.ValidUTF8 w value) :
    ∃ before bad after effects, type.internalSerialize w number value = before ++ (bad ++ after) ∧
      Entries w number type before effects ∧ BadEntry w number type bad := by
  cases type with
  | int32 => exact absurd trivial hutf8
  | int64 => exact absurd trivial hutf8
  | repeatedInt32 => exact absurd trivial hutf8
  | string =>
    have hvalue : value ≠ [] := by
      rintro rfl
      exact hutf8 hw.verifyUTF8_nil
    simp only [byteSizeLong, if_pos hvalue] at hsize
    have hlength := hw.length_le_stringSize value
    refine ⟨[], w.writeString number value, [], id, ?_, Entries.nil,
      badEntry_string hw hnumber (by omega) hutf8⟩
    simp only [internalSerialize, if_pos hvalue, List.append_nil, List.nil_append]
  | repeatedString =>
    -- the first string that fails the check
    obtain ⟨first, hfirst⟩ : ∃ first, value.find? (fun str => !w.verifyUTF8 str) = some first := by
      rw [← Option.isSome_iff_exists, List.find?_isSome]
      simpa [ValidUTF8] using hutf8
    obtain ⟨hbad, valid, rest, hlist, hvalid⟩ := List.find?_eq_some_iff_append.mp hfirst
    have hbound : ∀ s ∈ value, s.length ≤ w.maxSize :=
      fun s hs => length_le_of_repeatedString hw hsize hs
    rw [hlist] at hbound
    refine ⟨valid.flatMap (w.writeString number), w.writeString number first,
      rest.flatMap (w.writeString number), _, ?_,
      entries_repeatedString hw hnumber valid
        (fun s hs => hbound s (List.mem_append_left _ hs)) fun s hs => by simpa using hvalid s hs,
      badEntry_repeatedString hw hnumber (hbound first (by simp)) (by simpa using hbad)⟩
    rw [internalSerialize, hlist, List.flatMap_append, List.flatMap_cons]

theorem length_written {V : Type} {bytes : Bytes} {tag : Byte} {size : ℕ}
    {read : Bytes → Option (V × Bytes)} {value : V} (h : Written bytes tag size read value) :
    bytes.length = 1 + size := by
  obtain ⟨body, rfl, rfl, -⟩ := h
  rw [List.length_cons, Nat.add_comm]

/-- ByteSizeLong says how many bytes _InternalSerialize writes. -/
theorem length_internalSerialize (hw : w.Lawful) (hnumber : number < 16) (type : FieldType)
    (value : type.Value) (hsize : type.byteSizeLong w value ≤ w.maxSize) :
    (type.internalSerialize w number value).length = type.byteSizeLong w value := by
  cases type with
  | int32 =>
    by_cases hvalue : value ≠ 0
    · simp only [internalSerialize, byteSizeLong, if_pos hvalue]
      exact length_written (hw.writeInt32ToArray number value hnumber)
    · simp only [internalSerialize, byteSizeLong, if_neg hvalue, List.length_nil]
  | int64 =>
    by_cases hvalue : value ≠ 0
    · simp only [internalSerialize, byteSizeLong, if_pos hvalue]
      exact length_written (hw.writeInt64ToArray number value hnumber)
    · simp only [internalSerialize, byteSizeLong, if_neg hvalue, List.length_nil]
  | string =>
    by_cases hvalue : value ≠ []
    · simp only [internalSerialize, byteSizeLong, if_pos hvalue] at hsize ⊢
      have hlength := hw.length_le_stringSize value
      exact length_written (hw.writeString number value hnumber (by omega))
    · simp only [internalSerialize, byteSizeLong, if_neg hvalue, List.length_nil]
  | repeatedInt32 =>
    have hlist : w.int32ListSize value ≤ w.maxSize := le_trans (Nat.le_add_left _ _) hsize
    simp only [internalSerialize, byteSizeLong, int32ListSize_pos_iff hw hlist]
    by_cases hvalue : value ≠ []
    · have hpos : 0 < w.int32ListSize value := by
        rw [Nat.pos_iff_ne_zero, Ne, hw.int32ListSize_eq_zero]
        exact hvalue
      rw [if_pos hvalue, if_pos hpos, length_written
        (hw.writeInt32Packed number value hnumber hvalue hlist []), Nat.add_assoc]
    · have hzero : w.int32ListSize value = 0 :=
        (hw.int32ListSize_eq_zero value).mpr (not_not.mp hvalue)
      rw [if_neg hvalue, hzero, if_neg (Nat.lt_irrefl 0), List.length_nil]
  | repeatedString =>
    have hbound : ∀ str ∈ value, str.length ≤ w.maxSize :=
      fun str hstr => length_le_of_repeatedString hw hsize hstr
    rw [internalSerialize, byteSizeLong, List.length_flatMap]
    clear hsize
    induction value with
    | nil => rfl
    | cons str list ih =>
      have hstr := length_written
        (hw.writeString number str hnumber (hbound str (List.mem_cons_self ..)))
      have hrest := ih fun s hs => hbound s (List.mem_cons_of_mem str hs)
      simp only [List.map_cons, List.sum_cons, List.length_cons] at hrest ⊢
      omega

end Written

end FieldType

end AsioMsg
