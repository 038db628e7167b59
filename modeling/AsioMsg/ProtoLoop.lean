import AsioMsg.ProtoMessages

/-!
The loops of _InternalParse. Every round reads at least its tag, so that as many
rounds as there are bytes are enough, and a parse is one round and a parse of
what the round leaves.
-/

namespace AsioMsg

open WireFormat

variable {F : Type} {w : WireFormat F}

namespace FieldType

theorem parseString_length (hw : w.Lawful) {ptr ptr' str : Bytes}
    (h : parseString w ptr = some (str, ptr')) : ptr'.length ≤ ptr.length := by
  obtain ⟨⟨str', rest⟩, hread, hcheck⟩ := Option.bind_eq_some_iff.mp h
  obtain ⟨_, heq⟩ := Option.ite_none_right_eq_some.mp hcheck
  obtain ⟨rfl, rfl⟩ := Prod.mk.inj (Option.some.inj heq)
  exact hw.inlineGreedyStringParser_length hread

/-- A round of the loop over a repeated string. -/
theorem parseStrings_succ (tag : Byte) (fuel : ℕ) (list : List Bytes) (ptr : Bytes) :
    parseStrings w tag (fuel + 1) list ptr = (parseString w ptr).bind fun (str, ptr) =>
      match ptr with
      | [] => some (list ++ [str], [])
      | b :: rest =>
          if b = tag then parseStrings w tag fuel (list ++ [str]) rest
          else some (list ++ [str], ptr) := rfl

theorem parseStrings_length (hw : w.Lawful) {tag : Byte} {fuel : ℕ} {list list' : List Bytes}
    {ptr ptr' : Bytes} (h : parseStrings w tag fuel list ptr = some (list', ptr')) :
    ptr'.length ≤ ptr.length := by
  induction fuel generalizing list ptr with
  | zero => exact absurd h (by simp [parseStrings])
  | succ fuel ih =>
    rw [parseStrings_succ] at h
    obtain ⟨⟨str, rest⟩, hread, h⟩ := Option.bind_eq_some_iff.mp h
    have hle := parseString_length hw hread
    cases rest with
    | nil =>
      obtain ⟨-, rfl⟩ := Prod.mk.inj (Option.some.inj h)
      exact Nat.zero_le _
    | cons b rest =>
      by_cases htag : b = tag
      · simp only [if_pos htag] at h
        have hlt := ih h
        rw [List.length_cons] at hle
        omega
      · simp only [if_neg htag] at h
        obtain ⟨-, rfl⟩ := Prod.mk.inj (Option.some.inj h)
        exact hle

/-- More rounds than bytes change nothing. -/
theorem parseStrings_fuel (hw : w.Lawful) (tag : Byte) (fuel : ℕ) (list : List Bytes) (ptr : Bytes)
    (hfuel : ptr.length < fuel) :
    parseStrings w tag fuel list ptr = parseStrings w tag (ptr.length + 1) list ptr := by
  induction hlen : ptr.length using Nat.strong_induction_on generalizing fuel list ptr with
  | _ n ih =>
    obtain ⟨fuel, rfl⟩ : ∃ m, fuel = m + 1 := ⟨fuel - 1, by omega⟩
    rw [parseStrings_succ, parseStrings_succ]
    refine Option.bind_congr ?_
    rintro ⟨str, rest⟩ hread
    have hle := parseString_length hw hread
    cases rest with
    | nil => rfl
    | cons b rest =>
      rw [List.length_cons] at hle
      by_cases htag : b = tag
      · simp only [if_pos htag]
        rw [ih rest.length (by omega) fuel (list ++ [str]) rest (by omega) rfl]
        exact (ih rest.length (by omega) n (list ++ [str]) rest (by omega) rfl).symm
      · simp only [if_neg htag]

/-- What reads the value of a field leaves no more than it is given. -/
theorem parseCase_length (hw : w.Lawful) {number : ℕ} {tag : Byte} {type : FieldType}
    {read : type.Value → Bytes → Option (type.Value × Bytes)}
    (hcase : type.parseCase w number tag = some read) {value value' : type.Value}
    {ptr ptr' : Bytes} (h : read value ptr = some (value', ptr')) : ptr'.length ≤ ptr.length := by
  cases type with
  | int32 =>
    obtain ⟨_, heq⟩ := Option.ite_none_right_eq_some.mp hcase
    obtain rfl := Option.some.inj heq
    obtain ⟨⟨v, rest⟩, hread, heq⟩ := Option.map_eq_some_iff.mp h
    obtain ⟨-, rfl⟩ := Prod.mk.inj heq
    exact hw.readVarint64_length hread
  | int64 =>
    obtain ⟨_, heq⟩ := Option.ite_none_right_eq_some.mp hcase
    obtain rfl := Option.some.inj heq
    exact hw.readVarint64_length h
  | string =>
    obtain ⟨_, heq⟩ := Option.ite_none_right_eq_some.mp hcase
    obtain rfl := Option.some.inj heq
    exact parseString_length hw h
  | repeatedInt32 =>
    rw [parseCase] at hcase
    by_cases hpacked : tag = tagByte number 2
    · rw [if_pos hpacked] at hcase
      obtain rfl := Option.some.inj hcase
      exact hw.packedInt32Parser_length h
    · rw [if_neg hpacked] at hcase
      obtain ⟨_, heq⟩ := Option.ite_none_right_eq_some.mp hcase
      obtain rfl := Option.some.inj heq
      obtain ⟨⟨v, rest⟩, hread, heq⟩ := Option.map_eq_some_iff.mp h
      obtain ⟨-, rfl⟩ := Prod.mk.inj heq
      exact hw.readVarint64_length hread
  | repeatedString =>
    obtain ⟨_, heq⟩ := Option.ite_none_right_eq_some.mp hcase
    obtain rfl := Option.some.inj heq
    exact parseStrings_length hw h

end FieldType

namespace Message

variable {t : MessageType}

/-- The rounds behind one round. -/
def Parsed.rest (w : WireFormat F) : Parsed F t → Option (Message F t × Option (BitVec 32))
  | .next msg ptr => internalParse w msg ptr
  | .lastTag msg tag => some (msg, some tag)

theorem parseField_length (hw : w.Lawful) {msg msg' : Message F t} {tag : BitVec 32}
    {ptr ptr' : Bytes} (h : parseField w msg tag ptr = some (.next msg' ptr')) :
    ptr'.length ≤ ptr.length := by
  rw [parseField] at h
  split at h
  · next i read hcase =>
    obtain ⟨⟨value, rest⟩, hread, heq⟩ := Option.map_eq_some_iff.mp h
    obtain ⟨-, rfl⟩ := Parsed.next.inj heq
    obtain ⟨j, _, hfield⟩ := Option.bind_eq_some_iff.mp hcase
    obtain ⟨read', hcase', heq⟩ := Option.map_eq_some_iff.mp hfield
    obtain ⟨rfl, hread'⟩ := Sigma.mk.inj heq
    obtain rfl := eq_of_heq hread'
    exact FieldType.parseCase_length hw hcase' hread
  · split at h
    · exact absurd (Option.some.inj h) (by simp)
    · obtain ⟨⟨field, rest⟩, hread, heq⟩ := Option.map_eq_some_iff.mp h
      obtain ⟨-, rfl⟩ := Parsed.next.inj heq
      exact hw.unknownFieldParse_length hread

/-- As many rounds as there are bytes are enough. -/
theorem parseLoop_fuel (hw : w.Lawful) (fuel : ℕ) (msg : Message F t) (data : Bytes)
    (hfuel : data.length ≤ fuel) : parseLoop w fuel msg data = internalParse w msg data := by
  rw [internalParse]
  induction hlen : data.length using Nat.strong_induction_on generalizing fuel msg data with
  | _ n ih =>
    cases data with
    | nil => rw [parseLoop, parseLoop]
    | cons b data =>
      rw [List.length_cons] at hlen hfuel
      obtain ⟨fuel, rfl⟩ : ∃ m, fuel = m + 1 := ⟨fuel - 1, by omega⟩
      obtain ⟨n, rfl⟩ : ∃ m, n = m + 1 := ⟨n - 1, by omega⟩
      rw [parseLoop, parseLoop]
      refine Option.bind_congr ?_
      rintro ⟨tag, ptr⟩ htag
      have hlt := hw.readTag_length htag
      rw [List.length_cons] at hlt
      refine Option.bind_congr ?_
      rintro (⟨msg', ptr'⟩ | ⟨msg', tag'⟩) hfield
      · have hle := parseField_length hw hfield
        change parseLoop w fuel msg' ptr' = parseLoop w n msg' ptr'
        rw [ih ptr'.length (by omega) fuel msg' ptr' (by omega) rfl,
          ih ptr'.length (by omega) n msg' ptr' (by omega) rfl]
      · rfl

@[simp] theorem internalParse_nil (msg : Message F t) :
    internalParse w msg [] = some (msg, none) := rfl

theorem internalParse_cons (hw : w.Lawful) (msg : Message F t) (b : Byte) (data : Bytes) :
    internalParse w msg (b :: data) = (w.readTag (b :: data)).bind fun (tag, ptr) =>
      (parseField w msg tag ptr).bind (Parsed.rest w) := by
  rw [internalParse, List.length_cons, parseLoop]
  refine Option.bind_congr ?_
  rintro ⟨tag, ptr⟩ htag
  have hlt := hw.readTag_length htag
  rw [List.length_cons] at hlt
  refine Option.bind_congr ?_
  rintro (⟨msg', ptr'⟩ | ⟨msg', tag'⟩) hfield
  · have hle := parseField_length hw hfield
    exact parseLoop_fuel hw data.length msg' ptr' (by omega)
  · rfl

/-- A parse of data that begins with a tag. -/
theorem internalParse_of_readTag (hw : w.Lawful) (msg : Message F t) {data ptr : Bytes}
    {tag : BitVec 32} (h : w.readTag data = some (tag, ptr)) :
    internalParse w msg data = (parseField w msg tag ptr).bind (Parsed.rest w) := by
  cases data with
  | nil => exact absurd (hw.readTag_length h) (Nat.not_lt_zero _)
  | cons b data => rw [internalParse_cons hw, h, Option.bind_some]

end Message

end AsioMsg
