import AsioMsg.Lib.ByteOrder

/-!
Numbers in groups of seven bits, lowest first, one byte a group; the high bit of
a byte says that another one follows. A reader that takes at most k bytes reads
every number below 128^k back and leaves what stands behind it.
-/

namespace AsioMsg

namespace Varint

def encode : ℕ → ℕ → Bytes
  | 0, _ => []
  | k + 1, n =>
      if n < 128 then [BitVec.ofNat 8 n]
      else BitVec.ofNat 8 (n % 128 + 128) :: encode k (n / 128)

/-- The number that the data begins with, of at most `k` bytes, and the data behind it. -/
def decode : ℕ → Bytes → Option (ℕ × Bytes)
  | 0, _ => none
  | _ + 1, [] => none
  | k + 1, b :: rest =>
      if b.toNat < 128 then some (b.toNat, rest)
      else (decode k rest).map fun (n, rest) => (b.toNat - 128 + 128 * n, rest)

/-- The numbers that the data consists of. -/
def decodeAll (k : ℕ) : ℕ → Bytes → Option (List ℕ)
  | _, [] => some []
  | 0, _ :: _ => none
  | fuel + 1, b :: data =>
      (decode k (b :: data)).bind fun (n, rest) => (decodeAll k fuel rest).map (n :: ·)

theorem decode_encode_append (k n : ℕ) (rest : Bytes) (hn : n < 128 ^ (k + 1)) :
    decode (k + 1) (encode (k + 1) n ++ rest) = some (n, rest) := by
  induction k generalizing n with
  | zero =>
    have hbyte : (BitVec.ofNat 8 n).toNat = n := by
      rw [BitVec.toNat_ofNat, Nat.mod_eq_of_lt (by omega)]
    have hlast : n < 128 := by omega
    simp only [encode, if_pos hlast, List.singleton_append, decode, hbyte]
  | succ k ih =>
    rw [Nat.pow_succ] at hn
    rw [encode, decode.eq_def]
    by_cases hlast : n < 128
    · have hbyte : (BitVec.ofNat 8 n).toNat = n := by
        rw [BitVec.toNat_ofNat, Nat.mod_eq_of_lt (by omega)]
      simp only [if_pos hlast, List.singleton_append, hbyte]
    · have hbyte : (BitVec.ofNat 8 (n % 128 + 128)).toNat = n % 128 + 128 := by
        rw [BitVec.toNat_ofNat, Nat.mod_eq_of_lt (by omega)]
      have hrest := ih (n / 128) (by omega)
      have hvalue : n % 128 + 128 - 128 + 128 * (n / 128) = n := by omega
      simp only [if_neg hlast, List.cons_append, hbyte, hrest, Option.map_some, hvalue,
        if_neg (show ¬ n % 128 + 128 < 128 by omega)]

/-- Room for more groups changes nothing. -/
theorem encode_eq_of_lt {k m n : ℕ} (hn : n < 128 ^ (k + 1)) (hm : k ≤ m) :
    encode (m + 1) n = encode (k + 1) n := by
  induction k generalizing m n with
  | zero =>
    have hlast : n < 128 := by omega
    rw [encode, encode, if_pos hlast, if_pos hlast]
  | succ k ih =>
    obtain ⟨m, rfl⟩ : ∃ l, m = l + 1 := ⟨m - 1, by omega⟩
    rw [Nat.pow_succ] at hn
    rw [encode, encode.eq_def (k + 1 + 1)]
    by_cases hlast : n < 128
    · simp only [if_pos hlast]
    · simp only [if_neg hlast, ih (m := m) (n := n / 128) (by omega) (by omega)]

theorem decode_length {k n : ℕ} {data rest : Bytes} (h : decode k data = some (n, rest)) :
    rest.length < data.length := by
  induction k generalizing n data with
  | zero => exact absurd h (by simp [decode])
  | succ k ih =>
    cases data with
    | nil => exact absurd h (by simp [decode])
    | cons b tail =>
      rw [decode] at h
      by_cases hlast : b.toNat < 128
      · rw [if_pos hlast] at h
        obtain ⟨-, rfl⟩ := Prod.mk.inj (Option.some.inj h)
        simp
      · rw [if_neg hlast] at h
        obtain ⟨⟨m, rest'⟩, hm, heq⟩ := Option.map_eq_some_iff.mp h
        obtain ⟨-, rfl⟩ := Prod.mk.inj heq
        have hlt := ih hm
        rw [List.length_cons]
        omega

theorem encode_ne_nil (k n : ℕ) : encode (k + 1) n ≠ [] := by
  rw [encode]
  split <;> exact List.cons_ne_nil _ _

theorem decodeAll_flatMap (k : ℕ) (ns : List ℕ) (hns : ∀ n ∈ ns, n < 128 ^ (k + 1)) (fuel : ℕ)
    (hfuel : (ns.flatMap (encode (k + 1))).length ≤ fuel) :
    decodeAll (k + 1) fuel (ns.flatMap (encode (k + 1))) = some ns := by
  induction ns generalizing fuel with
  | nil => simp [decodeAll]
  | cons n ns ih =>
    obtain ⟨b, tail, hencode⟩ := List.exists_cons_of_ne_nil (encode_ne_nil k n)
    have hread := decode_encode_append k n (ns.flatMap (encode (k + 1)))
      (hns n (List.mem_cons_self ..))
    rw [List.flatMap_cons, hencode, List.cons_append] at hfuel ⊢
    rw [hencode, List.cons_append] at hread
    rw [List.length_cons, List.length_append] at hfuel
    obtain ⟨fuel, rfl⟩ : ∃ m, fuel = m + 1 := ⟨fuel - 1, by omega⟩
    have hrest := ih (fun m hm => hns m (List.mem_cons_of_mem n hm)) fuel (by omega)
    simp only [decodeAll, hread, Option.bind_some, hrest, Option.map_some]

end Varint

end AsioMsg
