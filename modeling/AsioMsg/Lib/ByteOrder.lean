import Mathlib.Algebra.Group.Int.Defs
import Mathlib.Algebra.Group.Nat.Defs
import Mathlib.Data.List.Basic

/-!
Fixed-width numbers as byte strings, in both byte orders. The little-endian
digits of a number and the value of a byte string are inverse to each other
on numbers below 256^k and strings of k bytes; swapping the bytes of a word
turns one order into the other.
-/

namespace AsioMsg

abbrev Byte := BitVec 8

abbrev Bytes := List Byte

namespace ByteOrder

def leBytes : ℕ → ℕ → Bytes
  | 0, _ => []
  | k + 1, n => BitVec.ofNat 8 n :: leBytes k (n / 256)

def leValue : Bytes → ℕ
  | [] => 0
  | b :: rest => b.toNat + 256 * leValue rest

@[simp] theorem leBytes_length (k n : ℕ) : (leBytes k n).length = k := by
  induction k generalizing n with
  | zero => rfl
  | succ k ih => simp only [leBytes, List.length_cons, ih]

theorem leValue_lt (bs : Bytes) : leValue bs < 256 ^ bs.length := by
  induction bs with
  | nil => simp [leValue]
  | cons b rest ih =>
    have hb : b.toNat < 256 := b.isLt
    simp only [leValue, List.length_cons, Nat.pow_succ]
    omega

theorem leBytes_leValue (bs : Bytes) : leBytes bs.length (leValue bs) = bs := by
  induction bs with
  | nil => rfl
  | cons b rest ih =>
    have hb : b.toNat < 256 := b.isLt
    have hdiv : (b.toNat + 256 * leValue rest) / 256 = leValue rest := by omega
    have hmod : BitVec.ofNat 8 (b.toNat + 256 * leValue rest) = b := by
      apply BitVec.eq_of_toNat_eq
      simp only [BitVec.toNat_ofNat]
      omega
    simp only [List.length_cons, leBytes, leValue, hdiv, hmod, ih]

theorem leValue_leBytes (k n : ℕ) : leValue (leBytes k n) = n % 256 ^ k := by
  induction k generalizing n with
  | zero => simp [leBytes, leValue, Nat.mod_one]
  | succ k ih =>
    have hsplit : n % (256 * 256 ^ k) = n % 256 + 256 * (n / 256 % 256 ^ k) := Nat.mod_mul
    simp only [leBytes, leValue, ih, BitVec.toNat_ofNat, Nat.pow_succ']
    exact hsplit.symm

theorem getElem_leBytes (k n i : ℕ) (h : i < k) :
    (leBytes k n)[i]? = some (BitVec.ofNat 8 (n / 256 ^ i)) := by
  induction k generalizing n i with
  | zero => omega
  | succ k ih =>
    cases i with
    | zero => simp [leBytes]
    | succ i =>
      rw [leBytes, List.getElem?_cons_succ, ih _ _ (Nat.lt_of_succ_lt_succ h),
        Nat.div_div_eq_div_mul, Nat.pow_succ']

/-- The bytes of a word of k bytes, as they lie in the memory of a little-endian host. -/
def wordBytes (k : ℕ) {w : ℕ} (x : BitVec w) : Bytes := leBytes k x.toNat

def ofWordBytes (w : ℕ) (bs : Bytes) : BitVec w := BitVec.ofNat w (leValue bs)

/-- The word with its k bytes in the opposite order. -/
def byteSwap (k : ℕ) {w : ℕ} (x : BitVec w) : BitVec w := ofWordBytes w (wordBytes k x).reverse

@[simp] theorem wordBytes_length (k : ℕ) {w : ℕ} (x : BitVec w) : (wordBytes k x).length = k :=
  leBytes_length k x.toNat

theorem wordBytes_ofWordBytes (w : ℕ) (bs : Bytes) (hw : 256 ^ bs.length = 2 ^ w) :
    wordBytes bs.length (ofWordBytes w bs) = bs := by
  have hlt : leValue bs < 2 ^ w := hw ▸ leValue_lt bs
  simp only [wordBytes, ofWordBytes, BitVec.toNat_ofNat, Nat.mod_eq_of_lt hlt]
  exact leBytes_leValue bs

theorem ofWordBytes_wordBytes (k : ℕ) {w : ℕ} (x : BitVec w) (hw : 256 ^ k = 2 ^ w) :
    ofWordBytes w (wordBytes k x) = x := by
  apply BitVec.eq_of_toNat_eq
  simp only [ofWordBytes, wordBytes, BitVec.toNat_ofNat, leValue_leBytes, hw, Nat.mod_mod]
  exact Nat.mod_eq_of_lt x.isLt

/-- Storing a swapped word lays its bytes out in the opposite order. -/
theorem wordBytes_byteSwap (k : ℕ) {w : ℕ} (x : BitVec w) (hw : 256 ^ k = 2 ^ w) :
    wordBytes k (byteSwap k x) = (wordBytes k x).reverse := by
  have hlen : (wordBytes k x).reverse.length = k := by simp
  have h := wordBytes_ofWordBytes w (wordBytes k x).reverse (by rw [hlen, hw])
  rw [hlen] at h
  exact h

theorem byteSwap_byteSwap (k : ℕ) {w : ℕ} (x : BitVec w) (hw : 256 ^ k = 2 ^ w) :
    byteSwap k (byteSwap k x) = x := by
  unfold byteSwap
  rw [show wordBytes k (ofWordBytes w (wordBytes k x).reverse) = (wordBytes k x).reverse from
    wordBytes_byteSwap k x hw, List.reverse_reverse, ofWordBytes_wordBytes k x hw]

end ByteOrder

end AsioMsg
