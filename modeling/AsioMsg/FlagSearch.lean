import Mathlib.Data.Nat.Find
import Mathlib.Order.Bounds.Defs
import AsioMsg.FlagScan

/-!
The flag search by positions. It stops at the first position with a flag pair
and more than 20 bytes from there on; without one it keeps the last 20 bytes,
among which a flag pair of the next read may begin.
-/

namespace AsioMsg

/-- The flag pair stands at position `i`, with more than 20 bytes from there to the end. -/
structure FlagAt (bs : Bytes) (i : ℕ) : Prop where
  first : bs[i]? = some flag0
  second : bs[i + 1]? = some flag1
  long : i + kPackageHeaderSize < bs.length

theorem flagAt_zero_iff (bs : Bytes) :
    FlagAt bs 0 ↔ kPackageHeaderSize < bs.length ∧ startsWithFlag bs = true := by
  constructor
  · rintro ⟨hfirst, hsecond, hlong⟩
    refine ⟨by omega, ?_⟩
    simp [startsWithFlag, List.getD_eq_getElem?_getD, hfirst, hsecond]
  · rintro ⟨hlong, hflag⟩
    simp only [startsWithFlag, Bool.and_eq_true, beq_iff_eq, List.getD_eq_getElem?_getD] at hflag
    unfold kPackageHeaderSize at hlong
    have h0 := List.getElem?_eq_getElem (l := bs) (i := 0) (by omega)
    have h1 := List.getElem?_eq_getElem (l := bs) (i := 1) (by omega)
    rw [h0, h1, Option.getD_some, Option.getD_some] at hflag
    refine ⟨by rw [h0, hflag.1], by rw [h1, hflag.2], ?_⟩
    unfold kPackageHeaderSize
    omega

theorem flagAt_succ_iff (x : Byte) (bs : Bytes) (i : ℕ) :
    FlagAt (x :: bs) (i + 1) ↔ FlagAt bs i := by
  constructor
  · rintro ⟨hfirst, hsecond, hlong⟩
    rw [List.length_cons] at hlong
    exact ⟨hfirst, hsecond, by omega⟩
  · rintro ⟨hfirst, hsecond, hlong⟩
    exact ⟨hfirst, hsecond, by rw [List.length_cons]; omega⟩

/-- The search stops at the first flag pair that has a header behind it. -/
theorem seek_of_flagAt (bs : Bytes) (i : ℕ) (h : FlagAt bs i)
    (hleast : ∀ j < i, ¬ FlagAt bs j) : seek bs = bs.drop i := by
  induction i generalizing bs with
  | zero => rw [seek_of_flag bs ((flagAt_zero_iff bs).mp h).2, List.drop_zero]
  | succ i ih =>
    cases bs with
    | nil => exact absurd h.first (by simp)
    | cons x rest =>
      have hlong : kPackageHeaderSize < (x :: rest).length :=
        Nat.lt_of_le_of_lt (Nat.le_add_left _ _) h.long
      have hflag : startsWithFlag (x :: rest) = false := by
        have hnot := hleast 0 (Nat.succ_pos i)
        rw [flagAt_zero_iff] at hnot
        exact Bool.eq_false_iff.mpr fun hflag => hnot ⟨hlong, hflag⟩
      rw [seek_of_noFlag _ hlong hflag, List.tail_cons, List.drop_succ_cons]
      refine ih rest ((flagAt_succ_iff x rest i).mp h) fun j hj hrest => ?_
      exact hleast (j + 1) (Nat.succ_lt_succ hj) ((flagAt_succ_iff x rest j).mpr hrest)

/-- Without one the search drops all but the last 20 bytes. -/
theorem seek_of_no_flagAt (bs : Bytes) (h : ∀ i, ¬ FlagAt bs i) :
    seek bs = bs.drop (bs.length - min bs.length kPackageHeaderSize) := by
  induction bs with
  | nil => rfl
  | cons x rest ih =>
    by_cases hlong : kPackageHeaderSize < (x :: rest).length
    · have hflag : startsWithFlag (x :: rest) = false := by
        have hnot := h 0
        rw [flagAt_zero_iff] at hnot
        exact Bool.eq_false_iff.mpr fun hflag => hnot ⟨hlong, hflag⟩
      have hcount : (x :: rest).length - min (x :: rest).length kPackageHeaderSize =
          rest.length - min rest.length kPackageHeaderSize + 1 := by
        rw [List.length_cons] at hlong ⊢
        omega
      rw [seek_of_noFlag _ hlong hflag, List.tail_cons, hcount, List.drop_succ_cons]
      exact ih fun i hrest => h (i + 1) ((flagAt_succ_iff x rest i).mpr hrest)
    · rw [seek_of_short _ (Nat.le_of_not_lt hlong), Nat.min_eq_left (Nat.le_of_not_lt hlong),
        Nat.sub_self, List.drop_zero]

/-- gotoFlag finds the first flag pair with more than 20 bytes from there on, or keeps the last 20
bytes; and after a search without success, what is appended is searched as if it had been there. -/
theorem gotoFlag_search (mem : Memory) (buf : Buffer) :
    ((∃ i, FlagAt buf.readable i) → ∃ i, IsLeast {j | FlagAt buf.readable j} i ∧
      (gotoFlag mem buf).value.1 = true ∧
      (gotoFlag mem buf).value.2.readable = buf.readable.drop i) ∧
    ((¬ ∃ i, FlagAt buf.readable i) →
      (gotoFlag mem buf).value.1 = false ∧
      (gotoFlag mem buf).value.2.readable =
        buf.readable.drop (buf.readable.length - min buf.readable.length kPackageHeaderSize)) ∧
    ((gotoFlag mem buf).value.1 = false → ∀ (later : Bytes) (mem' : Memory),
      (gotoFlag mem' ((gotoFlag mem buf).value.2.append later)).value.1 =
        (gotoFlag mem' (buf.append later)).value.1 ∧
      (gotoFlag mem' ((gotoFlag mem buf).value.2.append later)).value.2.readable =
        (gotoFlag mem' (buf.append later)).value.2.readable) := by
  obtain ⟨hrest, hfound⟩ := gotoFlag_value mem buf
  refine ⟨?_, ?_, ?_⟩
  · intro hflag
    classical
    have hat : FlagAt buf.readable (Nat.find hflag) := Nat.find_spec hflag
    have hseek := seek_of_flagAt buf.readable _ hat fun j hj => Nat.find_min hflag hj
    refine ⟨Nat.find hflag, ⟨hat, fun j hj => Nat.find_min' hflag hj⟩, ?_, by rw [hrest, hseek]⟩
    rw [hfound, hseek, List.length_drop, decide_eq_true_eq]
    exact Nat.lt_sub_of_add_lt (Nat.add_comm _ _ ▸ hat.long)
  · intro hnone
    have hseek := seek_of_no_flagAt buf.readable fun i hi => hnone ⟨i, hi⟩
    refine ⟨?_, by rw [hrest, hseek]⟩
    rw [hfound, hseek, List.length_drop, decide_eq_false_iff_not]
    omega
  · intro _ later mem'
    obtain ⟨hparted, hparted'⟩ := gotoFlag_value mem' ((gotoFlag mem buf).value.2.append later)
    obtain ⟨hwhole, hwhole'⟩ := gotoFlag_value mem' (buf.append later)
    have hsame : seek ((gotoFlag mem buf).value.2.append later).readable =
        seek (buf.append later).readable := by
      rw [Buffer.readable_append, Buffer.readable_append, hrest, seek_append]
    rw [hparted, hparted', hwhole, hwhole', hsame]
    exact ⟨rfl, rfl⟩

end AsioMsg
