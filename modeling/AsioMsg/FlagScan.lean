import AsioMsg.Package

/-!
The flag search of ProtoHelp.cpp. The loop drops single bytes until the flag
pair is in front or at most 20 bytes are left; on the readable bytes it is the
list function `seek`. A flag pair that still has its header behind it is never
stepped over.
-/

namespace AsioMsg

def startsWithFlag (bs : Bytes) : Bool := bs.getD 0 0 == flag0 && bs.getD 1 0 == flag1

def gotoFlag (mem : Memory) (buf : Buffer) : Traced Access (Bool × Buffer) :=
  if kPackageHeaderSize < buf.readableBytes then
    if startsWithFlag (buf.peekBytes mem 2) then
      return (true, buf)
    else
      (gotoFlag mem (buf.retrieve 1).value).after (buf.retrieve 1).log
  else
    return (false, buf)
termination_by buf.readableBytes
decreasing_by
  rw [Buffer.readableBytes_retrieve]
  omega

/-- The bytes from the first flag pair with more than 20 bytes, or the last 20. -/
def seek : Bytes → Bytes
  | [] => []
  | b :: rest =>
      if kPackageHeaderSize < rest.length + 1 then
        if startsWithFlag (b :: rest) then b :: rest else seek rest
      else b :: rest

theorem startsWithFlag_append (bs rest : Bytes) (h : 2 ≤ bs.length) :
    startsWithFlag (bs ++ rest) = startsWithFlag bs := by
  simp only [startsWithFlag, List.getD_eq_getElem?_getD,
    List.getElem?_append_left (show 0 < bs.length by omega),
    List.getElem?_append_left (show 1 < bs.length by omega)]

theorem startsWithFlag_take (bs : Bytes) (h : 2 ≤ bs.length) :
    startsWithFlag (bs.take 2) = startsWithFlag bs := by
  have hlen : (bs.take 2).length = 2 := by simp only [List.length_take, Nat.min_eq_left h]
  rw [← startsWithFlag_append (bs.take 2) (bs.drop 2) (by omega), List.take_append_drop]

theorem flag_ofWire (bs : Bytes) (h : startsWithFlag bs = true) :
    (PacHeader.ofWire bs).flag = (flag0, flag1) := by
  simp only [startsWithFlag, Bool.and_eq_true, beq_iff_eq] at h
  change (bs.getD 0 0, bs.getD 1 0) = _
  rw [h.1, h.2]

theorem seek_of_short (bs : Bytes) (h : bs.length ≤ kPackageHeaderSize) : seek bs = bs := by
  cases bs with
  | nil => rfl
  | cons b rest => rw [seek, if_neg (by simpa using h)]

theorem seek_of_flag (bs : Bytes) (h : startsWithFlag bs = true) : seek bs = bs := by
  cases bs with
  | nil => rfl
  | cons b rest => rw [seek, if_pos h, ite_self]

theorem seek_of_noFlag (bs : Bytes) (hlen : kPackageHeaderSize < bs.length)
    (h : startsWithFlag bs = false) : seek bs = seek bs.tail := by
  cases bs with
  | nil => rfl
  | cons b rest =>
    rw [seek, if_pos (by simpa using hlen), if_neg (by simp [h]), List.tail_cons]

theorem seek_suffix (bs : Bytes) : seek bs <:+ bs := by
  induction bs with
  | nil => exact List.suffix_refl _
  | cons b rest ih =>
    rw [seek]
    split
    · split
      · exact List.suffix_refl _
      · exact ih.trans (List.suffix_cons b rest)
    · exact List.suffix_refl _

theorem seek_length_le (bs : Bytes) : (seek bs).length ≤ bs.length := (seek_suffix bs).length_le

/-- Whatever has more than 20 bytes after the search starts with the flag pair. -/
theorem startsWithFlag_seek (bs : Bytes) (h : kPackageHeaderSize < (seek bs).length) :
    startsWithFlag (seek bs) = true := by
  induction bs with
  | nil => simp [seek] at h
  | cons b rest ih =>
    rw [seek] at h ⊢
    split at h
    · next hlong =>
      rw [if_pos hlong]
      split at h
      · next hflag =>
        rw [if_pos hflag]
        exact hflag
      · next hflag =>
        rw [if_neg hflag]
        exact ih h
    · next hshort =>
      simp only [List.length_cons] at h
      exact absurd h hshort

theorem seek_seek (bs : Bytes) : seek (seek bs) = seek bs := by
  by_cases h : kPackageHeaderSize < (seek bs).length
  · exact seek_of_flag _ (startsWithFlag_seek bs h)
  · exact seek_of_short _ (Nat.le_of_not_lt h)

/-- Searching a part first drops nothing that the search of the whole would keep. -/
theorem seek_append (part later : Bytes) : seek (seek part ++ later) = seek (part ++ later) := by
  induction part with
  | nil => rfl
  | cons x part ih =>
    by_cases hlong : kPackageHeaderSize < (x :: part).length
    · cases hflag : startsWithFlag (x :: part) with
      | true => rw [seek_of_flag _ hflag]
      | false =>
        have hwhole : startsWithFlag (x :: part ++ later) = false := by
          unfold kPackageHeaderSize at hlong
          rw [startsWithFlag_append _ _ (by omega), hflag]
        rw [seek_of_noFlag _ hlong hflag, List.tail_cons, ih,
          seek_of_noFlag (x :: part ++ later) (by rw [List.length_append]; omega) hwhole]
        rfl
    · rw [seek_of_short _ (Nat.le_of_not_lt hlong)]

theorem peekFlag_eq (mem : Memory) (buf : Buffer) (h : kPackageHeaderSize < buf.readableBytes) :
    startsWithFlag (buf.peekBytes mem 2) = startsWithFlag buf.readable := by
  have h2 : 2 ≤ buf.readableBytes := by
    unfold kPackageHeaderSize at h
    omega
  rw [Buffer.peekBytes_eq mem buf 2 h2, startsWithFlag_take _ (by rwa [Buffer.readable_length])]

/-- On the readable bytes the loop is `seek`; it reports whether more than 20 are left. -/
theorem gotoFlag_value (mem : Memory) (buf : Buffer) :
    (gotoFlag mem buf).value.2.readable = seek buf.readable ∧
      (gotoFlag mem buf).value.1 = decide (kPackageHeaderSize < (seek buf.readable).length) := by
  induction buf using gotoFlag.induct mem with
  | case1 buf hlong hflag =>
    rw [gotoFlag, if_pos hlong, if_pos hflag]
    rw [peekFlag_eq mem buf hlong] at hflag
    simp [seek_of_flag _ hflag, hlong]
  | case2 buf hlong hflag ih =>
    rw [gotoFlag, if_pos hlong, if_neg hflag]
    rw [peekFlag_eq mem buf hlong, Bool.not_eq_true] at hflag
    rw [seek_of_noFlag _ (by rwa [Buffer.readable_length]) hflag]
    simpa only [Traced.after_value, Buffer.readable_retrieve, List.drop_one] using ih
  | case3 buf hshort =>
    rw [gotoFlag, if_neg hshort]
    simp [seek_of_short buf.readable (by rw [Buffer.readable_length]; omega), hshort]

/-- The search retrieves one byte at a time, and more than 20 are there each time. -/
theorem gotoFlag_safe (mem : Memory) (buf : Buffer) :
    (gotoFlag mem buf).All Access.Safe := by
  induction buf using gotoFlag.induct mem with
  | case1 buf hlong hflag =>
    rw [gotoFlag, if_pos hlong, if_pos hflag]
    exact Traced.all_pure _ _
  | case2 buf hlong hflag ih =>
    rw [gotoFlag, if_pos hlong, if_neg hflag, Traced.all_after]
    refine ⟨?_, ih⟩
    intro e he
    rw [Buffer.retrieve_log, List.mem_singleton] at he
    subst e
    simp only [Access.Safe]
    omega
  | case3 buf hshort =>
    rw [gotoFlag, if_neg hshort]
    exact Traced.all_pure _ _

end AsioMsg
