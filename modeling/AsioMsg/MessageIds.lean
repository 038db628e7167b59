import AsioMsg.RefusedPost

/-!
The ids that a client gives to its messages. id_ wraps to INT_MIN, and the
remainder by INT_MAX has the sign of id_: the ids of a second half of 2^32 calls
are negative, and id 0 comes back with two calls in between where id_ is
INT_MAX and then -INT_MAX.
-/

namespace AsioMsg

variable {M : Type}

/-- The value of id_ after `n` calls. -/
def idAfter : ℕ → BitVec 32
  | 0 => 0
  | n + 1 => idAfter n + 1

/-- The id that call `n` gives; the first call is call 0. -/
def nthMsgId (n : ℕ) : BitVec 32 := nextMsgId (idAfter n)

/-- A value of the type int from 0 to INT_MAX - 1. -/
def IdInRange (id : BitVec 32) : Prop := 0 ≤ id.toInt ∧ id.toInt ≤ INT_MAX - 1

/-- Two calls, fewer than INT_MAX apart. -/
def NearCalls (n m : ℕ) : Prop :=
  0 < ((n : ℤ) - m).natAbs ∧ ((n : ℤ) - m).natAbs < INT_MAX

/-- id_ is INT_MAX in call `n` and -INT_MAX in call `m`. -/
def MeetAtZero (n m : ℕ) : Prop :=
  (idAfter (n + 1)).toInt = INT_MAX ∧ (idAfter (m + 1)).toInt = -INT_MAX

theorem idAfter_eq (n : ℕ) : idAfter n = BitVec.ofNat 32 n := by
  induction n with
  | zero => rfl
  | succ n ih =>
    rw [idAfter, ih, BitVec.ofNat_add]
    rfl

/-- id_ as an int is the number of calls, up to multiples of 2^32. -/
theorem idAfter_toInt (n : ℕ) :
    (n : ℤ) % 2 ^ 32 = (idAfter n).toInt % 2 ^ 32 ∧
      -2 ^ 31 ≤ (idAfter n).toInt ∧ (idAfter n).toInt < 2 ^ 31 := by
  rw [idAfter_eq, BitVec.toInt_ofNat', Int.bmod_def]
  split <;> omega

/-- The remainder of an int by INT_MAX, by the sign of the int. -/
theorem tmod_INT_MAX (v : ℤ) (hlow : -2 ^ 31 ≤ v) (hhigh : v < 2 ^ 31) :
    v.tmod INT_MAX =
      if v = INT_MAX ∨ v = -INT_MAX then 0 else if v = -2 ^ 31 then -1 else v := by
  unfold INT_MAX
  split
  · next h => rcases h with rfl | rfl <;> decide
  · next h =>
    split
    · next hmin =>
      subst hmin
      decide
    · next hmin =>
      rcases Int.le_total 0 v with hpos | hneg
      · exact Int.tmod_eq_of_lt hpos (by omega)
      · have hflip : (-v).tmod ((2 ^ 31 - 1 : ℕ) : ℤ) = -v :=
          Int.tmod_eq_of_lt (by omega) (by omega)
        rw [Int.neg_tmod] at hflip
        omega

theorem nthMsgId_toInt (n : ℕ) :
    (nthMsgId n).toInt =
      if (idAfter (n + 1)).toInt = INT_MAX ∨ (idAfter (n + 1)).toInt = -INT_MAX then 0
      else if (idAfter (n + 1)).toInt = -2 ^ 31 then -1 else (idAfter (n + 1)).toInt := by
  have hmax : (BitVec.ofNat 32 INT_MAX).toInt = INT_MAX := by decide
  obtain ⟨_, hlow, hhigh⟩ := idAfter_toInt (n + 1)
  rw [← tmod_INT_MAX _ hlow hhigh, nthMsgId, nextMsgId, BitVec.toInt_srem, hmax]
  rfl

theorem nthMsgId_inRange_iff (n : ℕ) :
    IdInRange (nthMsgId n) ↔
      0 ≤ (idAfter (n + 1)).toInt ∨ (idAfter (n + 1)).toInt = -INT_MAX := by
  obtain ⟨_, hlow, hhigh⟩ := idAfter_toInt (n + 1)
  rw [IdInRange, nthMsgId_toInt]
  unfold INT_MAX
  split
  · omega
  · split <;> omega

theorem nthMsgId_ne_iff {n m : ℕ} (h : NearCalls n m) :
    nthMsgId n ≠ nthMsgId m ↔ ¬ MeetAtZero n m ∧ ¬ MeetAtZero m n := by
  obtain ⟨hn, hnlow, hnhigh⟩ := idAfter_toInt (n + 1)
  obtain ⟨hm, hmlow, hmhigh⟩ := idAfter_toInt (m + 1)
  unfold NearCalls INT_MAX at h
  rw [ne_eq, ← BitVec.toInt_inj, nthMsgId_toInt, nthMsgId_toInt, MeetAtZero, MeetAtZero]
  generalize (idAfter (n + 1)).toInt = v at *
  generalize (idAfter (m + 1)).toInt = w at *
  -- the calls are as far apart as their values of id_, up to one turn of the counter
  have hturn : (n : ℤ) - m = v - w ∨ (n : ℤ) - m = v - w + 2 ^ 32 ∨
      (n : ℤ) - m = v - w - 2 ^ 32 := by
    omega
  clear hn hm
  unfold INT_MAX
  repeat' split
  all_goals omega

/-- The ids of the calls, for every call and every pair of calls. -/
theorem msgIds_iff (n m : ℕ) :
    (IdInRange (nthMsgId n) ↔
      0 ≤ (idAfter (n + 1)).toInt ∨ (idAfter (n + 1)).toInt = -INT_MAX) ∧
    (NearCalls n m → (nthMsgId n ≠ nthMsgId m ↔ ¬ MeetAtZero n m ∧ ¬ MeetAtZero m n)) :=
  ⟨nthMsgId_inRange_iff n, nthMsgId_ne_iff⟩

theorem msgIds_near : IdInRange (nthMsgId 0) ∧ nthMsgId 0 ≠ nthMsgId 1 :=
  ⟨(msgIds_iff 0 1).1.mpr (Or.inl (by decide)),
    ((msgIds_iff 0 1).2 ⟨by decide, by decide⟩).mpr
      ⟨fun h => absurd h.1 (by decide), fun h => absurd h.1 (by decide)⟩⟩

/-- Call INT_MAX gets the id -1; the calls right before and right after it both get 0. -/
theorem msgIds_fail :
    (¬ ∀ n, IdInRange (nthMsgId n)) ∧ ¬ ∀ n m, NearCalls n m → nthMsgId n ≠ nthMsgId m := by
  have hnth (n : ℕ) : nthMsgId n = nextMsgId (BitVec.ofNat 32 n) := by rw [nthMsgId, idAfter_eq]
  constructor
  · intro h
    have hrange := h (2 ^ 31 - 1)
    rw [hnth, IdInRange] at hrange
    exact absurd hrange.1 (by decide)
  · intro h
    refine h (2 ^ 31 - 2) (2 ^ 31) ⟨by decide, by decide⟩ ?_
    rw [hnth, hnth]
    decide

namespace AsioClient

variable {cfg : ClientConfig M} {c d : AsioClient M}

theorem id_of_run (labels : List (ClientAction M)) (n : ℕ) (hid : c.id = idAfter n)
    (h : (machine cfg).run (fun _ _ => True) c labels = some d) :
    d.id = idAfter (n + labels.countP takesId) := by
  induction labels generalizing c n with
  | nil =>
    rw [Machine.run, Option.some.injEq] at h
    exact h ▸ hid
  | cons a rest ih =>
    rw [Machine.run, if_pos trivial] at h
    obtain ⟨e, he, hrest⟩ := Option.bind_eq_some_iff.mp h
    have hstep := (Steps.of_step he).id_eq
    rw [List.countP_cons]
    by_cases ha : takesId a = true
    · rw [if_pos ha] at hstep ⊢
      rw [ih (n + 1) (by rw [hstep, hid, idAfter]) hrest]
      congr 1
      omega
    · rw [if_neg ha] at hstep ⊢
      exact ih n (hstep.trans hid) hrest

/-- The id of the next message, in every order of calls and of everything else. -/
theorem nextId_of_run (labels : List (ClientAction M))
    (h : (machine cfg).run (fun _ _ => True) { connects := 1 } labels = some c) :
    c.nextId = nthMsgId (labels.countP takesId) := by
  rw [nextId, id_of_run labels 0 rfl h, nthMsgId, Nat.zero_add]

/-- A request replaces the entry of another one exactly when it has its id. -/
theorem postMessage_keeps_iff (h : Numbered c) (b : Build M) (isOrder : Bool) (msg : M)
    (msgId : BitVec 32) :
    (c.postMessage b isOrder msg).requestMessage.cache msgId = c.requestMessage.cache msgId ↔
      msgId ≠ c.nextId := by
  constructor
  · rintro hsame rfl
    have hnew := post_cache_self b c isOrder msg
    rw [post_requestMessage] at hnew
    exact Nat.lt_irrefl _ (h _ _ (hsame.symm.trans hnew))
  · exact fun hne => RequestMessage.put_cache_of_ne _ _ _ hne

end AsioClient

end AsioMsg
