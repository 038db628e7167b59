import AsioMsg.ClientSteps
import AsioMsg.PingPong

/-!
The write queue of the client. As long as writes succeed and packages encode,
the one outstanding write is that of the front of pendingList_. A failed write
stays in front with nothing to write it again, and a reconnect does not help.
-/

namespace AsioMsg

variable {M : Type}

namespace AsioClient

variable {cfg : ClientConfig M} {c d : AsioClient M} {a : ClientAction M}

/-- An async_write completes with an error. -/
def writeFails : ClientAction M → Bool
  | .writeDone _ success => !success
  | _ => false

/-- The package that a step takes from the front of pendingList_ to encode and write it. -/
def nextWrite (c : AsioClient M) : ClientAction M → Option (PackagePtr M)
  | .runPosted i =>
    match c.posted[i]? with
    | some (.startWrite p) => if c.pendingList = [] then some p else none
    | _ => none
  | .writeDone _ true => c.pendingList.tail.head?
  | _ => none

/-- What a step does to the write queue. -/
theorem Steps.queue (h : Steps cfg c a d) :
    (writeFails a = false ∧ c.nextWrite a = none ∧
      d.pendingList = c.pendingList ∧ d.writes = c.writes) ∨
    (∃ p, writeFails a = false ∧ c.nextWrite a = (if c.pendingList = [] then some p else none) ∧
      d.pendingList = c.pendingList ++ [p] ∧
      d.writes = c.writes ++ if c.pendingList = [] then cfg.started [p] else []) ∨
    (∃ i p, a = .writeDone i false ∧ c.writes[i]? = some p ∧ d.pendingList = c.pendingList ∧
      d.writes = c.writes.eraseIdx i) ∨
    ∃ i p, a = .writeDone i true ∧ c.nextWrite a = c.pendingList.tail.head? ∧
      c.writes[i]? = some p ∧ d.pendingList = c.pendingList.tail ∧
      d.writes = c.writes.eraseIdx i ++ cfg.started c.pendingList.tail := by
  cases h with
  | postMessage isOrder msg => exact Or.inl ⟨rfl, rfl, rfl, rfl⟩
  | @postCall i call _ =>
    rcases postCall_eq c i call with h | h <;> rw [h] <;> exact Or.inl ⟨rfl, rfl, rfl, rfl⟩
  | publishMessage msg =>
    rw [publishMessage_frame]
    exact Or.inl ⟨rfl, rfl, rfl, rfl⟩
  | postPackage pac =>
    rw [postPackage_frame]
    exact Or.inl ⟨rfl, rfl, rfl, rfl⟩
  | stop => exact Or.inl ⟨rfl, rfl, rfl, rfl⟩
  | startWrite hget hrun =>
    obtain rfl := startWrite_eq hrun
    exact Or.inr (Or.inl ⟨_, rfl, by simp only [nextWrite, hget], rfl, rfl⟩)
  | doClose hget =>
    rw [doClose_frame]
    exact Or.inl ⟨rfl, by simp only [nextWrite, hget], rfl, rfl⟩
  | doConnect success _ =>
    rw [doConnect_frame]
    exact Or.inl ⟨rfl, rfl, rfl, rfl⟩
  | readError _ => exact Or.inl ⟨rfl, rfl, rfl, rfl⟩
  | doRead _ hread =>
    obtain ⟨_, hd⟩ := Option.ite_none_left_eq_some.mp hread
    obtain rfl := Option.some.inj hd
    exact Or.inl ⟨rfl, rfl, rfl, rfl⟩
  | writeDone hget hdone =>
    rcases writeDone_eq hdone with ⟨rfl, rfl⟩ | ⟨rfl, rfl⟩
    · exact Or.inr (Or.inr (Or.inl ⟨_, _, rfl, hget, rfl, rfl⟩))
    · exact Or.inr (Or.inr (Or.inr ⟨_, _, rfl, rfl, hget, rfl, rfl⟩))
  | timerAborted _ _ => exact Or.inl ⟨rfl, rfl, rfl, rfl⟩
  | timerExpired _ => exact Or.inl ⟨rfl, rfl, rfl, rfl⟩
  | doResponse _ => exact Or.inl ⟨rfl, rfl, rfl, rfl⟩

/-- Whenever the client is online, the front of a non-empty pendingList_ is being written, and
nothing else. -/
def FrontInFlight (c : AsioClient M) : Prop :=
  c.isOnline = true → c.pendingList ≠ [] → ∃ p rest, c.pendingList = p :: rest ∧ c.writes = [p]

/-- No write completes with an error, and a package that startWrite() takes encodes. -/
def NoWriteFailure (cfg : ClientConfig M) (c : AsioClient M) (a : ClientAction M) : Prop :=
  writeFails a = false ∧ ∀ p ∈ c.nextWrite a, cfg.encodes p = true

instance (c : AsioClient M) (a : ClientAction M) : Decidable (NoWriteFailure cfg c a) :=
  inferInstanceAs (Decidable (_ ∧ _))

/-- The queue moves: its front, and only its front, is being written. -/
def Flowing (c : AsioClient M) : Prop := c.writes = c.pendingList.take 1

/-- Packages wait, and nothing is being written. -/
def Blocked (c : AsioClient M) : Prop := c.pendingList ≠ [] ∧ c.writes = []

theorem started_eq_take {l : List (PackagePtr M)} (h : ∀ p ∈ l.head?, cfg.encodes p = true) :
    cfg.started l = l.take 1 := by
  cases l with
  | nil => rfl
  | cons p rest => simp [ClientConfig.started, h p rfl]

theorem started_eq_nil {l : List (PackagePtr M)} (h : ¬ ∀ p ∈ l.head?, cfg.encodes p = true) :
    l ≠ [] ∧ cfg.started l = [] := by
  cases l with
  | nil => simp at h
  | cons p rest => simpa [ClientConfig.started] using h

/-- The only outstanding write is gone when it completes. -/
theorem Flowing.eraseIdx_writes (h : Flowing c) {i : ℕ} {p : PackagePtr M}
    (hget : c.writes[i]? = some p) : c.pendingList ≠ [] ∧ c.writes.eraseIdx i = [] := by
  obtain ⟨hi, _⟩ := List.getElem?_eq_some_iff.mp hget
  have hlen : c.writes.length = min 1 c.pendingList.length := by
    rw [h, List.length_take]
  have hne : c.pendingList ≠ [] := by
    intro hnil
    rw [hnil, List.length_nil] at hlen
    omega
  refine ⟨hne, ?_⟩
  rw [← List.length_eq_zero_iff, List.length_eraseIdx, if_pos hi]
  omega

/-- A step without a write failure keeps the queue moving. -/
theorem Flowing.step (h : Flowing c) (hok : NoWriteFailure cfg c a)
    (hstep : Steps cfg c a d) : Flowing d := by
  obtain ⟨hfails, hencodes⟩ := hok
  rcases hstep.queue with ⟨_, _, hlist, hwrites⟩ | ⟨p, _, hnext, hlist, hwrites⟩ |
    ⟨i, p, rfl, _⟩ | ⟨i, p, rfl, hnext, hget, hlist, hwrites⟩
  · rw [Flowing, hwrites, hlist, h]
  · rw [hnext] at hencodes
    rw [Flowing, hwrites, hlist, h]
    cases hempty : c.pendingList with
    | nil =>
      rw [hempty, if_pos rfl] at hencodes
      rw [if_pos rfl, started_eq_take hencodes]
      rfl
    | cons q rest => simp
  · simp [writeFails] at hfails
  · rw [hnext] at hencodes
    rw [Flowing, hwrites, hlist, (h.eraseIdx_writes hget).2, List.nil_append,
      started_eq_take hencodes]

/-- A write failure leaves its package in front with no write outstanding. -/
theorem Flowing.blocked (h : Flowing c) (hbad : ¬ NoWriteFailure cfg c a)
    (hstep : Steps cfg c a d) : Blocked d := by
  rcases hstep.queue with ⟨hfails, hnext, _⟩ | ⟨p, hfails, hnext, hlist, hwrites⟩ |
    ⟨i, p, _, hget, hlist, hwrites⟩ | ⟨i, p, rfl, hnext, hget, hlist, hwrites⟩
  · exact absurd ⟨hfails, by simp [hnext]⟩ hbad
  · rw [NoWriteFailure, hnext, and_iff_right hfails] at hbad
    by_cases hempty : c.pendingList = []
    · rw [if_pos hempty] at hbad hwrites
      rw [h, hempty, List.take_nil, List.nil_append] at hwrites
      exact ⟨by simp [hlist], hwrites.trans (started_eq_nil hbad).2⟩
    · simp [hempty] at hbad
  · obtain ⟨hne, herase⟩ := h.eraseIdx_writes hget
    exact ⟨by rwa [hlist], by rw [hwrites, herase]⟩
  · have hfails : writeFails (.writeDone i true : ClientAction M) = false := rfl
    rw [NoWriteFailure, hnext, and_iff_right hfails] at hbad
    obtain ⟨hne, hnil⟩ := started_eq_nil hbad
    refine ⟨by rwa [hlist], ?_⟩
    rw [hwrites, (h.eraseIdx_writes hget).2, hnil, List.nil_append]

/-- Nothing gets a blocked queue moving again. -/
theorem Blocked.step (h : Blocked c) (hstep : Steps cfg c a d) : Blocked d := by
  obtain ⟨hne, hnil⟩ := h
  rcases hstep.queue with ⟨_, _, hlist, hwrites⟩ | ⟨p, _, _, hlist, hwrites⟩ |
    ⟨i, p, _, hget, _⟩ | ⟨i, p, _, _, hget, _⟩
  · exact ⟨by rwa [hlist], by rw [hwrites, hnil]⟩
  · exact ⟨by simp [hlist], by rw [hwrites, hnil, if_neg hne, List.nil_append]⟩
  · simp [hnil] at hget
  · simp [hnil] at hget

theorem Flowing.frontInFlight (h : Flowing c) : FrontInFlight c := by
  intro _ hne
  obtain ⟨p, rest, hlist⟩ := List.exists_cons_of_ne_nil hne
  refine ⟨p, rest, hlist, ?_⟩
  rw [h, hlist]
  rfl

theorem Blocked.frontInFlight_offline (h : Blocked c) : FrontInFlight c ↔ c.isOnline = false := by
  constructor
  · intro hfront
    by_contra honline
    obtain ⟨p, rest, _, hwrites⟩ := hfront (Bool.not_eq_false _ ▸ honline) h.1
    simp [h.2] at hwrites
  · intro hoffline honline
    simp [hoffline] at honline

/-- At the end of a run the front is in flight iff the client is offline or no write has failed in
the run. -/
theorem frontInFlight_iff (labels : List (ClientAction M)) (c : AsioClient M)
    (hrun : (machine cfg).run (fun _ _ => True) (machine cfg).init labels = some c) :
    FrontInFlight c ↔ c.isOnline = false ∨
      (machine cfg).run (NoWriteFailure cfg) (machine cfg).init labels = some c := by
  have hcases : ((machine cfg).run (NoWriteFailure cfg) (machine cfg).init labels = some c ∧
        Flowing c) ∨
      ((machine cfg).run (NoWriteFailure cfg) (machine cfg).init labels = none ∧ Blocked c) := by
    refine (machine cfg).run_cases (NoWriteFailure cfg) (G := Flowing) (B := Blocked) ?_ ?_ ?_
      labels _ c rfl hrun
    · exact fun _ _ _ hs hok hstep => hs.step hok (.of_step hstep)
    · exact fun _ _ _ hs hok hstep => hs.blocked hok (.of_step hstep)
    · exact fun _ _ _ hs hstep => hs.step (.of_step hstep)
  rcases hcases with ⟨hkept, hflow⟩ | ⟨hbroken, hblocked⟩
  · exact iff_of_true hflow.frontInFlight (Or.inr hkept)
  · rw [hblocked.frontInFlight_offline, hbroken]
    simp

/-- A client of the PingPong service that reconnects. -/
def pingConfig : ClientConfig PingPong := ⟨PingPong.build false, PingPong.memory, -1, true⟩

/-- Two packages are posted and the first is written. -/
def pingWrites : List (ClientAction PingPong) :=
  [.doConnect true, .publishMessage PingPong.blank, .publishMessage PingPong.blank, .runPosted 0,
    .runPosted 0, .writeDone 0 true]

theorem frontInFlight_ping :
    ∃ c : AsioClient PingPong, c.isOnline = true ∧ c.pendingList.length = 1 ∧
      ((machine pingConfig).run (NoWriteFailure pingConfig) (machine pingConfig).init
        pingWrites).isSome ∧
      (FrontInFlight c ↔ c.isOnline = false ∨
        (machine pingConfig).run (NoWriteFailure pingConfig) (machine pingConfig).init pingWrites =
          some c) := by
  have hrun : ∃ c, (machine pingConfig).run (fun _ _ => True) (machine pingConfig).init
      pingWrites = some c ∧ c.isOnline = true ∧ c.pendingList.length = 1 := ⟨_, rfl, rfl, rfl⟩
  obtain ⟨c, hc, honline, hlist⟩ := hrun
  exact ⟨c, honline, hlist, rfl, frontInFlight_iff pingWrites c hc⟩

/-- After a write error and a reconnect the client is online with a package in front that nothing
writes. -/
theorem frontInFlight_fails :
    ¬ ∀ c : AsioClient PingPong, (machine pingConfig).Reachable c → FrontInFlight c := by
  intro hall
  have hrun : ∃ c : AsioClient PingPong, (machine pingConfig).run (fun _ _ => True)
      { connects := 1 } [.doConnect true, .publishMessage PingPong.blank, .runPosted 0,
        .writeDone 0 false, .runPosted 0, .doConnect true] = some c ∧
      c.isOnline = true ∧ c.pendingList.length = 1 ∧ c.writes.length = 0 :=
    ⟨_, rfl, rfl, rfl, rfl⟩
  obtain ⟨c, hc, honline, hlist, hwrites⟩ := hrun
  obtain ⟨p, rest, _, hfront⟩ := hall c (Machine.reachableWhen_of_run _ hc) honline (by
    intro hnil
    simp [hnil] at hlist)
  simp [hfront] at hwrites

end AsioClient

end AsioMsg
