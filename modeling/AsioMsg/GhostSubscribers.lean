import AsioMsg.AsioServer

/-!
Sessions that leave while their subscription requests are being handled. The
thread of io_ starts sessions, dispatches their requests and runs leave, which
takes two locks one after the other; the calls of a dispatched doSubscribe are
made one by one on other threads, between these steps and after them.
-/

namespace AsioMsg

namespace SessionRoom

/-- leave under sessionMutex_. -/
def removeSession (r : SessionRoom) (id : ℤ) : SessionRoom :=
  { r with sessionCache := r.sessionCache.erase id }

/-- leave under protoMutex_. -/
def removeId (r : SessionRoom) (id : ℤ) : SessionRoom :=
  { r with
    subscribeCache := fun name => (r.subscribeCache name).erase id
    deliverCache := fun name => (r.deliverCache name).erase id }

/-- With nothing in between, the two halves are what leave does. -/
theorem leave_eq (r : SessionRoom) (id : ℤ) :
    r.leave id = (r.removeSession id).removeId id := rfl

theorem mem_table_removeSession (r : SessionRoom) (sessionId : ℤ) (t : MsgType) (name : Bytes)
    (id : ℤ) : id ∈ (r.removeSession sessionId).table t name ↔ id ∈ r.table t name := by
  cases t <;> rfl

theorem mem_table_removeId (r : SessionRoom) (sessionId : ℤ) (t : MsgType) (name : Bytes)
    (id : ℤ) :
    id ∈ (r.removeId sessionId).table t name ↔ id ≠ sessionId ∧ id ∈ r.table t name := by
  cases t <;> simp [table, removeId]

end SessionRoom

/-- The room with the threads around it. -/
structure ServerRoom where
  room : SessionRoom := {}
  /-- Sessions are numbered from 1 on as they start. -/
  sessions : ℕ := 0
  /-- The session whose leave has taken the first of its two locks. -/
  leaving : Option ℤ := none
  /-- The sessions whose leave has returned. -/
  left : Finset ℤ := ∅
  /-- The calls still to be made by each dispatched doSubscribe. -/
  tasks : List (List RoomCall) := []

inductive ServerRoomAction
  | start
  | handleMessage (sessionId : ℤ) (msg : SubscribeReq)
  | leave (sessionId : ℤ)
  | finishLeave
  | nextCall (i : ℕ)

namespace ServerRoom

def Started (s : ServerRoom) (id : ℤ) : Prop := 1 ≤ id ∧ id ≤ s.sessions

instance (s : ServerRoom) (id : ℤ) : Decidable (s.Started id) :=
  inferInstanceAs (Decidable (_ ∧ _))

/-- Session::start joins the room under the next id. -/
def start (s : ServerRoom) : ServerRoom :=
  { s with room := s.room.join (s.sessions + 1), sessions := s.sessions + 1 }

/-- The next call of a task and what is left of the task. -/
def nextTask (s : ServerRoom) (i : ℕ) : Option (RoomCall × List RoomCall) :=
  (s.tasks[i]?).bind fun task => task.head?.map fun call => (call, task.tail)

/-- The thread of io_ does one thing at a time: while a leave is between its locks it does
nothing else. -/
def step (s : ServerRoom) : ServerRoomAction → Option ServerRoom
  | .start => if s.leaving = none then some s.start else none
  | .handleMessage sessionId msg =>
    if s.leaving = none ∧ s.Started sessionId then
      some { s with tasks := s.tasks ++ (doSubscribe sessionId msg).toList }
    else none
  | .leave sessionId =>
    if s.leaving = none ∧ s.Started sessionId then
      some { s with room := s.room.removeSession sessionId, leaving := some sessionId }
    else none
  | .finishLeave => s.leaving.map fun sessionId =>
      { s with
        room := s.room.removeId sessionId
        leaving := none
        left := insert sessionId s.left }
  | .nextCall i => (s.nextTask i).map fun task =>
      { s with room := task.1.apply s.room, tasks := s.tasks.set i task.2 }

def machine : Machine ServerRoom ServerRoomAction where
  init := {}
  step := step

/-- Every id in a table is that of a session that has started and has not left. -/
def NoGhosts (s : ServerRoom) : Prop :=
  ∀ t name, ∀ id ∈ s.room.table t name, s.Started id ∧ id ∉ s.left

/-- A call that subscribes is made for a session that has not left. -/
def SubscribesPresent (left : Finset ℤ) : RoomCall → Prop
  | .addSubscribe id msgtype _ =>
    msgtype = MsgType.PUBSUB.toInt ∨ msgtype = MsgType.DELIVER.toInt → id ∉ left
  | _ => True

instance (left : Finset ℤ) (call : RoomCall) : Decidable (SubscribesPresent left call) :=
  match call with
  | .addSubscribe id msgtype _ => inferInstanceAs (Decidable
      (msgtype = MsgType.PUBSUB.toInt ∨ msgtype = MsgType.DELIVER.toInt → id ∉ left))
  | .join _ | .leave _ | .delSubscribe .. => inferInstanceAs (Decidable True)

/-- No task makes a subscribing call for a session whose leave has returned. -/
def InTime (s : ServerRoom) : ServerRoomAction → Prop
  | .nextCall i => ∀ task ∈ s.nextTask i, SubscribesPresent s.left task.1
  | _ => True

instance (s : ServerRoom) (a : ServerRoomAction) : Decidable (s.InTime a) :=
  match a with
  | .nextCall i => inferInstanceAs
      (Decidable (∀ task ∈ s.nextTask i, SubscribesPresent s.left task.1))
  | .start | .handleMessage .. | .leave _ | .finishLeave => inferInstanceAs (Decidable True)

/-- The calls of a doSubscribe of a session that has started. -/
def Issued (s : ServerRoom) : RoomCall → Prop
  | .addSubscribe id _ _ => s.Started id
  | .delSubscribe _ _ _ => True
  | _ => False

def Inv (s : ServerRoom) : Prop := ∀ task ∈ s.tasks, ∀ call ∈ task, s.Issued call

variable {s t : ServerRoom}

theorem Started.mono {id : ℤ} (h : s.Started id) (hle : s.sessions ≤ t.sessions) :
    t.Started id :=
  ⟨h.1, h.2.trans (Int.ofNat_le.mpr hle)⟩

theorem Issued.mono {call : RoomCall} (h : s.Issued call) (hle : s.sessions ≤ t.sessions) :
    t.Issued call := by
  cases call with
  | addSubscribe id msgtype name => exact Started.mono h hle
  | delSubscribe | join | leave => exact h

theorem issued_doSubscribe {sessionId : ℤ} (h : s.Started sessionId) (msg : SubscribeReq) :
    ∀ task ∈ doSubscribe sessionId msg, ∀ call ∈ task, s.Issued call := by
  intro task htask call hcall
  obtain ⟨_, hcalls⟩ := Option.ite_none_left_eq_some.mp htask
  obtain rfl := Option.some.inj hcalls
  obtain ⟨entry, _, rfl⟩ := List.mem_map.mp hcall
  by_cases htype : msg.type = 1
  · rw [if_pos htype]
    exact h
  · rw [if_neg htype]
    trivial

/-- What a task calls next was among its calls, and so is what is left of it. -/
theorem nextTask_mem {i : ℕ} {call : RoomCall} {rest : List RoomCall}
    (h : s.nextTask i = some (call, rest)) : call :: rest ∈ s.tasks := by
  obtain ⟨task, hget, htask⟩ := Option.bind_eq_some_iff.mp h
  cases task with
  | nil => simp at htask
  | cons first later =>
    simp only [List.head?_cons, Option.map_some, List.tail_cons, Option.some.injEq,
      Prod.mk.injEq] at htask
    obtain ⟨rfl, rfl⟩ := htask
    exact List.mem_of_getElem? hget

theorem Inv.step (h : s.Inv) {a : ServerRoomAction} (hstep : s.step a = some t) : t.Inv := by
  cases a with
  | start =>
    obtain ⟨_, ht⟩ := Option.ite_none_right_eq_some.mp hstep
    obtain rfl := Option.some.inj ht
    exact fun task htask call hcall => (h task htask call hcall).mono (Nat.le_succ _)
  | handleMessage sessionId msg =>
    obtain ⟨⟨_, hstarted⟩, ht⟩ := Option.ite_none_right_eq_some.mp hstep
    obtain rfl := Option.some.inj ht
    intro task htask
    rcases List.mem_append.mp htask with hold | hnew
    · exact h task hold
    · exact issued_doSubscribe hstarted msg task (Option.mem_toList.mp hnew)
  | leave sessionId =>
    obtain ⟨_, ht⟩ := Option.ite_none_right_eq_some.mp hstep
    obtain rfl := Option.some.inj ht
    exact h
  | finishLeave =>
    obtain ⟨sessionId, _, rfl⟩ := Option.map_eq_some_iff.mp hstep
    exact h
  | nextCall i =>
    obtain ⟨⟨call, rest⟩, hnext, rfl⟩ := Option.map_eq_some_iff.mp hstep
    intro task htask
    rcases List.mem_or_eq_of_mem_set htask with hold | rfl
    · exact h task hold
    · exact fun later hlater => h _ (nextTask_mem hnext) later (List.mem_cons_of_mem _ hlater)

/-- A subscribing call brings in a ghost exactly when its session has left. -/
theorem noGhosts_addSubscribe (h : s.NoGhosts) {id msgtype : ℤ} {name : Bytes}
    (hstarted : s.Started id) :
    { s with room := s.room.addSubscribe id msgtype name }.NoGhosts ↔
      SubscribesPresent s.left (.addSubscribe id msgtype name) := by
  constructor
  · intro hall htype
    rcases htype with htype | htype
    · exact (hall .PUBSUB name id ((SessionRoom.mem_table_addSubscribe _ _ _ _ _ _ _
        (by simp)).mpr (Or.inl ⟨rfl, htype, rfl⟩))).2
    · exact (hall .DELIVER name id ((SessionRoom.mem_table_addSubscribe _ _ _ _ _ _ _
        (by simp)).mpr (Or.inl ⟨rfl, htype, rfl⟩))).2
  · intro hpresent t n i hi
    have ht : t ≠ .REQREP := by
      rintro rfl
      simp [SessionRoom.table] at hi
    rcases (SessionRoom.mem_table_addSubscribe _ _ _ _ _ _ _ ht).mp hi with ⟨rfl, htype, _⟩ | hold
    · refine ⟨hstarted, hpresent ?_⟩
      cases t with
      | REQREP => exact absurd rfl ht
      | PUBSUB => exact Or.inl htype
      | DELIVER => exact Or.inr htype
    · exact h t n i hold

theorem noGhosts_step (hinv : s.Inv) (h : s.NoGhosts) {a : ServerRoomAction}
    (hstep : s.step a = some t) : t.NoGhosts ↔ s.InTime a := by
  cases a with
  | start =>
    obtain ⟨_, ht⟩ := Option.ite_none_right_eq_some.mp hstep
    obtain rfl := Option.some.inj ht
    refine iff_of_true (fun t name id hid => ?_) trivial
    obtain ⟨hstarted, hleft⟩ := h t name id ((SessionRoom.mem_table_join ..).mp hid)
    exact ⟨hstarted.mono (Nat.le_succ _), hleft⟩
  | handleMessage sessionId msg =>
    obtain ⟨_, ht⟩ := Option.ite_none_right_eq_some.mp hstep
    obtain rfl := Option.some.inj ht
    exact iff_of_true h trivial
  | leave sessionId =>
    obtain ⟨_, ht⟩ := Option.ite_none_right_eq_some.mp hstep
    obtain rfl := Option.some.inj ht
    exact iff_of_true (fun t name id hid =>
      h t name id ((SessionRoom.mem_table_removeSession ..).mp hid)) trivial
  | finishLeave =>
    obtain ⟨sessionId, _, rfl⟩ := Option.map_eq_some_iff.mp hstep
    refine iff_of_true (fun t name id hid => ?_) trivial
    obtain ⟨hne, hold⟩ := (SessionRoom.mem_table_removeId ..).mp hid
    obtain ⟨hstarted, hleft⟩ := h t name id hold
    exact ⟨hstarted, by simp [hne, hleft]⟩
  | nextCall i =>
    obtain ⟨⟨call, rest⟩, hnext, rfl⟩ := Option.map_eq_some_iff.mp hstep
    have hissued := hinv _ (nextTask_mem hnext) call (List.mem_cons_self ..)
    have hok : s.InTime (.nextCall i) ↔ SubscribesPresent s.left call := by
      simp [InTime, hnext]
    rw [hok]
    cases call with
    | addSubscribe id msgtype name => exact noGhosts_addSubscribe h hissued
    | delSubscribe id msgtype name =>
      refine iff_of_true (fun t n i hi => ?_) trivial
      have ht : t ≠ .REQREP := by
        rintro rfl
        simp [SessionRoom.table] at hi
      exact h t n i ((SessionRoom.mem_table_delSubscribe _ _ _ _ _ _ _ ht).mp hi).2
    | join | leave => exact absurd hissued (by simp [Issued])

/-- No state of a run has a ghost in a table iff, all along the run, no subscribing call comes
after the leave of its session has returned. -/
theorem noGhosts_iff_inTime (labels : List ServerRoomAction) (s : ServerRoom)
    (hrun : machine.run (fun _ _ => True) {} labels = some s) :
    (∀ u ∈ machine.visits {} labels, u.NoGhosts) ↔
      machine.run InTime {} labels = some s := by
  refine Machine.always_iff_run machine InTime (I := Inv) (fun _ _ _ h ht => h.step ht)
    (fun _ _ _ hI hP ht => noGhosts_step hI hP ht) labels {} s ?_ ?_ hrun
  · exact fun _ htask => nomatch htask
  · intro t name id hid
    cases t <;> simp [SessionRoom.table] at hid

/-- A session that subscribes, and leaves after the call has been made. -/
def subscribeThenLeave : List ServerRoomAction :=
  [.start, .handleMessage 1 ⟨1, [2], [[0x41]]⟩, .nextCall 0, .leave 1, .finishLeave]

theorem noGhosts_iff_inTime_ping :
    ∃ s : ServerRoom, 1 ∈ s.left ∧ machine.run InTime {} subscribeThenLeave = some s ∧
      ∀ u ∈ machine.visits {} subscribeThenLeave, u.NoGhosts := by
  have hrun : ∃ s : ServerRoom, machine.run InTime {} subscribeThenLeave = some s ∧
      machine.run (fun _ _ => True) {} subscribeThenLeave = some s ∧ 1 ∈ s.left :=
    ⟨_, rfl, rfl, by decide⟩
  obtain ⟨s, hok, hrun, hleft⟩ := hrun
  exact ⟨s, hleft, hok, (noGhosts_iff_inTime subscribeThenLeave s hrun).mpr hok⟩

/-- The same calls with the leave before the call of the task. -/
theorem ghost_reachable : ¬ ∀ s : ServerRoom, machine.Reachable s → s.NoGhosts := by
  intro h
  have hrun : ∃ s : ServerRoom, machine.run (fun _ _ => True) {}
      [.start, .handleMessage 1 ⟨1, [2], [[0x41]]⟩, .leave 1, .finishLeave, .nextCall 0] =
        some s ∧ 1 ∈ s.room.table .PUBSUB [0x41] ∧ 1 ∈ s.left := ⟨_, rfl, by decide, by decide⟩
  obtain ⟨s, hs, hmem, hleft⟩ := hrun
  exact (h s (Machine.reachableWhen_of_run _ hs) .PUBSUB [0x41] 1 hmem).2 hleft

end ServerRoom

end AsioMsg
