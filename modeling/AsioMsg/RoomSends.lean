import AsioMsg.GhostSubscribers

/-!
publishMessage and deliverPackage of a room between their locks. Each copies the
ids of the subscribers under protoMutex_ and sends under sessionMutex_ later; in
between, sessions start, subscribe and leave, and other threads send. What is
sent is what one atomic call would have sent at the first lock, except to the
sessions that have left by the second.
-/

namespace AsioMsg

/-- The type of a call, the type name it is for and what it sends. -/
structure RoomSend (P : Type) where
  msgType : MsgType
  typeName : Bytes
  payload : P
  /-- The copied ids, and the room that they were copied from. -/
  ids : Finset ℤ
  before : SessionRoom

/-- A call that has sent, with the sessions it has sent to. -/
structure RoomSent (P : Type) extends RoomSend P where
  receivers : List ℤ
  /-- The room at the second lock, and the sessions whose leave had returned. -/
  after : SessionRoom
  left : Finset ℤ

structure RoomThreads (P : Type) where
  server : ServerRoom := {}
  sending : List (RoomSend P) := []
  /-- What each session has been handed, by publishMessage and deliverPackage. -/
  handed : ℤ → List P := fun _ => []
  sent : List (RoomSent P) := []

inductive RoomThreadsAction (P : Type)
  | server (a : ServerRoomAction)
  | publishMessage (typeName : Bytes) (msg : P)
  | deliverPackage (typeName : Bytes) (pac : P)
  | send (i : ℕ)

namespace RoomThreads

variable {P : Type}

/-- A call up to the end of its first lock. -/
def lookup (s : RoomThreads P) (msgType : MsgType) (typeName : Bytes) (payload : P) :
    RoomThreads P :=
  { s with sending := s.sending ++
      [⟨msgType, typeName, payload, s.server.room.table msgType typeName, s.server.room⟩] }

/-- The second lock of a call. -/
def send (s : RoomThreads P) (i : ℕ) (call : RoomSend P) : RoomThreads P :=
  let receivers := s.server.room.receivers call.ids
  { s with
    sending := s.sending.eraseIdx i
    handed := fun id => s.handed id ++ (receivers.filter (· = id)).map fun _ => call.payload
    sent := s.sent ++ [⟨call, receivers, s.server.room, s.server.left⟩] }

def step (s : RoomThreads P) : RoomThreadsAction P → Option (RoomThreads P)
  | .server a => (s.server.step a).map fun server => { s with server := server }
  | .publishMessage typeName msg => some (s.lookup .PUBSUB typeName msg)
  | .deliverPackage typeName pac => some (s.lookup .DELIVER typeName pac)
  | .send i => (s.sending[i]?).map (s.send i)

def machine (P : Type) : Machine (RoomThreads P) (RoomThreadsAction P) where
  init := {}
  step := step

end RoomThreads

namespace ServerRoom

variable {s t : ServerRoom}

/-- Subscribers and members of the room are sessions that have started; a member has not left. -/
structure StartedInv (s : ServerRoom) : Prop where
  issued : s.Inv
  tables : ∀ t name, ∀ id ∈ s.room.table t name, s.Started id
  members : ∀ id ∈ s.room.sessionCache, s.Started id
  leaving : ∀ id ∈ s.leaving, s.Started id ∧ id ∉ s.room.sessionCache
  left : ∀ id ∈ s.left, s.Started id ∧ id ∉ s.room.sessionCache

/-- What a step makes of the room: a session joins under the next id, one leaves in two halves, or
a call of a task is made. -/
theorem room_cases (h : s.Inv) {a : ServerRoomAction} (hstep : s.step a = some t) :
    t = s.start ∨ (t.room = s.room ∧ t.sessions = s.sessions ∧ t.leaving = s.leaving ∧
      t.left = s.left) ∨
    (∃ id, s.Started id ∧
      t = { s with room := s.room.removeSession id, leaving := some id }) ∨
    (∃ id, s.leaving = some id ∧
      t = { s with room := s.room.removeId id, leaving := none, left := insert id s.left }) ∨
    ∃ call tasks, s.Issued call ∧ t = { s with room := call.apply s.room, tasks := tasks } := by
  cases a with
  | start =>
    obtain ⟨_, ht⟩ := Option.ite_none_right_eq_some.mp hstep
    exact Or.inl (Option.some.inj ht).symm
  | handleMessage sessionId msg =>
    obtain ⟨_, ht⟩ := Option.ite_none_right_eq_some.mp hstep
    obtain rfl := Option.some.inj ht
    exact Or.inr (Or.inl ⟨rfl, rfl, rfl, rfl⟩)
  | leave sessionId =>
    obtain ⟨⟨_, hstarted⟩, ht⟩ := Option.ite_none_right_eq_some.mp hstep
    exact Or.inr (Or.inr (Or.inl ⟨sessionId, hstarted, (Option.some.inj ht).symm⟩))
  | finishLeave =>
    obtain ⟨sessionId, hleaving, ht⟩ := Option.map_eq_some_iff.mp hstep
    exact Or.inr (Or.inr (Or.inr (Or.inl ⟨sessionId, hleaving, ht.symm⟩)))
  | nextCall i =>
    obtain ⟨⟨call, rest⟩, hnext, ht⟩ := Option.map_eq_some_iff.mp hstep
    have hissued := h _ (nextTask_mem hnext) call (List.mem_cons_self ..)
    exact Or.inr (Or.inr (Or.inr (Or.inr ⟨call, _, hissued, ht.symm⟩)))

theorem sessionCache_issued {call : RoomCall} (h : s.Issued call) (r : SessionRoom) :
    (call.apply r).sessionCache = r.sessionCache := by
  cases call with
  | addSubscribe | delSubscribe => exact SessionRoom.sessionCache_changeSubscribe ..
  | join | leave => exact absurd h (by simp [Issued])

/-- A step lets no session in that has started before it. -/
theorem step_members (h : s.Inv) {a : ServerRoomAction} (hstep : s.step a = some t) {id : ℤ}
    (hstarted : s.Started id) (hid : id ∈ t.room.sessionCache) : id ∈ s.room.sessionCache := by
  rcases room_cases h hstep with rfl | ⟨hroom, _⟩ | ⟨other, _, rfl⟩ | ⟨other, _, rfl⟩ |
    ⟨call, tasks, hissued, rfl⟩
  · refine (Finset.mem_insert.mp hid).resolve_left ?_
    have hle := hstarted.2
    omega
  · exact hroom ▸ hid
  · exact Finset.mem_of_mem_erase hid
  · exact hid
  · exact sessionCache_issued hissued s.room ▸ hid

theorem step_sessions (h : s.Inv) {a : ServerRoomAction} (hstep : s.step a = some t) :
    s.sessions ≤ t.sessions := by
  rcases room_cases h hstep with rfl | ⟨_, hsessions, _⟩ | ⟨other, _, rfl⟩ | ⟨other, _, rfl⟩ |
    ⟨call, tasks, _, rfl⟩
  · exact Nat.le_succ _
  · exact Nat.le_of_eq hsessions.symm
  · exact Nat.le_refl _
  · exact Nat.le_refl _
  · exact Nat.le_refl _

theorem StartedInv.step (h : s.StartedInv) {a : ServerRoomAction} (hstep : s.step a = some t) :
    t.StartedInv := by
  have hmono : ∀ {id : ℤ}, s.Started id → t.Started id := fun hid =>
    hid.mono (step_sessions h.issued hstep)
  have hout : ∀ {id : ℤ}, s.Started id ∧ id ∉ s.room.sessionCache →
      t.Started id ∧ id ∉ t.room.sessionCache := fun hid =>
    ⟨hmono hid.1, fun hmem => hid.2 (step_members h.issued hstep hid.1 hmem)⟩
  refine ⟨h.issued.step hstep, ?_, ?_, ?_, ?_⟩
  · intro ty name id hid
    rcases room_cases h.issued hstep with rfl | ⟨hroom, _⟩ | ⟨other, _, rfl⟩ | ⟨other, _, rfl⟩ |
      ⟨call, tasks, hissued, rfl⟩
    · exact hmono (h.tables ty name id ((SessionRoom.mem_table_join ..).mp hid))
    · exact hmono (h.tables ty name id (hroom ▸ hid))
    · exact hmono (h.tables ty name id ((SessionRoom.mem_table_removeSession ..).mp hid))
    · exact hmono (h.tables ty name id ((SessionRoom.mem_table_removeId ..).mp hid).2)
    · have hty : ty ≠ .REQREP := by
        rintro rfl
        simp [SessionRoom.table] at hid
      cases call with
      | addSubscribe other msgtype n =>
        rcases (SessionRoom.mem_table_addSubscribe _ _ _ _ _ _ _ hty).mp hid with
          ⟨rfl, _⟩ | hold
        · exact hissued
        · exact h.tables ty name id hold
      | delSubscribe other msgtype n =>
        exact h.tables ty name id ((SessionRoom.mem_table_delSubscribe _ _ _ _ _ _ _ hty).mp hid).2
      | join | leave => exact absurd hissued (by simp [Issued])
  · intro id hid
    rcases room_cases h.issued hstep with rfl | ⟨hroom, _⟩ | ⟨other, _, rfl⟩ | ⟨other, _, rfl⟩ |
      ⟨call, tasks, hissued, rfl⟩
    · rcases Finset.mem_insert.mp hid with rfl | hid
      · refine ⟨by omega, ?_⟩
        simp [start]
      · exact hmono (h.members id hid)
    · exact hmono (h.members id (hroom ▸ hid))
    · exact h.members id (Finset.mem_of_mem_erase hid)
    · exact h.members id hid
    · exact h.members id (sessionCache_issued hissued s.room ▸ hid)
  · intro id hid
    rcases room_cases h.issued hstep with rfl | ⟨_, _, hleaving, _⟩ | ⟨other, hstarted, rfl⟩ |
      ⟨other, _, rfl⟩ | ⟨call, tasks, hissued, rfl⟩
    · exact hout (h.leaving id hid)
    · exact hout (h.leaving id (hleaving ▸ hid))
    · obtain rfl := Option.some.inj hid
      exact ⟨hstarted, Finset.notMem_erase _ _⟩
    · simp at hid
    · exact hout (h.leaving id hid)
  · intro id hid
    rcases room_cases h.issued hstep with rfl | ⟨_, _, _, hleft⟩ | ⟨other, _, rfl⟩ |
      ⟨other, hother, rfl⟩ | ⟨call, tasks, hissued, rfl⟩
    · exact hout (h.left id hid)
    · exact hout (h.left id (hleft ▸ hid))
    · exact hout (h.left id hid)
    · rcases Finset.mem_insert.mp hid with rfl | hid
      · exact hout (h.leaving id hother)
      · exact hout (h.left id hid)
    · exact hout (h.left id hid)

end ServerRoom

namespace RoomThreads

variable {P : Type} {s t : RoomThreads P}

/-- A call between its locks. Its ids are those of sessions that had started, and of these only
such are in the room as were in it at the first lock. -/
structure Copied (server : ServerRoom) (call : RoomSend P) : Prop where
  ids : call.ids = call.before.table call.msgType call.typeName
  started : ∀ id ∈ call.ids, server.Started id
  members : ∀ id ∈ call.ids, id ∈ server.room.sessionCache → id ∈ call.before.sessionCache

/-- The receivers of an atomic call at the first lock that were in the room at the second. -/
structure SentToMembers (call : RoomSent P) : Prop where
  receivers : call.receivers =
    (call.before.receivers (call.before.table call.msgType call.typeName)).filter
      fun id => decide (id ∈ call.after.sessionCache)
  left : ∀ id ∈ call.receivers, id ∉ call.left

structure SendsInv (s : RoomThreads P) : Prop where
  server : s.server.StartedInv
  sending : ∀ call ∈ s.sending, Copied s.server call
  sent : ∀ call ∈ s.sent, SentToMembers call
  handed : ∀ id, s.handed id =
    (s.sent.filter fun call => decide (id ∈ call.receivers)).map fun call => call.payload

theorem SendsInv.lookup (h : s.SendsInv) (msgType : MsgType) (typeName : Bytes) (payload : P) :
    (s.lookup msgType typeName payload).SendsInv := by
  refine ⟨h.server, ?_, h.sent, h.handed⟩
  intro call hcall
  rcases List.mem_append.mp hcall with hcall | hcall
  · exact h.sending call hcall
  · rw [List.mem_singleton] at hcall
    subst hcall
    exact ⟨rfl, h.server.tables msgType typeName, fun _ _ hmem => hmem⟩

theorem Copied.sent {server : ServerRoom} {call : RoomSend P} (h : Copied server call)
    (hserver : server.StartedInv) :
    SentToMembers ⟨call, server.room.receivers call.ids, server.room, server.left⟩ := by
  refine ⟨?_, ?_⟩
  · have hfilter : server.room.receivers call.ids =
        (call.before.receivers call.ids).filter
          fun id => decide (id ∈ server.room.sessionCache) := by
      rw [SessionRoom.receivers, SessionRoom.receivers, List.filter_filter]
      refine List.filter_congr fun id hid => ?_
      have hmem := h.members id ((Finset.mem_sort _).mp hid)
      by_cases hin : id ∈ server.room.sessionCache
      · simp [hin, hmem hin]
      · simp [hin]
    rw [hfilter, h.ids]
  · intro id hid hleft
    exact (hserver.left id hleft).2 ((SessionRoom.mem_receivers ..).mp hid).1

theorem SendsInv.send (h : s.SendsInv) {i : ℕ} {call : RoomSend P}
    (hget : s.sending[i]? = some call) : (s.send i call).SendsInv := by
  have hcopied := h.sending call (List.mem_of_getElem? hget)
  refine ⟨h.server, ?_, ?_, ?_⟩
  · exact fun other hother => h.sending other (List.mem_of_mem_eraseIdx hother)
  · intro other hother
    rcases List.mem_append.mp hother with hother | hother
    · exact h.sent other hother
    · rw [List.mem_singleton] at hother
      exact hother ▸ hcopied.sent h.server
  · intro id
    have hnodup := s.server.room.receivers_nodup call.ids
    simp only [RoomThreads.send, h.handed id, List.filter_append, List.map_append]
    congr 1
    by_cases hmem : id ∈ s.server.room.receivers call.ids
    · rw [List.filter_eq, List.count_eq_one_of_mem hnodup hmem]
      simp [hmem]
    · have hnone : (s.server.room.receivers call.ids).filter (· = id) = [] := by
        rw [List.filter_eq_nil_iff]
        rintro other hother heq
        exact hmem (of_decide_eq_true heq ▸ hother)
      simp [hnone, hmem]

theorem SendsInv.step (h : s.SendsInv) {a : RoomThreadsAction P} (hstep : s.step a = some t) :
    t.SendsInv := by
  cases a with
  | server a =>
    obtain ⟨server, hserver, rfl⟩ := Option.map_eq_some_iff.mp hstep
    refine ⟨h.server.step hserver, fun call hcall => ?_, h.sent, h.handed⟩
    obtain ⟨hids, hstarted, hmembers⟩ := h.sending call hcall
    refine ⟨hids, fun id hid => ?_, fun id hid hmem => ?_⟩
    · exact (hstarted id hid).mono (ServerRoom.step_sessions h.server.issued hserver)
    · exact hmembers id hid
        (ServerRoom.step_members h.server.issued hserver (hstarted id hid) hmem)
  | publishMessage typeName msg =>
    obtain rfl := Option.some.inj hstep
    exact h.lookup .PUBSUB typeName msg
  | deliverPackage typeName pac =>
    obtain rfl := Option.some.inj hstep
    exact h.lookup .DELIVER typeName pac
  | send i =>
    obtain ⟨call, hget, rfl⟩ := Option.map_eq_some_iff.mp hstep
    exact h.send hget

theorem sendsInv_reachable (h : (machine P).Reachable s) : s.SendsInv := by
  refine Machine.Reachable.invariant (I := SendsInv) ?_ (fun _ _ _ hs ht => hs.step ht) h
  refine ⟨⟨?_, ?_, ?_, ?_, ?_⟩, ?_, ?_, fun _ => rfl⟩
  · exact fun _ htask => absurd htask List.not_mem_nil
  · intro ty name id hid
    cases ty <;> exact absurd hid (Finset.notMem_empty id)
  · exact fun id hid => absurd hid (Finset.notMem_empty id)
  · exact fun id hid => absurd hid (by simp [machine])
  · exact fun id hid => absurd hid (Finset.notMem_empty id)
  · exact fun _ hcall => absurd hcall List.not_mem_nil
  · exact fun _ hcall => absurd hcall List.not_mem_nil

/-- However calls of the room interleave: a publishMessage or deliverPackage sends to the
sessions to which it would have sent at its first lock with nothing in between, less those
that are out of the room by its second, and to none whose leave has returned. Each session is
handed the payload once, in the order of the second locks, which is one order for all sessions. -/
theorem sends_at_first_lock (h : (machine P).Reachable s) :
    (∀ call ∈ s.sent, call.receivers =
        (call.before.receivers (call.before.table call.msgType call.typeName)).filter
          (fun id => decide (id ∈ call.after.sessionCache)) ∧
        ∀ id ∈ call.receivers, id ∉ call.left) ∧
      ∀ id, s.handed id =
        (s.sent.filter fun call => decide (id ∈ call.receivers)).map fun call => call.payload := by
  have hinv := sendsInv_reachable h
  exact ⟨fun call hcall => ⟨(hinv.sent call hcall).receivers, (hinv.sent call hcall).left⟩,
    hinv.handed⟩

/-- Two subscribers, of which one leaves while a message is between the locks, and a second
message overtakes the first. -/
def overtakingSends : List (RoomThreadsAction ℕ) :=
  [.server .start, .server .start, .server (.handleMessage 1 ⟨1, [2], [[0x41]]⟩),
    .server (.handleMessage 2 ⟨1, [2], [[0x41]]⟩), .server (.nextCall 0), .server (.nextCall 1),
    .publishMessage [0x41] 7, .publishMessage [0x41] 8, .send 1, .server (.leave 1), .send 0]

theorem sends_at_first_lock_two :
    ∃ s : RoomThreads ℕ,
      (s.sent.map fun call => (call.payload, decide (1 ∈ call.after.sessionCache))) =
        [(8, true), (7, false)] ∧
      ∀ id, s.handed id =
        (s.sent.filter fun call => decide (id ∈ call.receivers)).map fun call => call.payload := by
  have hrun : ∃ s : RoomThreads ℕ, (machine ℕ).run (fun _ _ => True) (machine ℕ).init
      overtakingSends = some s ∧
      (s.sent.map fun call => (call.payload, decide (1 ∈ call.after.sessionCache))) =
        [(8, true), (7, false)] := ⟨_, rfl, by decide⟩
  obtain ⟨s, hs, hsent⟩ := hrun
  exact ⟨s, hsent, (sends_at_first_lock (Machine.reachableWhen_of_run overtakingSends hs)).2⟩

end RoomThreads

end AsioMsg
