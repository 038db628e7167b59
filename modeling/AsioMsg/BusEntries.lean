import AsioMsg.BusReplies

/-!
The entries of the bus over time. A request makes its entry before anybody knows
whether a provider is there, and a session that leaves is taken out of the
tables of the room but not out of msgSessionCache_. What the last request with
an id was and whom it was handed to is kept for the statement only.
-/

namespace AsioMsg

variable {M : Type}

/-- A processed request, with what has been handed on of it. -/
structure BusRequest (M : Type) where
  session : ℤ
  pac : Package M
  handed : List (ℤ × Package M)

structure BusEntries (M : Type) where
  bus : MsgBus := {}
  /-- The requests processed so far, the newest first. -/
  requests : List (BusRequest M) := []

/-- A package that preHandleMessage treats as a request. -/
def Package.isRequest (pac : Package M) : Bool :=
  pac.msgPtr.isNone && decide (pac.header.msgType = MsgType.REQREP.code)

namespace BusEntries

def preHandleMessage (s : BusEntries M) (sessionId : ℤ) (pac : Package M) : BusEntries M :=
  let (bus, handed) := s.bus.preHandleMessage sessionId pac
  { bus := bus
    requests := if pac.isRequest then ⟨sessionId, pac, handed⟩ :: s.requests else s.requests }

def step (s : BusEntries M) : BusCall M → Option (BusEntries M)
  | .room call => some { s with bus := { s.bus with room := call.apply s.bus.room } }
  | .preHandleMessage sessionId pac => some (s.preHandleMessage sessionId pac)

def machine (M : Type) : Machine (BusEntries M) (BusCall M) where
  init := {}
  step := step

/-- The last request with the id. -/
def lastRequest (s : BusEntries M) (msgId : BitVec 32) : Option (BusRequest M) :=
  s.requests.find? fun r => r.pac.header.msgId = msgId

/-- Every entry is that of the last request with its id, whose session is still in the room and
which has been handed to somebody. -/
def NoDeadEntries (s : BusEntries M) : Prop :=
  ∀ msgId id, s.bus.msgSessionCache msgId = some id →
    ∃ r, s.lastRequest msgId = some r ∧ r.session = id ∧ id ∈ s.bus.room.sessionCache ∧
      r.handed ≠ []

/-- A request comes from a session in the room while a session in the room is subscribed to its
type with DELIVER, and no session leaves while an entry is in its name. -/
def Answerable (s : BusEntries M) : BusCall M → Prop
  | .room (.leave id) => ∀ r ∈ s.requests, s.bus.msgSessionCache r.pac.header.msgId ≠ some id
  | .preHandleMessage sessionId pac => pac.isRequest = true →
      sessionId ∈ s.bus.room.sessionCache ∧
        ∃ id ∈ s.bus.room.deliverCache pac.typeName, id ∈ s.bus.room.sessionCache
  | _ => True

instance (s : BusEntries M) (a : BusCall M) : Decidable (s.Answerable a) :=
  match a with
  | .room (.leave id) => inferInstanceAs (Decidable (∀ r ∈ s.requests,
      s.bus.msgSessionCache r.pac.header.msgId ≠ some id))
  | .preHandleMessage sessionId pac => inferInstanceAs (Decidable (pac.isRequest = true →
      sessionId ∈ s.bus.room.sessionCache ∧
        ∃ id ∈ s.bus.room.deliverCache pac.typeName, id ∈ s.bus.room.sessionCache))
  | .room (.join _) | .room (.addSubscribe ..) | .room (.delSubscribe ..) =>
    inferInstanceAs (Decidable True)

end BusEntries

namespace MsgBus

variable (bus : MsgBus) (sessionId : ℤ) {pac : Package M}

theorem preHandleMessage_request (h : pac.isRequest = true) :
    bus.preHandleMessage sessionId pac =
      ({ bus with
        msgSessionCache := Function.update bus.msgSessionCache pac.header.msgId (some sessionId) },
        bus.room.deliverPackage (pac.setMsgType .DELIVER)) := by
  rw [Package.isRequest, Bool.and_eq_true, Option.isNone_iff_eq_none, decide_eq_true_eq] at h
  exact bus.preHandleMessage_reqrep sessionId h.1 h.2

/-- No other package makes an entry, and none changes the room. -/
theorem preHandleMessage_other (h : pac.isRequest = false) :
    (bus.preHandleMessage sessionId pac).1.room = bus.room ∧
      ∀ msgId id, (bus.preHandleMessage sessionId pac).1.msgSessionCache msgId = some id →
        bus.msgSessionCache msgId = some id := by
  by_cases hptr : pac.msgPtr = none
  · have hreq : pac.header.msgType ≠ MsgType.REQREP.code := by
      simpa [Package.isRequest, hptr] using h
    by_cases hdel : pac.header.msgType = MsgType.DELIVER.code
    · rw [bus.preHandleMessage_deliver sessionId hptr hdel]
      refine ⟨rfl, fun msgId id hentry => ?_⟩
      by_cases hid : msgId = pac.header.msgId
      · simp [hid] at hentry
      · simpa [Function.update_of_ne hid] using hentry
    · have hsame : (bus.preHandleMessage sessionId pac).1 = bus := by
        by_cases hpub : pac.header.msgType = MsgType.PUBSUB.code
        · rw [bus.preHandleMessage_pubsub sessionId hptr hpub]
        · simp [preHandleMessage, hptr, hreq, hdel, hpub]
      rw [hsame]
      exact ⟨rfl, fun _ _ hentry => hentry⟩
  · have hsome : pac.msgPtr.isSome = true := by
      simpa [Option.isSome_iff_ne_none] using hptr
    rw [preHandleMessage, if_pos hsome]
    exact ⟨rfl, fun _ _ hentry => hentry⟩

end MsgBus

/-- A broadcast reaches somebody iff a joined session is subscribed to the type with DELIVER. -/
theorem SessionRoom.deliverPackage_ne_nil_iff (r : SessionRoom) (pac : Package M) :
    r.deliverPackage pac ≠ [] ↔ ∃ id ∈ r.deliverCache pac.typeName, id ∈ r.sessionCache := by
  rw [deliverPackage, ne_eq, List.map_eq_nil_iff, List.eq_nil_iff_forall_not_mem]
  simp only [mem_receivers, not_forall, not_not, and_comm]

namespace BusEntries

variable {s t : BusEntries M} {a : BusCall M}

theorem preHandleMessage_request {pac : Package M} (sessionId : ℤ) (h : pac.isRequest = true) :
    s.preHandleMessage sessionId pac = {
      bus := { s.bus with
        msgSessionCache :=
          Function.update s.bus.msgSessionCache pac.header.msgId (some sessionId) }
      requests :=
        ⟨sessionId, pac, s.bus.room.deliverPackage (pac.setMsgType .DELIVER)⟩ :: s.requests } := by
  simp only [preHandleMessage, s.bus.preHandleMessage_request sessionId h, h, if_true]

theorem lastRequest_cons (bus : MsgBus) (r : BusRequest M) (requests : List (BusRequest M))
    (msgId : BitVec 32) :
    (BusEntries.mk bus (r :: requests)).lastRequest msgId =
      if r.pac.header.msgId = msgId then some r
      else (BusEntries.mk bus requests).lastRequest msgId := by
  rw [lastRequest, List.find?_cons]
  by_cases hid : r.pac.header.msgId = msgId <;> simp [hid, lastRequest]

/-- A call of the room that takes nobody out of it. -/
theorem NoDeadEntries.room_mono (h : s.NoDeadEntries) {room : SessionRoom}
    (hsub : s.bus.room.sessionCache ⊆ room.sessionCache) :
    NoDeadEntries { s with bus := { s.bus with room := room } } := by
  intro msgId id hentry
  obtain ⟨r, hlast, hsession, hjoined, hhanded⟩ := h msgId id hentry
  exact ⟨r, hlast, hsession, hsub hjoined, hhanded⟩

/-- The leave of a session makes the entries in its name dead, and no others. -/
theorem NoDeadEntries.leave_iff (h : s.NoDeadEntries) (id : ℤ) :
    NoDeadEntries { s with bus := { s.bus with room := s.bus.room.leave id } } ↔
      s.Answerable (.room (.leave id)) := by
  constructor
  · intro hafter r _ hentry
    obtain ⟨_, _, _, hjoined, _⟩ := hafter r.pac.header.msgId id hentry
    exact Finset.notMem_erase id _ hjoined
  · intro hnone msgId owner hentry
    obtain ⟨r, hlast, hsession, hjoined, hhanded⟩ := h msgId owner hentry
    have hid : r.pac.header.msgId = msgId := by simpa using List.find?_some hlast
    have hne : owner ≠ id := by
      rintro rfl
      exact hnone r (List.mem_of_find?_eq_some hlast) (hid ▸ hentry)
    exact ⟨r, hlast, hsession, Finset.mem_erase.mpr ⟨hne, hjoined⟩, hhanded⟩

/-- A request makes a live entry iff its session is there and so is a session that it reaches. -/
theorem NoDeadEntries.request_iff (h : s.NoDeadEntries) (sessionId : ℤ) {pac : Package M}
    (hreq : pac.isRequest = true) :
    (s.preHandleMessage sessionId pac).NoDeadEntries ↔
      s.Answerable (.preHandleMessage sessionId pac) := by
  have hreach : s.bus.room.deliverPackage (pac.setMsgType .DELIVER) ≠ [] ↔
      ∃ id ∈ s.bus.room.deliverCache pac.typeName, id ∈ s.bus.room.sessionCache :=
    s.bus.room.deliverPackage_ne_nil_iff (pac.setMsgType .DELIVER)
  rw [preHandleMessage_request sessionId hreq, Answerable]
  constructor
  · intro hafter _
    obtain ⟨r, hlast, _, hjoined, hhanded⟩ :=
      hafter pac.header.msgId sessionId (Function.update_self ..)
    rw [lastRequest_cons, if_pos rfl, Option.some.injEq] at hlast
    subst hlast
    exact ⟨hjoined, hreach.mp hhanded⟩
  · intro hok msgId id hentry
    change Function.update s.bus.msgSessionCache pac.header.msgId (some sessionId) msgId =
      some id at hentry
    obtain ⟨hjoined, hsubscribed⟩ := hok hreq
    rw [lastRequest_cons]
    by_cases hid : pac.header.msgId = msgId
    · subst hid
      rw [Function.update_self, Option.some.injEq] at hentry
      subst hentry
      exact ⟨_, if_pos rfl, rfl, hjoined, hreach.mpr hsubscribed⟩
    · rw [Function.update_of_ne (Ne.symm hid)] at hentry
      rw [if_neg hid]
      exact h msgId id hentry

theorem NoDeadEntries.step_iff (h : s.NoDeadEntries) (hstep : s.step a = some t) :
    t.NoDeadEntries ↔ s.Answerable a := by
  cases a with
  | room call =>
    obtain rfl := Option.some.inj hstep
    cases call with
    | leave id => exact h.leave_iff id
    | join id => exact iff_of_true (h.room_mono (Finset.subset_insert id _)) trivial
    | addSubscribe id msgtype name =>
      refine iff_of_true (h.room_mono ?_) trivial
      exact (SessionRoom.sessionCache_changeSubscribe ..).symm.subset
    | delSubscribe id msgtype name =>
      refine iff_of_true (h.room_mono ?_) trivial
      exact (SessionRoom.sessionCache_changeSubscribe ..).symm.subset
  | preHandleMessage sessionId pac =>
    obtain rfl := Option.some.inj hstep
    cases hreq : pac.isRequest with
    | true => exact h.request_iff sessionId hreq
    | false =>
      obtain ⟨hroom, hcache⟩ := s.bus.preHandleMessage_other sessionId hreq
      refine iff_of_true ?_ (by simp [Answerable, hreq])
      intro msgId id hentry
      simp only [preHandleMessage, hreq, Bool.false_eq_true, if_false] at hentry ⊢
      rw [hroom]
      exact h msgId id (hcache msgId id hentry)

/-- No state of a run has a dead entry iff, all along the run, every request comes from a session
that is there while one that is there is subscribed to its type, and no session leaves with an
entry in its name. -/
theorem noDeadEntries_iff_answerable (labels : List (BusCall M)) (s : BusEntries M)
    (hrun : (machine M).run (fun _ _ => True) (machine M).init labels = some s) :
    (∀ u ∈ (machine M).visits (machine M).init labels, u.NoDeadEntries) ↔
      (machine M).run Answerable (machine M).init labels = some s := by
  refine (machine M).always_iff_run Answerable (I := fun _ => True) (fun _ _ _ _ _ => trivial)
    (fun _ _ _ _ hP ht => hP.step_iff ht) labels (machine M).init s trivial ?_ hrun
  exact fun _ _ hentry => nomatch hentry

/-- A request is answered, then its session leaves. -/
def askedAndLeft : List (BusCall PingPong) :=
  [.room (.join 1), .room (.join 2), .room (.addSubscribe 2 3 PingPong.typeName),
    .preHandleMessage 1 { PingPong.request PingPong.blank 7 with msgPtr := none },
    .preHandleMessage 2 (BusRecord.pingReply 7), .room (.leave 1)]

theorem noDeadEntries_iff_answerable_ping :
    ∃ s : BusEntries PingPong, s.requests.length = 1 ∧
      ∀ u ∈ (machine PingPong).visits (machine PingPong).init askedAndLeft, u.NoDeadEntries := by
  have hrun : ((machine PingPong).run Answerable (machine PingPong).init askedAndLeft).map
      (fun s => s.requests.length) = some 1 := by decide +kernel
  obtain ⟨s, hs, hcount⟩ := Option.map_eq_some_iff.mp hrun
  have hfree : (machine PingPong).run (fun _ _ => True) (machine PingPong).init askedAndLeft =
      some s := Machine.run_mono (fun _ _ _ => trivial) askedAndLeft _ _ hs
  exact ⟨s, hcount, (noDeadEntries_iff_answerable askedAndLeft s hfree).mpr hs⟩

/-- The entry of a request that nobody is subscribed for stays. -/
theorem noDeadEntries_fails :
    ¬ ∀ s : BusEntries PingPong, (machine PingPong).Reachable s → s.NoDeadEntries := by
  intro h
  have hrun : ∃ s : BusEntries PingPong, (machine PingPong).run (fun _ _ => True)
      (machine PingPong).init [.room (.join 1),
        .preHandleMessage 1 { PingPong.request PingPong.blank 7 with msgPtr := none }] = some s ∧
      s.bus.msgSessionCache 7 = some 1 ∧ (s.lastRequest 7).map (fun r => r.handed) = some [] :=
    ⟨_, rfl, by decide +kernel, by decide +kernel⟩
  obtain ⟨s, hs, hentry, hhanded⟩ := hrun
  obtain ⟨r, hlast, _, _, hne⟩ := h s (Machine.reachableWhen_of_run _ hs) 7 1 hentry
  rw [hlast, Option.map_some, Option.some.injEq] at hhanded
  exact hne hhanded

end BusEntries

end AsioMsg
