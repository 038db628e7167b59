import AsioMsg.Lib.Machine
import AsioMsg.MsgBus
import AsioMsg.PingPong

/-!
How many replies the bus hands to a session. Any session may send any package
at any time. A request with an id puts the entry of that id in the name of its
session, and a reply takes the entry away, so an entry stands for one request
of its session that has not been answered.
-/

namespace AsioMsg

variable {M : Type}

/-- A bus with the packages it has processed, by sender, and those it has handed on, by receiver. -/
structure BusRecord (M : Type) where
  bus : MsgBus := {}
  processed : List (ℤ × Package M) := []
  handed : List (ℤ × Package M) := []

inductive BusCall (M : Type)
  | room (call : RoomCall)
  | preHandleMessage (sessionId : ℤ) (pac : Package M)

/-- A REQREP package of a session with the id: a request if the session sent it, a reply if it was
handed to the session. -/
def isReqrep (id : ℤ) (msgId : BitVec 32) (entry : ℤ × Package M) : Bool :=
  entry.1 = id && entry.2.header.msgType = MsgType.REQREP.code && entry.2.header.msgId = msgId

namespace BusRecord

def preHandleMessage (s : BusRecord M) (sessionId : ℤ) (pac : Package M) : BusRecord M :=
  let (bus, handed) := s.bus.preHandleMessage sessionId pac
  { bus := bus
    processed := s.processed ++ [(sessionId, pac)]
    handed := s.handed ++ handed }

def step (s : BusRecord M) : BusCall M → Option (BusRecord M)
  | .room call => some { s with bus := { s.bus with room := call.apply s.bus.room } }
  | .preHandleMessage sessionId pac => some (s.preHandleMessage sessionId pac)

def machine (M : Type) : Machine (BusRecord M) (BusCall M) where
  init := {}
  step := step

def requests (s : BusRecord M) (id : ℤ) (msgId : BitVec 32) : ℕ :=
  s.processed.countP (isReqrep id msgId)

def replies (s : BusRecord M) (id : ℤ) (msgId : BitVec 32) : ℕ :=
  s.handed.countP (isReqrep id msgId)

end BusRecord

namespace MsgBus

/-- Whether the entry of the id is in the name of the session. -/
def owes (bus : MsgBus) (id : ℤ) (msgId : BitVec 32) : ℕ :=
  if bus.msgSessionCache msgId = some id then 1 else 0

variable (bus : MsgBus) (sessionId id : ℤ) (msgId : BitVec 32) {pac : Package M}

theorem owes_le_one : bus.owes id msgId ≤ 1 := by
  unfold owes
  split <;> omega

/-- A broadcast of a package that is not a REQREP contains no reply. -/
theorem countP_deliverPackage (room : SessionRoom)
    (htype : pac.header.msgType ≠ MsgType.REQREP.code) :
    (room.deliverPackage pac).countP (isReqrep id msgId) = 0 := by
  rw [List.countP_eq_zero]
  intro entry hentry
  have hpac : entry.2 = pac := SessionRoom.snd_of_mem_deliverPackage hentry
  simp [isReqrep, hpac, htype]

theorem countP_deliverPackageTo (room : SessionRoom) (waiter : ℤ) :
    (room.deliverPackageTo waiter pac).2.countP (isReqrep id msgId) ≤
      if waiter = id ∧ pac.header.msgId = msgId then 1 else 0 := by
  unfold SessionRoom.deliverPackageTo
  split
  · rw [List.countP_singleton]
    by_cases hreqrep : isReqrep id msgId (waiter, pac) = true
    · have hsame : waiter = id ∧ pac.header.msgId = msgId := by
        simp only [isReqrep, Bool.and_eq_true, decide_eq_true_eq] at hreqrep
        exact ⟨hreqrep.1.1, hreqrep.2⟩
      rw [if_pos hreqrep, if_pos hsame]
    · rw [if_neg hreqrep]
      exact Nat.zero_le _
  · exact Nat.zero_le _

/-- A request puts the entry of its id in the name of its session. -/
theorem owes_request (hreq : pac.header.msgType = MsgType.REQREP.code) :
    { bus with
      msgSessionCache :=
        Function.update bus.msgSessionCache pac.header.msgId (some sessionId) }.owes id msgId ≤
      [(sessionId, pac)].countP (isReqrep id msgId) + bus.owes id msgId := by
  rw [List.countP_singleton]
  by_cases hid : pac.header.msgId = msgId
  · subst hid
    by_cases hsession : sessionId = id
    · have hreqrep : isReqrep id pac.header.msgId (sessionId, pac) = true := by
        simp [isReqrep, hsession, hreq]
      rw [if_pos hreqrep]
      exact Nat.le_add_right_of_le (owes_le_one ..)
    · have howes : ¬ some sessionId = some id := fun h => hsession (Option.some.inj h)
      simp only [owes, Function.update_self]
      rw [if_neg howes]
      exact Nat.zero_le _
  · simp only [owes, Function.update_of_ne (Ne.symm hid)]
    exact Nat.le_add_left _ _

/-- A reply takes the entry of its id, and goes to the session in whose name it was. -/
theorem countP_reply :
    (if 0 < (bus.msgSessionCache pac.header.msgId).getD 0 then
        (bus.room.deliverPackageTo ((bus.msgSessionCache pac.header.msgId).getD 0)
          (pac.setMsgType .REQREP)).2
      else []).countP (isReqrep id msgId) +
      { bus with
        msgSessionCache :=
          Function.update bus.msgSessionCache pac.header.msgId none }.owes id msgId ≤
      bus.owes id msgId := by
  have hcount : ∀ waiter, (bus.room.deliverPackageTo waiter (pac.setMsgType .REQREP)).2.countP
      (isReqrep id msgId) ≤ if waiter = id ∧ pac.header.msgId = msgId then 1 else 0 :=
    countP_deliverPackageTo id msgId bus.room
  by_cases hid : pac.header.msgId = msgId
  · subst hid
    cases hcache : bus.msgSessionCache pac.header.msgId with
    | none => simp [owes]
    | some waiter =>
      have howes : bus.owes id pac.header.msgId = if waiter = id then 1 else 0 := by
        simp [owes, hcache]
      simp only [and_true] at hcount
      simp only [owes, Function.update_self, Option.getD_some] at howes ⊢
      rw [howes, if_neg (Option.some_ne_none id).symm, Nat.add_zero]
      split
      · exact hcount waiter
      · exact Nat.zero_le _
  · have howes : { bus with
        msgSessionCache :=
          Function.update bus.msgSessionCache pac.header.msgId none }.owes id msgId =
        bus.owes id msgId := by
      simp only [owes, Function.update_of_ne (Ne.symm hid)]
    rw [howes]
    simp only [hid, and_false, if_false] at hcount
    split
    · have hzero := hcount ((bus.msgSessionCache pac.header.msgId).getD 0)
      omega
    · simp

/-- One call keeps account: a reply to a session comes out of the entry in its name, and an entry
in its name out of a request of the session. -/
theorem preHandleMessage_accounts :
    (bus.preHandleMessage sessionId pac).2.countP (isReqrep id msgId) +
        (bus.preHandleMessage sessionId pac).1.owes id msgId ≤
      [(sessionId, pac)].countP (isReqrep id msgId) + bus.owes id msgId := by
  by_cases hptr : pac.msgPtr = none
  · by_cases hreq : pac.header.msgType = MsgType.REQREP.code
    · rw [bus.preHandleMessage_reqrep sessionId hptr hreq,
        countP_deliverPackage id msgId bus.room (by decide : MsgType.DELIVER.code ≠ _),
        Nat.zero_add]
      exact owes_request bus sessionId id msgId hreq
    · by_cases hdel : pac.header.msgType = MsgType.DELIVER.code
      · rw [bus.preHandleMessage_deliver sessionId hptr hdel]
        exact Nat.le_add_left_of_le (countP_reply bus id msgId)
      · have hcount : (bus.preHandleMessage sessionId pac).2.countP (isReqrep id msgId) = 0 ∧
            (bus.preHandleMessage sessionId pac).1 = bus := by
          by_cases hpub : pac.header.msgType = MsgType.PUBSUB.code
          · rw [bus.preHandleMessage_pubsub sessionId hptr hpub]
            exact ⟨countP_deliverPackage id msgId bus.room hreq, rfl⟩
          · simp [preHandleMessage, hptr, hreq, hdel, hpub]
        rw [hcount.1, hcount.2, Nat.zero_add]
        exact Nat.le_add_left _ _
  · have hsome : pac.msgPtr.isSome = true := by
      simpa [Option.isSome_iff_ne_none] using hptr
    rw [preHandleMessage, if_pos hsome, List.countP_nil, Nat.zero_add]
    exact Nat.le_add_left _ _

end MsgBus

namespace BusRecord

variable {s t : BusRecord M} {a : BusCall M} {id : ℤ} {msgId : BitVec 32}

/-- What a session has been handed and what the bus still owes it, it has asked for. -/
def Accounted (s : BusRecord M) (id : ℤ) (msgId : BitVec 32) : Prop :=
  s.replies id msgId + s.bus.owes id msgId ≤ s.requests id msgId

theorem Accounted.step (h : s.Accounted id msgId) (hstep : s.step a = some t) :
    t.Accounted id msgId := by
  cases a with
  | room call =>
    obtain rfl := Option.some.inj hstep
    exact h
  | preHandleMessage sessionId pac =>
    obtain rfl := Option.some.inj hstep
    have hcall := @MsgBus.preHandleMessage_accounts M s.bus sessionId id msgId pac
    simp only [Accounted, replies, requests, BusRecord.preHandleMessage, List.countP_append] at h ⊢
    omega

/-- In every state that the bus comes to, by any packages of any sessions in any order, a session
has been handed at most as many replies with an id as it has sent requests with the id. -/
theorem replies_le_requests (h : (machine M).Reachable s) (id : ℤ) (msgId : BitVec 32) :
    s.replies id msgId ≤ s.requests id msgId := by
  have haccounted : s.Accounted id msgId := by
    refine Machine.Reachable.invariant (I := fun s => s.Accounted id msgId) ?_ ?_ h
    · exact Nat.le_refl _
    · exact fun _ _ _ hs hstep => hs.step hstep
  exact Nat.le_of_add_right_le haccounted

/-- A reply of a provider: the header of the request with the type DELIVER. -/
def pingReply (msgId : BitVec 32) : Package PingPong :=
  { (PingPong.request PingPong.blank msgId).setMsgType .DELIVER with msgPtr := none }

/-- Session 1 asks once, the provider answers twice, and a session that was not asked answers. -/
def eagerReplies : List (BusCall PingPong) :=
  [.room (.join 1), .room (.join 2), .room (.join 3),
    .room (.addSubscribe 2 3 PingPong.typeName),
    .preHandleMessage 1 { PingPong.request PingPong.blank 7 with msgPtr := none },
    .preHandleMessage 3 (pingReply 7), .preHandleMessage 2 (pingReply 7),
    .preHandleMessage 2 (pingReply 7)]

theorem replies_le_requests_ping :
    ∃ s : BusRecord PingPong, s.handed.length = 2 ∧ s.replies 1 7 = 1 ∧
      s.replies 1 7 ≤ s.requests 1 7 := by
  have hrun : ((machine PingPong).run (fun _ _ => True) (machine PingPong).init
      eagerReplies).map (fun s => (s.handed.length, s.replies 1 7)) = some (2, 1) := by
    decide +kernel
  obtain ⟨s, hs, hcounts⟩ := Option.map_eq_some_iff.mp hrun
  obtain ⟨hhanded, hreplies⟩ := Prod.mk.inj hcounts
  have hle := replies_le_requests (Machine.reachableWhen_of_run eagerReplies hs) 1 7
  exact ⟨s, hhanded, hreplies, hle⟩

end BusRecord

end AsioMsg
