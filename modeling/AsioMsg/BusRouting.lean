import AsioMsg.Lib.Machine
import AsioMsg.MsgBus
import AsioMsg.PingPong

/-!
Requests and replies over the bus. Every client numbers its requests from the
same start, so requests of two sessions can have one id on their way at once;
the bus remembers one session for an id. The origin of a request travels with
its copies and with the replies to them, for the statement only.
-/

namespace AsioMsg

variable {M : Type}

/-- The session that sent a request, and which of its requests it is. -/
structure Origin where
  session : ℤ
  number : ℕ
  deriving DecidableEq

/-- A package between the bus and a provider. -/
structure Transit (M : Type) where
  provider : ℤ
  pac : Package M
  origin : Origin

/-- What the bus has processed. -/
inductive BusEvent
  | request (session : ℤ) (msgId : BitVec 32)
  | reply (msgId : BitVec 32)

/-- The session of a request that no reply with its id has followed. -/
def BusEvent.marksWaiting (msgId : BitVec 32) : BusEvent → Option (Option ℤ)
  | .request session id => if id = msgId then some (some session) else none
  | .reply id => if id = msgId then some none else none

/-- The session waiting for a reply with the id: that of the request with it, if the last package
with the id was one. -/
def waiting (history : List BusEvent) (msgId : BitVec 32) : Option ℤ :=
  lastMark none (BusEvent.marksWaiting msgId) history

structure BusRun (M : Type) where
  bus : MsgBus := {}
  /-- The id_ of the client behind each session, and how many requests it has sent. -/
  ids : ℤ → BitVec 32 := fun _ => 0
  sent : ℤ → ℕ := fun _ => 0
  /-- Requests handed to a provider that it has not answered. -/
  copies : List (Transit M) := []
  /-- Replies that the bus has not processed. -/
  replies : List (Transit M) := []
  history : List BusEvent := []
  /-- The replies handed on: the receiver and the origin of the answered request. -/
  forwarded : List (ℤ × Origin) := []

inductive BusAction (M : Type)
  | room (call : RoomCall)
  | skipId (session : ℤ)
  | request (session : ℤ) (pac : Package M)
  | reply (i : ℕ) (rsp : Package M)
  | processReply (i : ℕ)
  | loseCopy (i : ℕ)
  | loseReply (i : ℕ)

namespace BusRun

/-- A request as the bus decodes it: postMessage sets the type and the id. -/
def requestPackage (pac : Package M) (msgId : BitVec 32) : Package M :=
  { pac with
    header := { pac.header with msgType := MsgType.REQREP.code, msgId := msgId }
    msgPtr := none }

/-- What the way through two encoders rewrites in a header: the lengths and the bit iszip. -/
def rewritten (header wire : PacHeader) : PacHeader :=
  { header.setIszip wire.iszip with
    typeNameLen := wire.typeNameLen
    msgSize := wire.msgSize
    pacSize := wire.pacSize }

/-- The answer of DeliverHandler::replyDeliver, with the request's header, as the bus decodes
it. -/
def replyDeliver (req rsp : Package M) : Package M :=
  { rsp with
    header := rewritten req.header rsp.header
    msgPtr := none }

/-- The bus processes the next request of a session. -/
def request (s : BusRun M) (session : ℤ) (pac : Package M) : BusRun M :=
  let msgId := nextMsgId (s.ids session)
  let (bus, handed) := s.bus.preHandleMessage session (requestPackage pac msgId)
  { s with
    bus := bus
    ids := Function.update s.ids session (s.ids session + 1)
    sent := Function.update s.sent session (s.sent session + 1)
    copies := s.copies ++ handed.map fun entry => ⟨entry.1, entry.2, session, s.sent session⟩
    history := s.history ++ [.request session msgId] }

def reply (s : BusRun M) (i : ℕ) (rsp : Package M) (copy : Transit M) : BusRun M :=
  { s with
    copies := s.copies.eraseIdx i
    replies := s.replies ++ [{ copy with pac := replyDeliver copy.pac rsp }] }

/-- The bus processes a reply. -/
def processReply (s : BusRun M) (i : ℕ) (rsp : Transit M) : BusRun M :=
  let (bus, handed) := s.bus.preHandleMessage rsp.provider rsp.pac
  { s with
    bus := bus
    replies := s.replies.eraseIdx i
    history := s.history ++ [.reply rsp.pac.header.msgId]
    forwarded := s.forwarded ++ handed.map fun entry => (entry.1, rsp.origin) }

def step (s : BusRun M) : BusAction M → Option (BusRun M)
  | .room call => some { s with bus := { s.bus with room := call.apply s.bus.room } }
  | .skipId session => some { s with ids := Function.update s.ids session (s.ids session + 1) }
  | .request session pac => some (s.request session pac)
  | .reply i rsp => (s.copies[i]?).map (s.reply i rsp)
  | .processReply i => (s.replies[i]?).map (s.processReply i)
  | .loseCopy i => some { s with copies := s.copies.eraseIdx i }
  | .loseReply i => some { s with replies := s.replies.eraseIdx i }

def machine (M : Type) : Machine (BusRun M) (BusAction M) where
  init := {}
  step := step

/-- The last package with the id of the next reply was not a request of another session that is
still there. -/
def NotOvertaken (s : BusRun M) : BusAction M → Prop
  | .processReply i => ∀ rsp ∈ s.replies[i]?, ∀ session ∈ waiting s.history rsp.pac.header.msgId,
      0 < session → session ∈ s.bus.room.sessionCache → session = rsp.origin.session
  | _ => True

instance (s : BusRun M) (a : BusAction M) : Decidable (s.NotOvertaken a) :=
  match a with
  | .processReply i => inferInstanceAs (Decidable (∀ rsp ∈ s.replies[i]?,
      ∀ session ∈ waiting s.history rsp.pac.header.msgId, 0 < session →
        session ∈ s.bus.room.sessionCache → session = rsp.origin.session))
  | .room .. | .skipId .. | .request .. | .reply .. | .loseCopy .. | .loseReply .. =>
    inferInstanceAs (Decidable True)

/-- A package on its way is one the bus treats as a reply. -/
structure Routed (item : Transit M) : Prop where
  msgPtr_eq : item.pac.msgPtr = none
  msgType_eq : item.pac.header.msgType = MsgType.DELIVER.code

structure Inv (s : BusRun M) : Prop where
  routed : ∀ item ∈ s.copies ++ s.replies, Routed item
  msgSessionCache : ∀ msgId, s.bus.msgSessionCache msgId = waiting s.history msgId

variable {s t : BusRun M}

/-- Steps that only let packages get lost. -/
theorem Inv.sub (h : s.Inv) (hbus : t.bus.msgSessionCache = s.bus.msgSessionCache)
    (hhistory : t.history = s.history)
    (hsub : ∀ item ∈ t.copies ++ t.replies, item ∈ s.copies ++ s.replies) : t.Inv where
  routed item hitem := h.routed item (hsub item hitem)
  msgSessionCache := by rw [hbus, hhistory]; exact h.msgSessionCache

theorem Inv.request (h : s.Inv) (session : ℤ) (pac : Package M) :
    (s.request session pac).Inv := by
  have hptr : (requestPackage pac (nextMsgId (s.ids session))).msgPtr = none := rfl
  have heq := s.bus.preHandleMessage_reqrep session hptr rfl
  simp only [BusRun.request, heq]
  refine ⟨?_, ?_⟩
  · intro item hitem
    simp only [List.mem_append, List.mem_map] at hitem
    rcases hitem with (hitem | ⟨entry, hentry, rfl⟩) | hitem
    · exact h.routed item (List.mem_append_left _ hitem)
    · have hcopy := SessionRoom.snd_of_mem_deliverPackage hentry
      exact ⟨congrArg Package.msgPtr hcopy, congrArg (fun pac => pac.header.msgType) hcopy⟩
    · exact h.routed item (List.mem_append_right _ hitem)
  · intro msgId
    rw [waiting, lastMark_concat]
    by_cases hsame : msgId = nextMsgId (s.ids session)
    · simp [hsame, BusEvent.marksWaiting, requestPackage]
    · simp only [BusEvent.marksWaiting, Ne.symm hsame, if_false, Option.getD_none,
        requestPackage, Function.update_of_ne hsame]
      exact h.msgSessionCache msgId

theorem Inv.reply (h : s.Inv) {i : ℕ} {rsp : Package M} {copy : Transit M}
    (hget : s.copies[i]? = some copy) : (s.reply i rsp copy).Inv := by
  refine ⟨?_, h.msgSessionCache⟩
  intro item hitem
  simp only [BusRun.reply, List.mem_append, List.mem_singleton] at hitem
  rcases hitem with hitem | hitem | rfl
  · exact h.routed item (List.mem_append_left _ (List.mem_of_mem_eraseIdx hitem))
  · exact h.routed item (List.mem_append_right _ hitem)
  · obtain ⟨_, htype⟩ := h.routed copy (List.mem_append_left _ (List.mem_of_getElem? hget))
    exact ⟨rfl, htype⟩

theorem Inv.processReply (h : s.Inv) {i : ℕ} {rsp : Transit M}
    (hget : s.replies[i]? = some rsp) : (s.processReply i rsp).Inv := by
  obtain ⟨hptr, htype⟩ := h.routed rsp (List.mem_append_right _ (List.mem_of_getElem? hget))
  have heq := s.bus.preHandleMessage_deliver rsp.provider hptr htype
  simp only [BusRun.processReply, heq]
  refine ⟨?_, ?_⟩
  · intro item hitem
    rw [List.mem_append] at hitem
    exact h.routed item (List.mem_append.mpr (hitem.imp_right List.mem_of_mem_eraseIdx))
  · intro msgId
    rw [waiting, lastMark_concat]
    by_cases hsame : msgId = rsp.pac.header.msgId
    · simp [hsame, BusEvent.marksWaiting]
    · simp only [BusEvent.marksWaiting, Ne.symm hsame, if_false, Option.getD_none,
        Function.update_of_ne hsame]
      exact h.msgSessionCache msgId

theorem Inv.step (h : s.Inv) {a : BusAction M} (hstep : s.step a = some t) : t.Inv := by
  cases a with
  | room call =>
    obtain rfl := Option.some.inj hstep
    exact h.sub rfl rfl fun _ hitem => hitem
  | skipId session =>
    obtain rfl := Option.some.inj hstep
    exact h.sub rfl rfl fun _ hitem => hitem
  | request session pac =>
    obtain rfl := Option.some.inj hstep
    exact h.request session pac
  | reply i rsp =>
    obtain ⟨copy, hget, rfl⟩ := Option.map_eq_some_iff.mp hstep
    exact h.reply hget
  | processReply i =>
    obtain ⟨rsp, hget, rfl⟩ := Option.map_eq_some_iff.mp hstep
    exact h.processReply hget
  | loseCopy i =>
    obtain rfl := Option.some.inj hstep
    refine h.sub rfl rfl fun item hitem => ?_
    rw [List.mem_append] at hitem ⊢
    exact hitem.imp_left List.mem_of_mem_eraseIdx
  | loseReply i =>
    obtain rfl := Option.some.inj hstep
    refine h.sub rfl rfl fun item hitem => ?_
    rw [List.mem_append] at hitem ⊢
    exact hitem.imp_right List.mem_of_mem_eraseIdx

/-- A reply is handed to the session waiting for its id, if there is one and it is joined. -/
theorem Inv.mem_forwarded_processReply (h : s.Inv) {i : ℕ} {rsp : Transit M}
    (hget : s.replies[i]? = some rsp) (entry : ℤ × Origin) :
    entry ∈ (s.processReply i rsp).forwarded ↔ entry ∈ s.forwarded ∨
      (waiting s.history rsp.pac.header.msgId = some entry.1 ∧ 0 < entry.1 ∧
        entry.1 ∈ s.bus.room.sessionCache) ∧ entry.2 = rsp.origin := by
  obtain ⟨hptr, htype⟩ := h.routed rsp (List.mem_append_right _ (List.mem_of_getElem? hget))
  have heq := s.bus.preHandleMessage_deliver rsp.provider hptr htype
  simp only [BusRun.processReply, heq, h.msgSessionCache, List.mem_append]
  refine or_congr_right ?_
  obtain ⟨receiver, origin⟩ := entry
  cases waiting s.history rsp.pac.header.msgId with
  | none => simp
  | some id =>
    rw [Option.getD_some, Option.some.injEq]
    by_cases hpos : 0 < id
    · by_cases hjoined : id ∈ s.bus.room.sessionCache
      · simp only [hpos, if_true, SessionRoom.deliverPackageTo, hjoined, List.map_cons,
          List.map_nil, List.mem_singleton, Prod.mk.injEq]
        refine and_congr_left fun _ => ⟨?_, fun hsame => hsame.1.symm⟩
        rintro rfl
        exact ⟨rfl, hpos, hjoined⟩
      · simp only [hpos, if_true, SessionRoom.deliverPackageTo, hjoined, if_false, List.map_nil]
        exact iff_of_false List.not_mem_nil fun hsame => hjoined (hsame.1.1 ▸ hsame.1.2.2)
    · simp only [hpos, if_false, List.map_nil]
      exact iff_of_false List.not_mem_nil fun hsame => hpos (hsame.1.1 ▸ hsame.1.2.1)

/-- Every reply handed on went to the session whose request it answers. -/
def ForwardedToOrigin (s : BusRun M) : Prop := ∀ entry ∈ s.forwarded, entry.1 = entry.2.session

theorem forwardedToOrigin_step (h : s.Inv) {a : BusAction M} (hstep : s.step a = some t) :
    t.ForwardedToOrigin ↔ s.ForwardedToOrigin ∧ s.NotOvertaken a := by
  cases a with
  | processReply i =>
    obtain ⟨rsp, hget, rfl⟩ := Option.map_eq_some_iff.mp hstep
    simp only [ForwardedToOrigin, NotOvertaken, h.mem_forwarded_processReply hget, hget,
      Option.mem_def, Option.some.injEq, forall_eq']
    constructor
    · intro hall
      refine ⟨fun entry hentry => hall entry (Or.inl hentry), ?_⟩
      intro session hwaiting hpos hjoined
      exact hall (session, rsp.origin) (Or.inr ⟨⟨hwaiting, hpos, hjoined⟩, rfl⟩)
    · rintro ⟨hold, hnot⟩ entry (hentry | ⟨⟨hwaiting, hpos, hjoined⟩, horigin⟩)
      · exact hold entry hentry
      · rw [horigin]
        exact hnot entry.1 hwaiting hpos hjoined
  | reply i rsp =>
    obtain ⟨copy, _, rfl⟩ := Option.map_eq_some_iff.mp hstep
    exact (and_iff_left trivial).symm
  | room | skipId | request | loseCopy | loseReply =>
    obtain rfl := Option.some.inj hstep
    exact (and_iff_left trivial).symm

theorem inv_init : (BusRun.machine M).init.Inv where
  routed _ hitem := nomatch hitem
  msgSessionCache _ := rfl

/-- A run hands every reply to the session whose request it answers iff no reply of it is
overtaken by another session's request with its id. -/
theorem forwardedToOrigin_iff (labels : List (BusAction M)) (s : BusRun M)
    (hrun : (machine M).run (fun _ _ => True) (machine M).init labels = some s) :
    (∀ entry ∈ s.forwarded, entry.1 = entry.2.session) ↔
      (machine M).run NotOvertaken (machine M).init labels = some s := by
  have hcases : ((machine M).run NotOvertaken (machine M).init labels = some s ∧
        s.Inv ∧ s.ForwardedToOrigin) ∨
      ((machine M).run NotOvertaken (machine M).init labels = none ∧
        s.Inv ∧ ¬ s.ForwardedToOrigin) := by
    refine (machine M).run_cases NotOvertaken (G := fun s => s.Inv ∧ s.ForwardedToOrigin)
      (B := fun s => s.Inv ∧ ¬ s.ForwardedToOrigin) ?_ ?_ ?_ labels _ s
      ⟨inv_init, fun _ hentry => nomatch hentry⟩ hrun
    · exact fun _ _ _ hs hok hstep =>
        ⟨hs.1.step hstep, (forwardedToOrigin_step hs.1 hstep).mpr ⟨hs.2, hok⟩⟩
    · exact fun _ _ _ hs hok hstep =>
        ⟨hs.1.step hstep, fun hright => hok ((forwardedToOrigin_step hs.1 hstep).mp hright).2⟩
    · exact fun _ _ _ hs hstep =>
        ⟨hs.1.step hstep, fun hright => hs.2 ((forwardedToOrigin_step hs.1 hstep).mp hright).1⟩
  rcases hcases with ⟨hkept, _, hright⟩ | ⟨hbroken, _, hwrong⟩
  · exact iff_of_true hright hkept
  · exact iff_of_false hwrong (by simp [hbroken])

/-- Two clients and a provider of the PingPong service. -/
def pingRoom : List (BusAction PingPong) :=
  [.room (.join 1), .room (.join 2), .room (.join 3),
    .room (.addSubscribe 3 3 PingPong.typeName)]

def opaqueRequest : Package PingPong := { typeName := PingPong.typeName }

/-- One request after the other, both with id 1. -/
def pingRun : List (BusAction PingPong) :=
  pingRoom ++ [.request 1 opaqueRequest, .reply 0 opaqueRequest, .processReply 0,
    .request 2 opaqueRequest, .reply 0 opaqueRequest, .processReply 0]

theorem forwardedToOrigin_ping :
    ∃ s, ((machine PingPong).run NotOvertaken (machine PingPong).init pingRun).isSome ∧
      s.forwarded = [(1, ⟨1, 0⟩), (2, ⟨2, 0⟩)] ∧
      ((∀ entry ∈ s.forwarded, entry.1 = entry.2.session) ↔
        (machine PingPong).run NotOvertaken (machine PingPong).init pingRun = some s) := by
  have hrun : ((machine PingPong).run (fun _ _ => True) (machine PingPong).init pingRun).map
      BusRun.forwarded = some [(1, ⟨1, 0⟩), (2, ⟨2, 0⟩)] := by decide +kernel
  obtain ⟨s, hs, hforwarded⟩ := Option.map_eq_some_iff.mp hrun
  exact ⟨s, by decide +kernel, hforwarded, forwardedToOrigin_iff pingRun s hs⟩

/-- Two clients send their first requests; the reply to the first one goes to the second. -/
theorem forwardedToOrigin_fails :
    ¬ ∀ s : BusRun PingPong, (machine PingPong).Reachable s →
      ∀ entry ∈ s.forwarded, entry.1 = entry.2.session := by
  intro hall
  let labels : List (BusAction PingPong) := pingRoom ++ [.request 1 opaqueRequest,
    .request 2 opaqueRequest, .reply 0 opaqueRequest, .processReply 0]
  have hrun : ((machine PingPong).run (fun _ _ => True) (machine PingPong).init labels).map
      BusRun.forwarded = some [(2, ⟨1, 0⟩)] := by decide +kernel
  obtain ⟨s, hs, hforwarded⟩ := Option.map_eq_some_iff.mp hrun
  have horigin := hall s (Machine.reachableWhen_of_run labels hs) (2, ⟨1, 0⟩) (by
    rw [hforwarded]
    exact List.mem_singleton.mpr rfl)
  exact absurd horigin (by decide)

end BusRun

end AsioMsg
