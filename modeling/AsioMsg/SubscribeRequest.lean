import AsioMsg.AsioServer
import AsioMsg.Session

/-!
A subscription from the client's handlers to the server's tables. startSubscribe
puts a type and a name into the request for every name of every handler;
doSubscribe runs over the two lists by one index.
-/

namespace AsioMsg

/-- The messages of pb_base.proto that a subscription exchanges. -/
inductive BaseMessage
  | subscribeReq (msg : SubscribeReq)
  | subscribeRsp (errorcode : ℤ)
  deriving DecidableEq

/-- What type() and typeNames() of a Handler return. -/
structure Handler where
  type : ℤ
  typeNames : List Bytes

/-- add_msgtypelist and add_typenamelist, for one name of a handler. -/
def addTypeName (type : ℤ) (msg : SubscribeReq) (typeName : Bytes) : SubscribeReq :=
  { msg with
    msgTypeList := msg.msgTypeList ++ [type]
    typeNameList := msg.typeNameList ++ [typeName] }

/-- The request of AsioClient::startSubscribe, if it posts one. -/
def startSubscribe (handlerList : List Handler) : Option SubscribeReq :=
  if handlerList.isEmpty then none
  else some (handlerList.foldl
    (fun msg handler => handler.typeNames.foldl (addTypeName handler.type) msg)
    { type := 1, msgTypeList := [], typeNameList := [] })

/-- AsioServer::doSubscribe from its start to its end: the room that it leaves and the packages
that it replies with. -/
def handleSubscribe (b : Build BaseMessage) (room : SessionRoom) (sessionId : ℤ)
    (header : PacHeader) (msg : SubscribeReq) : SessionRoom × List (Package BaseMessage) :=
  let reqPtr : Package BaseMessage := {
    header := header
    typeName := b.protobuf.getTypeName (.subscribeReq msg)
    msgPtr := some (.subscribeReq msg) }
  match doSubscribe sessionId msg with
  | none => (room, [])
  | some calls => (calls.foldl RoomCall.apply room, [replyPackage b reqPtr (.subscribeRsp 0)])

namespace SubscribeReq

/-- The type and the name stand at the same index of the two lists. -/
def Occurs (msg : SubscribeReq) (t : MsgType) (name : Bytes) : Prop :=
  ∃ i : ℕ, msg.msgTypeList[i]? = some t.toInt ∧ msg.typeNameList[i]? = some name

theorem occurs_iff_mem_zip (msg : SubscribeReq) (t : MsgType) (name : Bytes) :
    msg.Occurs t name ↔ (t.toInt, name) ∈ msg.msgTypeList.zip msg.typeNameList := by
  rw [List.mem_iff_getElem?, Occurs]
  simp only [List.getElem?_zip_eq_some]

end SubscribeReq

/-- The inner loop of startSubscribe. -/
theorem foldl_addTypeName (type : ℤ) (typeNames : List Bytes) (msg : SubscribeReq) :
    typeNames.foldl (addTypeName type) msg = { msg with
      msgTypeList := msg.msgTypeList ++ typeNames.map fun _ => type
      typeNameList := msg.typeNameList ++ typeNames } := by
  induction typeNames generalizing msg with
  | nil => simp
  | cons typeName rest ih => simp [ih, addTypeName]

/-- The two loops of startSubscribe, from any request on. -/
theorem foldl_handlers (handlerList : List Handler) (msg : SubscribeReq) :
    handlerList.foldl (fun msg handler => handler.typeNames.foldl (addTypeName handler.type) msg)
      msg = { msg with
        msgTypeList := msg.msgTypeList ++
          handlerList.flatMap fun handler => handler.typeNames.map fun _ => handler.type
        typeNameList := msg.typeNameList ++ handlerList.flatMap Handler.typeNames } := by
  induction handlerList generalizing msg with
  | nil => simp
  | cons handler rest ih =>
    rw [List.foldl_cons, ih, foldl_addTypeName, List.flatMap_cons, List.flatMap_cons,
      ← List.append_assoc, ← List.append_assoc]

theorem startSubscribe_eq {handlerList : List Handler} {msg : SubscribeReq}
    (h : startSubscribe handlerList = some msg) :
    msg = {
      type := 1
      msgTypeList := handlerList.flatMap fun handler => handler.typeNames.map fun _ => handler.type
      typeNameList := handlerList.flatMap Handler.typeNames } := by
  obtain ⟨_, h⟩ := Option.ite_none_left_eq_some.mp h
  rw [foldl_handlers, Option.some.injEq] at h
  simpa using h.symm

/-- Every request of startSubscribe passes the size check of doSubscribe. -/
theorem startSubscribe_lengths {handlerList : List Handler} {msg : SubscribeReq}
    (h : startSubscribe handlerList = some msg) :
    msg.typeNameList.length = msg.msgTypeList.length := by
  rw [startSubscribe_eq h]
  simp only [List.length_flatMap, List.length_map]

/-- The entries of the request are the names of the handlers, each with the type of its handler. -/
theorem startSubscribe_occurs {handlerList : List Handler} {msg : SubscribeReq}
    (h : startSubscribe handlerList = some msg) (t : MsgType) (name : Bytes) :
    msg.Occurs t name ↔
      ∃ handler ∈ handlerList, handler.type = t.toInt ∧ name ∈ handler.typeNames := by
  rw [msg.occurs_iff_mem_zip, startSubscribe_eq h]
  clear h
  induction handlerList with
  | nil => simp
  | cons handler rest ih =>
    have hzip : (handler.typeNames.map fun _ => handler.type).zip handler.typeNames =
        handler.typeNames.map fun typeName => (handler.type, typeName) := by
      have hmap := List.zip_map' (l := handler.typeNames) (f := fun _ => handler.type) (g := id)
      rwa [List.map_id] at hmap
    rw [List.flatMap_cons, List.flatMap_cons, List.zip_append (List.length_map _), List.mem_append,
      ih, hzip]
    simp [eq_comm, and_comm]

/-- The calls of an accepted request are one for each index, of the kind that its type selects. -/
theorem mem_doSubscribe {sessionId : ℤ} {msg : SubscribeReq} {calls : List RoomCall}
    (h : doSubscribe sessionId msg = some calls) (call : RoomCall) :
    call ∈ calls ↔ ∃ entry ∈ msg.msgTypeList.zip msg.typeNameList,
      call = if msg.type = 1 then .addSubscribe sessionId entry.1 entry.2
        else .delSubscribe sessionId entry.1 entry.2 := by
  obtain ⟨_, h⟩ := Option.ite_none_left_eq_some.mp h
  rw [← Option.some.inj h, List.mem_map]
  simp only [eq_comm]

section Accepted

variable {sessionId : ℤ} {msg : SubscribeReq} {calls : List RoomCall}

theorem marksSubscribed_entry (sessionId : ℤ) (msg : SubscribeReq) (entry : ℤ × Bytes) (id : ℤ)
    (t : MsgType) (name : Bytes) :
    RoomCall.marksSubscribed id t name
      (if msg.type = 1 then .addSubscribe sessionId entry.1 entry.2
        else .delSubscribe sessionId entry.1 entry.2) =
      if sessionId = id ∧ entry = (t.toInt, name) then some (decide (msg.type = 1)) else none := by
  by_cases htype : msg.type = 1 <;> simp [htype, RoomCall.marksSubscribed, Prod.ext_iff]

/-- Whatever other calls, all about other subscriptions, come in between: the session has what the
request says about a name that occurs in it, and what it had about any other. -/
theorem mem_table_request (h : doSubscribe sessionId msg = some calls) (room : SessionRoom)
    (t : MsgType) (name : Bytes) (ht : t ≠ .REQREP) (trace : List RoomCall)
    (hall : ∀ call ∈ calls, call ∈ trace)
    (hother : ∀ call ∈ trace, call ∈ calls ∨ call.marksSubscribed sessionId t name = none) :
    sessionId ∈ (trace.foldl RoomCall.apply room).table t name ↔
      (msg.Occurs t name ∧ msg.type = 1) ∨
        (¬ msg.Occurs t name ∧ sessionId ∈ room.table t name) := by
  have hmarked : (∃ call ∈ trace, (call.marksSubscribed sessionId t name).isSome) ↔
      msg.Occurs t name := by
    rw [msg.occurs_iff_mem_zip]
    constructor
    · rintro ⟨call, hcall, hmark⟩
      rcases hother call hcall with hmine | hnone
      · obtain ⟨entry, hentry, rfl⟩ := (mem_doSubscribe h call).mp hmine
        rw [marksSubscribed_entry, Option.isSome_ite] at hmark
        exact hmark.2 ▸ hentry
      · simp [hnone] at hmark
    · intro hentry
      refine ⟨_, hall _ ((mem_doSubscribe h _).mpr ⟨_, hentry, rfl⟩), ?_⟩
      rw [marksSubscribed_entry, Option.isSome_ite]
      exact ⟨rfl, rfl⟩
  have hagree : ∀ call ∈ trace, ∀ b, call.marksSubscribed sessionId t name = some b →
      b = decide (msg.type = 1) := by
    intro call hcall b hmark
    rcases hother call hcall with hmine | hnone
    · obtain ⟨entry, _, rfl⟩ := (mem_doSubscribe h call).mp hmine
      rw [marksSubscribed_entry] at hmark
      exact (Option.some.inj (Option.ite_none_right_eq_some.mp hmark).2).symm
    · simp [hnone] at hmark
  have hfold := holds_foldl_of_agree RoomCall.apply (fun r => sessionId ∈ r.table t name)
    (RoomCall.marksSubscribed sessionId t name)
    (fun r _ _ hmark => RoomCall.mem_table_of_mark ht r hmark)
    (fun r _ hmark => RoomCall.mem_table_of_no_mark ht r hmark) (decide (msg.type = 1)) trace
    hagree room
  rwa [hmarked, decide_eq_true_iff] at hfold

end Accepted

theorem handleSubscribe_accepted (b : Build BaseMessage) (room : SessionRoom) (sessionId : ℤ)
    (header : PacHeader) {msg : SubscribeReq}
    (hlen : msg.typeNameList.length = msg.msgTypeList.length) :
    ∃ calls reply, doSubscribe sessionId msg = some calls ∧
      handleSubscribe b room sessionId header msg =
        (calls.foldl RoomCall.apply room, [reply]) ∧
      reply.header.msgId = header.msgId ∧ reply.msgPtr = some (.subscribeRsp 0) := by
  obtain ⟨calls, hcalls⟩ : ∃ calls, doSubscribe sessionId msg = some calls := by
    rw [doSubscribe, if_neg (not_not_intro hlen)]
    exact ⟨_, rfl⟩
  rw [handleSubscribe, hcalls]
  exact ⟨calls, _, rfl, rfl, rfl, rfl⟩

/-- A client's session gets the names of its handlers and keeps what it had. -/
theorem startSubscribe_subscribes {handlerList : List Handler} {msg : SubscribeReq}
    (h : startSubscribe handlerList = some msg) (b : Build BaseMessage) (room : SessionRoom)
    (sessionId : ℤ) (header : PacHeader) (t : MsgType) (name : Bytes) (ht : t ≠ .REQREP) :
    sessionId ∈ (handleSubscribe b room sessionId header msg).1.table t name ↔
      (∃ handler ∈ handlerList, handler.type = t.toInt ∧ name ∈ handler.typeNames) ∨
        sessionId ∈ room.table t name := by
  obtain ⟨calls, _, hcalls, hroom, _⟩ :=
    handleSubscribe_accepted b room sessionId header (startSubscribe_lengths h)
  have htype : msg.type = 1 := by rw [startSubscribe_eq h]
  rw [hroom, mem_table_request hcalls room t name ht calls (fun _ h => h) fun _ h => Or.inl h,
    ← startSubscribe_occurs h, and_iff_left htype]
  by_cases hoccurs : msg.Occurs t name <;> simp [hoccurs]

end AsioMsg
