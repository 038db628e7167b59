import AsioMsg.SessionRoom

/-!
The subscription tables against their history. Who gets a published message or
a delivered package is told by the last call about a session, a type and a
name, and nothing else in the history matters.
-/

namespace AsioMsg

variable {M : Type}

/-- The calls that are about the subscription of a session to a name with a type. -/
def RoomCall.Concerns (id : ℤ) (t : MsgType) (name : Bytes) : RoomCall → Prop
  | .join _ => False
  | .leave i => i = id
  | .addSubscribe i msgtype n => i = id ∧ msgtype = t.toInt ∧ n = name
  | .delSubscribe i msgtype n => i = id ∧ msgtype = t.toInt ∧ n = name

theorem RoomCall.marksSubscribed_of_not_concerns {call : RoomCall} {id : ℤ} {t : MsgType}
    {name : Bytes} (h : ¬ call.Concerns id t name) : call.marksSubscribed id t name = none := by
  cases call with
  | join i => rfl
  | leave i => exact if_neg h
  | addSubscribe i msgtype n => exact if_neg h
  | delSubscribe i msgtype n => exact if_neg h

/-- A call about something else leaves the subscription as it is. -/
theorem mem_table_of_not_concerns (history : List RoomCall) (call : RoomCall) (id : ℤ)
    (t : MsgType) (name : Bytes) (ht : t ≠ .REQREP) (h : ¬ call.Concerns id t name) :
    id ∈ (roomAfter (history ++ [call])).table t name ↔
      id ∈ (roomAfter history).table t name := by
  rw [mem_table_roomAfter _ _ _ _ ht, mem_table_roomAfter _ _ _ _ ht, Subscribed, Subscribed,
    lastMark_concat, RoomCall.marksSubscribed_of_not_concerns h, Option.getD_none]

theorem mem_publishMessage (history : List RoomCall) (name : Bytes) (id : ℤ) :
    id ∈ (roomAfter history).publishMessage name ↔
      Joined history id ∧ Subscribed history id .PUBSUB name := by
  rw [SessionRoom.publishMessage, SessionRoom.mem_receivers, mem_sessionCache_roomAfter,
    ← mem_table_roomAfter history id .PUBSUB name (by simp)]
  rfl

theorem mem_deliverPackage (history : List RoomCall) (pac : Package M) (id : ℤ) :
    id ∈ ((roomAfter history).deliverPackage pac).map Prod.fst ↔
      Joined history id ∧ Subscribed history id .DELIVER pac.typeName := by
  rw [SessionRoom.map_fst_deliverPackage, SessionRoom.mem_receivers, mem_sessionCache_roomAfter,
    ← mem_table_roomAfter history id .DELIVER pac.typeName (by simp)]
  rfl

theorem deliverPackageTo_roomAfter (history : List RoomCall) (id : ℤ) (pac : Package M) :
    (roomAfter history).deliverPackageTo id pac =
      if Joined history id then (true, [(id, pac)]) else (false, []) := by
  simp only [SessionRoom.deliverPackageTo, mem_sessionCache_roomAfter]

/-- After every history of calls: a message is published to the joined sessions whose last event
about the name was a PUBSUB subscription, to each once; a package is delivered to those with a
DELIVER subscription, to each once; to a single session it is delivered iff that has joined; and a
call about another session, type or name changes no subscription. -/
theorem roomAfter_implements_history (history : List RoomCall) :
    (∀ name, ((roomAfter history).publishMessage name).Nodup ∧
      ∀ id, id ∈ (roomAfter history).publishMessage name ↔
        Joined history id ∧ Subscribed history id .PUBSUB name) ∧
    (∀ pac : Package M, (((roomAfter history).deliverPackage pac).map Prod.fst).Nodup ∧
      (∀ entry ∈ (roomAfter history).deliverPackage pac, entry.2 = pac) ∧
      ∀ id, id ∈ ((roomAfter history).deliverPackage pac).map Prod.fst ↔
        Joined history id ∧ Subscribed history id .DELIVER pac.typeName) ∧
    (∀ id (pac : Package M), (roomAfter history).deliverPackageTo id pac =
      if Joined history id then (true, [(id, pac)]) else (false, [])) ∧
    ∀ (call : RoomCall) id t name, t ≠ .REQREP → ¬ call.Concerns id t name →
      (id ∈ (roomAfter (history ++ [call])).table t name ↔
        id ∈ (roomAfter history).table t name) := by
  refine ⟨?_, ?_, deliverPackageTo_roomAfter history, mem_table_of_not_concerns history⟩
  · intro name
    exact ⟨SessionRoom.receivers_nodup _ _, mem_publishMessage history name⟩
  · intro pac
    refine ⟨?_, ?_, mem_deliverPackage history pac⟩
    · rw [SessionRoom.map_fst_deliverPackage]
      exact SessionRoom.receivers_nodup _ _
    · exact fun _ hentry => SessionRoom.snd_of_mem_deliverPackage hentry

/-- A session that gives up one of two subscriptions keeps the other. -/
theorem roomAfter_implements_history_two :
    let history : List RoomCall :=
      [.join 1, .addSubscribe 1 2 [0x41], .addSubscribe 1 3 [0x41], .delSubscribe 1 2 [0x41]]
    1 ∉ (roomAfter history).publishMessage [0x41] ∧
      1 ∈ ((roomAfter history).deliverPackage (M := Unit) { typeName := [0x41] }).map Prod.fst ∧
      (1 ∈ (roomAfter (history ++ [.leave 2])).table .DELIVER [0x41] ↔
        1 ∈ (roomAfter history).table .DELIVER [0x41]) := by
  intro history
  obtain ⟨hpublish, hdeliver, _, hother⟩ := roomAfter_implements_history (M := Unit) history
  refine ⟨?_, ?_, hother (.leave 2) 1 .DELIVER [0x41] (by simp) (by simp [RoomCall.Concerns])⟩
  · rw [(hpublish [0x41]).2 1]
    decide
  · rw [(hdeliver { typeName := [0x41] }).2.2 1]
    decide

end AsioMsg
