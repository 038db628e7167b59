import AsioMsg.AsioServer
import AsioMsg.Decode
import AsioMsg.MsgBus
import AsioMsg.PingPong
import AsioMsg.SubscriptionHistory

/-!
Publishing over the bus. preHandleMessage routes a PUBSUB package by
deliverCache_, the table of the DELIVER subscriptions; PublishHandler
subscribes with PUBSUB, which fills subscribeCache_.
-/

namespace AsioMsg

variable {M : Type}

namespace MsgBus

/-- The package was handed to the joined subscribers of its type name, to each once, and to
nobody else. -/
def HandedToSubscribers (history : List RoomCall) (pac : Package M)
    (handed : List (ℤ × Package M)) : Prop :=
  (handed.map Prod.fst).Nodup ∧ (∀ entry ∈ handed, entry.2 = pac) ∧
    ∀ id, id ∈ handed.map Prod.fst ↔
      Joined history id ∧ Subscribed history id .PUBSUB pac.typeName

/-- A published package is handed to the joined sessions in the table of the DELIVER
subscriptions. -/
theorem mem_handed_publish (history : List RoomCall) (bus : MsgBus)
    (hroom : bus.room = roomAfter history) (sessionId : ℤ) {pac : Package M}
    (hptr : pac.msgPtr = none) (htype : pac.header.msgType = MsgType.PUBSUB.code) (id : ℤ) :
    id ∈ ((bus.preHandleMessage sessionId pac).2).map Prod.fst ↔
      Joined history id ∧ Subscribed history id .DELIVER pac.typeName := by
  rw [preHandleMessage_pubsub _ _ hptr htype, hroom]
  exact mem_deliverPackage history pac id

/-- A package of a type outside ProtoBase that a MSGBUS build decodes as PUBSUB reaches the
subscribers of its type, and only them, iff every joined session is subscribed to the type name
with DELIVER iff it is with PUBSUB. -/
theorem handedToSubscribers_iff {s : RoomRun} (h : RoomRun.machine.Reachable s)
    (msgSessionCache : BitVec 32 → Option ℤ) (sessionId : ℤ)
    (b : Build M) (mem : Memory) (readBuffer : Buffer) (pac : Package M)
    (hdecode : (b.decode mem readBuffer).value.1 = .package pac)
    (hpass : b.passesThrough pac.typeName = true)
    (htype : pac.header.msgType = MsgType.PUBSUB.code) :
    HandedToSubscribers s.history pac
        ((MsgBus.mk s.room msgSessionCache).preHandleMessage sessionId pac).2 ↔
      ∀ id, Joined s.history id → (Subscribed s.history id .DELIVER pac.typeName ↔
        Subscribed s.history id .PUBSUB pac.typeName) := by
  have hptr := b.decode_passesThrough mem readBuffer pac hdecode hpass
  have hmem := mem_handed_publish s.history ⟨s.room, msgSessionCache⟩
    (RoomRun.room_eq_roomAfter h) sessionId hptr htype
  constructor
  · rintro ⟨_, _, hsubscribers⟩ id hjoined
    have hboth := (hmem id).symm.trans (hsubscribers id)
    simpa [hjoined] using hboth
  · intro hsame
    refine ⟨?_, ?_, ?_⟩
    · rw [preHandleMessage_pubsub _ _ hptr htype, SessionRoom.map_fst_deliverPackage]
      exact s.room.receivers_nodup _
    · rw [preHandleMessage_pubsub _ _ hptr htype]
      exact fun _ hentry => SessionRoom.snd_of_mem_deliverPackage hentry
    · exact fun id => (hmem id).trans (and_congr_right (hsame id))

/-- A published package as the bus decodes it. -/
def published : Package PingPong where
  header := { msgType := MsgType.PUBSUB.code, msgId := 1, typeNameLen := 23, pacSize := 43 }
  typeName := PingPong.typeName

/-- The bytes a client sends for it. -/
def publishedBuffer : Buffer :=
  Buffer.empty.append (published.header.toWire ++ published.typeName)

theorem decode_published :
    ((PingPong.build true).decode PingPong.memory publishedBuffer).value.1 =
      .package published := by
  decide +kernel

/-- A session that subscribes with both types. -/
def subscribedBoth : List RoomAction :=
  [.join 1, .doSubscribe 1 ⟨1, [2, 3], [PingPong.typeName, PingPong.typeName]⟩, .nextCall 0,
    .nextCall 0]

theorem handedToSubscribers_both :
    ∃ s : RoomRun, s.history = [.join 1, .addSubscribe 1 2 PingPong.typeName,
        .addSubscribe 1 3 PingPong.typeName] ∧
      (HandedToSubscribers s.history published
          ((MsgBus.mk s.room fun _ => none).preHandleMessage 2 published).2 ↔
        ∀ id, Joined s.history id → (Subscribed s.history id .DELIVER PingPong.typeName ↔
          Subscribed s.history id .PUBSUB PingPong.typeName)) := by
  have hrun : ∃ s, RoomRun.machine.run (fun _ _ => True) {} subscribedBoth = some s ∧
      s.history = [.join 1, .addSubscribe 1 2 PingPong.typeName,
        .addSubscribe 1 3 PingPong.typeName] := ⟨_, rfl, rfl⟩
  obtain ⟨s, hs, hhistory⟩ := hrun
  have hreach : RoomRun.machine.Reachable s := Machine.reachableWhen_of_run subscribedBoth hs
  exact ⟨s, hhistory, handedToSubscribers_iff hreach _ 2 (PingPong.build true) PingPong.memory
    publishedBuffer published decode_published rfl rfl⟩

/-- A session subscribed with PUBSUB, as PublishHandler subscribes, gets nothing. -/
theorem handedToSubscribers_fails :
    ¬ ∀ s : RoomRun, RoomRun.machine.Reachable s →
      ∀ (cache : BitVec 32 → Option ℤ) (sessionId : ℤ) (readBuffer : Buffer)
        (pac : Package PingPong),
        ((PingPong.build true).decode PingPong.memory readBuffer).value.1 = .package pac →
        (PingPong.build true).passesThrough pac.typeName = true →
        pac.header.msgType = MsgType.PUBSUB.code →
        HandedToSubscribers s.history pac
          ((MsgBus.mk s.room cache).preHandleMessage sessionId pac).2 := by
  intro hall
  have hrun : ∃ s : RoomRun, RoomRun.machine.run (fun _ _ => True) {}
      [.join 1, .doSubscribe 1 ⟨1, [2], [PingPong.typeName]⟩, .nextCall 0] = some s ∧
      s.history = [.join 1, .addSubscribe 1 2 PingPong.typeName] := ⟨_, rfl, rfl⟩
  obtain ⟨s, hs, hhistory⟩ := hrun
  have hreach : RoomRun.machine.Reachable s := Machine.reachableWhen_of_run _ hs
  have hhanded := (hall s hreach (fun _ => none) 2 publishedBuffer published decode_published rfl
    rfl).2.2 1
  rw [mem_handed_publish s.history _ (RoomRun.room_eq_roomAfter hreach) 2 rfl rfl,
    hhistory] at hhanded
  exact absurd hhanded (by decide)

end MsgBus

end AsioMsg
