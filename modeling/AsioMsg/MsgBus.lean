import AsioMsg.SessionRoom

/-!
MsgBus::preHandleMessage. A request is broadcast to the providers of its type
and its session remembered under the message id; the first reply with that id
is handed to the remembered session and the entry is removed.
-/

namespace AsioMsg

variable {M : Type}

def Package.setMsgType (pac : Package M) (t : MsgType) : Package M :=
  { pac with header := { pac.header with msgType := t.code } }

structure MsgBus where
  room : SessionRoom := {}
  msgSessionCache : BitVec 32 → Option ℤ := fun _ => none

namespace MsgBus

/-- The bus after a package of a session, and what it has handed to which sessions. -/
def preHandleMessage (bus : MsgBus) (sessionId : ℤ) (pac : Package M) :
    MsgBus × List (ℤ × Package M) :=
  if pac.msgPtr.isSome then (bus, [])
  else if pac.header.msgType = MsgType.REQREP.code then
    let bus := { bus with
      msgSessionCache := Function.update bus.msgSessionCache pac.header.msgId (some sessionId) }
    (bus, bus.room.deliverPackage (pac.setMsgType .DELIVER))
  else if pac.header.msgType = MsgType.DELIVER.code then
    let id := (bus.msgSessionCache pac.header.msgId).getD 0
    let bus := { bus with
      msgSessionCache := Function.update bus.msgSessionCache pac.header.msgId none }
    (bus, if 0 < id then (bus.room.deliverPackageTo id (pac.setMsgType .REQREP)).2 else [])
  else if pac.header.msgType = MsgType.PUBSUB.code then (bus, bus.room.deliverPackage pac)
  else (bus, [])

variable (bus : MsgBus) (sessionId : ℤ) {pac : Package M}

theorem preHandleMessage_reqrep (hptr : pac.msgPtr = none)
    (htype : pac.header.msgType = MsgType.REQREP.code) :
    bus.preHandleMessage sessionId pac =
      ({ bus with
        msgSessionCache := Function.update bus.msgSessionCache pac.header.msgId (some sessionId) },
        bus.room.deliverPackage (pac.setMsgType .DELIVER)) := by
  simp [preHandleMessage, hptr, htype]

theorem preHandleMessage_deliver (hptr : pac.msgPtr = none)
    (htype : pac.header.msgType = MsgType.DELIVER.code) :
    bus.preHandleMessage sessionId pac =
      ({ bus with
        msgSessionCache := Function.update bus.msgSessionCache pac.header.msgId none },
        if 0 < (bus.msgSessionCache pac.header.msgId).getD 0 then
          (bus.room.deliverPackageTo ((bus.msgSessionCache pac.header.msgId).getD 0)
            (pac.setMsgType .REQREP)).2
        else []) := by
  simp [preHandleMessage, hptr, htype, MsgType.code]

theorem preHandleMessage_pubsub (hptr : pac.msgPtr = none)
    (htype : pac.header.msgType = MsgType.PUBSUB.code) :
    bus.preHandleMessage sessionId pac = (bus, bus.room.deliverPackage pac) := by
  simp [preHandleMessage, hptr, htype, MsgType.code]

end MsgBus

end AsioMsg
