import AsioMsg.Lib.Machine
import AsioMsg.SessionRoom

/-!
The subscriptions of an AsioServer over time. Sessions join and leave on the
thread of io_; a SubscribeReq is handled by a pool thread, which calls the room
once for each entry of the request, with other threads in between.
-/

namespace AsioMsg

/-- ProtoBase::SubscribeReq -/
structure SubscribeReq where
  type : ℤ
  msgTypeList : List ℤ
  typeNameList : List Bytes
  deriving DecidableEq

/-- The calls doSubscribe makes before it replies; `none` where it returns without a reply. -/
def doSubscribe (sessionId : ℤ) (msg : SubscribeReq) : Option (List RoomCall) :=
  if msg.typeNameList.length ≠ msg.msgTypeList.length then none
  else some ((msg.msgTypeList.zip msg.typeNameList).map fun entry =>
    if msg.type = 1 then .addSubscribe sessionId entry.1 entry.2
    else .delSubscribe sessionId entry.1 entry.2)

structure RoomRun where
  room : SessionRoom := {}
  /-- The calls still to be made by each doSubscribe in progress. -/
  tasks : List (List RoomCall) := []
  history : List RoomCall := []

inductive RoomAction
  | join (id : ℤ)
  | leave (id : ℤ)
  | doSubscribe (sessionId : ℤ) (msg : SubscribeReq)
  | nextCall (i : ℕ)

namespace RoomRun

def call (s : RoomRun) (c : RoomCall) : RoomRun :=
  { s with room := c.apply s.room, history := s.history ++ [c] }

def step (s : RoomRun) : RoomAction → Option RoomRun
  | .join id => some (s.call (.join id))
  | .leave id => some (s.call (.leave id))
  | .doSubscribe sessionId msg =>
    some { s with tasks := s.tasks ++ (AsioMsg.doSubscribe sessionId msg).toList }
  | .nextCall i =>
    match s.tasks[i]? with
    | some (c :: rest) => some ({ s with tasks := s.tasks.set i rest }.call c)
    | _ => none

def machine : Machine RoomRun RoomAction where
  init := {}
  step := step

/-- The room is what its history makes it. -/
theorem room_eq_roomAfter {s : RoomRun} (h : machine.Reachable s) :
    s.room = roomAfter s.history := by
  refine Machine.Reachable.invariant (I := fun s => s.room = roomAfter s.history) rfl ?_ h
  intro s a t hs hstep
  have hcall : ∀ (u : RoomRun) (c : RoomCall), u.room = roomAfter u.history →
      (u.call c).room = roomAfter (u.call c).history := by
    intro u c hu
    simp only [call, roomAfter_concat, hu]
  cases a with
  | join id =>
    obtain rfl := Option.some.inj hstep
    exact hcall s _ hs
  | leave id =>
    obtain rfl := Option.some.inj hstep
    exact hcall s _ hs
  | doSubscribe sessionId msg =>
    obtain rfl := Option.some.inj hstep
    exact hs
  | nextCall i =>
    change (match s.tasks[i]? with
      | some (c :: rest) => some ({ s with tasks := s.tasks.set i rest }.call c)
      | _ => none) = some t at hstep
    split at hstep
    · obtain rfl := Option.some.inj hstep
      exact hcall _ _ hs
    · simp at hstep

end RoomRun

end AsioMsg
