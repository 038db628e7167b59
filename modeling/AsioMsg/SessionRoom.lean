import Mathlib.Data.Finset.Sort
import Mathlib.Data.Int.Order.Basic
import AsioMsg.Lib.LastEvent
import AsioMsg.Package

/-!
SessionRoom: the joined sessions and the two subscription tables. Sessions are
named by their ids; a std::set<int> is a finite set, iterated in ascending
order. Every member function is one step of a history.
-/

namespace AsioMsg

variable {M : Type}

structure SessionRoom where
  subscribeCache : Bytes → Finset ℤ := fun _ => ∅
  deliverCache : Bytes → Finset ℤ := fun _ => ∅
  sessionCache : Finset ℤ := ∅

/-- The int32 of a message type. -/
def MsgType.toInt (t : MsgType) : ℤ := t.code.toInt

namespace SessionRoom

def join (r : SessionRoom) (id : ℤ) : SessionRoom :=
  { r with sessionCache := insert id r.sessionCache }

def leave (r : SessionRoom) (id : ℤ) : SessionRoom where
  subscribeCache name := (r.subscribeCache name).erase id
  deliverCache name := (r.deliverCache name).erase id
  sessionCache := r.sessionCache.erase id

/-- The set of a type name, in the table that the message type selects, changed by `f`. -/
def changeSubscribe (r : SessionRoom) (f : Finset ℤ → Finset ℤ) (msgtype : ℤ)
    (protoName : Bytes) : SessionRoom :=
  if msgtype = MsgType.PUBSUB.toInt then
    { r with
      subscribeCache := Function.update r.subscribeCache protoName
        (f (r.subscribeCache protoName)) }
  else if msgtype = MsgType.DELIVER.toInt then
    { r with
      deliverCache := Function.update r.deliverCache protoName (f (r.deliverCache protoName)) }
  else r

def addSubscribe (r : SessionRoom) (sessionId msgtype : ℤ) (protoName : Bytes) : SessionRoom :=
  r.changeSubscribe (fun ids => insert sessionId ids) msgtype protoName

def delSubscribe (r : SessionRoom) (sessionId msgtype : ℤ) (protoName : Bytes) : SessionRoom :=
  r.changeSubscribe (fun ids => ids.erase sessionId) msgtype protoName

/-- The joined sessions of a set, in the order of the set. -/
def receivers (r : SessionRoom) (ids : Finset ℤ) : List ℤ :=
  ids.sort.filter fun id => decide (id ∈ r.sessionCache)

/-- The sessions whose publishMessage is called for a message of the type. -/
def publishMessage (r : SessionRoom) (typeName : Bytes) : List ℤ :=
  r.receivers (r.subscribeCache typeName)

/-- deliverPackage(pac): the sessions it is handed to, with what they are handed. -/
def deliverPackage (r : SessionRoom) (pac : Package M) : List (ℤ × Package M) :=
  (r.receivers (r.deliverCache pac.typeName)).map fun id => (id, pac)

/-- deliverPackage(id, pac), which also returns whether the session was there. -/
def deliverPackageTo (r : SessionRoom) (id : ℤ) (pac : Package M) :
    Bool × List (ℤ × Package M) :=
  if id ∈ r.sessionCache then (true, [(id, pac)]) else (false, [])

theorem receivers_nodup (r : SessionRoom) (ids : Finset ℤ) : (r.receivers ids).Nodup :=
  (ids.sort_nodup _).filter _

theorem mem_receivers (r : SessionRoom) (ids : Finset ℤ) (id : ℤ) :
    id ∈ r.receivers ids ↔ id ∈ r.sessionCache ∧ id ∈ ids := by
  simp [receivers, and_comm]

theorem map_fst_deliverPackage (r : SessionRoom) (pac : Package M) :
    (r.deliverPackage pac).map Prod.fst = r.receivers (r.deliverCache pac.typeName) := by
  rw [deliverPackage, List.map_map]
  exact List.map_id' _

theorem snd_of_mem_deliverPackage {r : SessionRoom} {pac : Package M} {entry : ℤ × Package M}
    (h : entry ∈ r.deliverPackage pac) : entry.2 = pac := by
  obtain ⟨_, _, rfl⟩ := List.mem_map.mp h
  rfl

/-- The table of subscriptions of a type. -/
def table (r : SessionRoom) : MsgType → Bytes → Finset ℤ
  | .REQREP => fun _ => ∅
  | .PUBSUB => r.subscribeCache
  | .DELIVER => r.deliverCache

end SessionRoom

/-- A call of a member function of the room. -/
inductive RoomCall
  | join (id : ℤ)
  | leave (id : ℤ)
  | addSubscribe (sessionId msgtype : ℤ) (protoName : Bytes)
  | delSubscribe (sessionId msgtype : ℤ) (protoName : Bytes)
  deriving DecidableEq

namespace RoomCall

def apply (r : SessionRoom) : RoomCall → SessionRoom
  | .join id => r.join id
  | .leave id => r.leave id
  | .addSubscribe sessionId msgtype protoName => r.addSubscribe sessionId msgtype protoName
  | .delSubscribe sessionId msgtype protoName => r.delSubscribe sessionId msgtype protoName

/-- The session has joined, or has left. -/
def marksJoined (id : ℤ) : RoomCall → Option Bool
  | .join i => if i = id then some true else none
  | .leave i => if i = id then some false else none
  | _ => none

/-- The session has subscribed to the name with the type, or given the subscription up. -/
def marksSubscribed (id : ℤ) (t : MsgType) (name : Bytes) : RoomCall → Option Bool
  | .join _ => none
  | .leave i => if i = id then some false else none
  | .addSubscribe i msgtype n =>
    if i = id ∧ msgtype = t.toInt ∧ n = name then some true else none
  | .delSubscribe i msgtype n =>
    if i = id ∧ msgtype = t.toInt ∧ n = name then some false else none

end RoomCall

/-- The room after a history of calls. -/
def roomAfter (history : List RoomCall) : SessionRoom := history.foldl RoomCall.apply {}

def Joined (history : List RoomCall) (id : ℤ) : Prop :=
  lastMark false (RoomCall.marksJoined id) history = true

def Subscribed (history : List RoomCall) (id : ℤ) (t : MsgType) (name : Bytes) : Prop :=
  lastMark false (RoomCall.marksSubscribed id t name) history = true

instance (history : List RoomCall) (id : ℤ) : Decidable (Joined history id) :=
  inferInstanceAs (Decidable (_ = true))

instance (history : List RoomCall) (id : ℤ) (t : MsgType) (name : Bytes) :
    Decidable (Subscribed history id t name) :=
  inferInstanceAs (Decidable (_ = true))

theorem roomAfter_concat (history : List RoomCall) (call : RoomCall) :
    roomAfter (history ++ [call]) = call.apply (roomAfter history) :=
  List.foldl_append

namespace SessionRoom

variable (r : SessionRoom) (id sessionId msgtype : ℤ) (t : MsgType) (name protoName : Bytes)

theorem mem_table_join : id ∈ (r.join sessionId).table t name ↔ id ∈ r.table t name := by
  cases t <;> rfl

theorem mem_table_leave :
    id ∈ (r.leave sessionId).table t name ↔ id ≠ sessionId ∧ id ∈ r.table t name := by
  cases t <;> simp [table, leave]

theorem toInt_values : MsgType.PUBSUB.toInt = 2 ∧ MsgType.DELIVER.toInt = 3 := by decide

/-- Only the set of the name in the table of the type changes. -/
theorem table_changeSubscribe (f : Finset ℤ → Finset ℤ) (ht : t ≠ .REQREP) :
    (r.changeSubscribe f msgtype protoName).table t name =
      if msgtype = t.toInt ∧ protoName = name then f (r.table t name) else r.table t name := by
  obtain ⟨hpub, hdel⟩ := toInt_values
  have hcell : ∀ cache : Bytes → Finset ℤ,
      Function.update cache protoName (f (cache protoName)) name =
        if protoName = name then f (cache name) else cache name := by
    intro cache
    by_cases hname : protoName = name
    · rw [hname, Function.update_self, if_pos rfl]
    · rw [Function.update_of_ne (Ne.symm hname), if_neg hname]
  cases t with
  | REQREP => exact absurd rfl ht
  | PUBSUB =>
    by_cases h : msgtype = 2
    · simp [table, changeSubscribe, hpub, h, hcell]
    · simp only [table, changeSubscribe, hpub, h, if_false, false_and]
      split <;> rfl
  | DELIVER =>
    by_cases h : msgtype = 3
    · simp [table, changeSubscribe, hpub, hdel, h, hcell]
    · simp only [table, changeSubscribe, hpub, hdel, h, if_false, false_and]
      split <;> rfl

theorem sessionCache_changeSubscribe (f : Finset ℤ → Finset ℤ) :
    (r.changeSubscribe f msgtype protoName).sessionCache = r.sessionCache := by
  unfold changeSubscribe
  split
  · rfl
  · split <;> rfl

theorem mem_table_addSubscribe (ht : t ≠ .REQREP) :
    id ∈ (r.addSubscribe sessionId msgtype protoName).table t name ↔
      (sessionId = id ∧ msgtype = t.toInt ∧ protoName = name) ∨ id ∈ r.table t name := by
  rw [addSubscribe, table_changeSubscribe _ _ _ _ _ _ ht]
  split
  · next h => simp [h, eq_comm]
  · next h => simp [h]

theorem mem_table_delSubscribe (ht : t ≠ .REQREP) :
    id ∈ (r.delSubscribe sessionId msgtype protoName).table t name ↔
      ¬ (sessionId = id ∧ msgtype = t.toInt ∧ protoName = name) ∧ id ∈ r.table t name := by
  rw [delSubscribe, table_changeSubscribe _ _ _ _ _ _ ht]
  split
  · next h => simp [h, eq_comm]
  · next h => simp [h]

end SessionRoom

namespace RoomCall

/-- A call about the subscription leaves it as the call says. -/
theorem mem_table_of_mark {call : RoomCall} {id : ℤ} {t : MsgType} {name : Bytes} {b : Bool}
    (ht : t ≠ .REQREP) (r : SessionRoom) (hmark : call.marksSubscribed id t name = some b) :
    id ∈ (call.apply r).table t name ↔ b = true := by
  cases call with
  | join i => simp [marksSubscribed] at hmark
  | leave i =>
    obtain ⟨rfl, hb⟩ := Option.ite_none_right_eq_some.mp hmark
    simp [apply, SessionRoom.mem_table_leave, ← Option.some.inj hb]
  | addSubscribe i msgtype n =>
    obtain ⟨hsame, hb⟩ := Option.ite_none_right_eq_some.mp hmark
    rw [apply, SessionRoom.mem_table_addSubscribe _ _ _ _ _ _ _ ht, ← Option.some.inj hb]
    simp [hsame]
  | delSubscribe i msgtype n =>
    obtain ⟨hsame, hb⟩ := Option.ite_none_right_eq_some.mp hmark
    rw [apply, SessionRoom.mem_table_delSubscribe _ _ _ _ _ _ _ ht, ← Option.some.inj hb]
    simp [hsame]

theorem mem_table_of_no_mark {call : RoomCall} {id : ℤ} {t : MsgType} {name : Bytes}
    (ht : t ≠ .REQREP) (r : SessionRoom) (hmark : call.marksSubscribed id t name = none) :
    id ∈ (call.apply r).table t name ↔ id ∈ r.table t name := by
  cases call with
  | join i => exact SessionRoom.mem_table_join ..
  | leave i =>
    have hne : i ≠ id := fun heq => by simp [marksSubscribed, heq] at hmark
    simp [apply, SessionRoom.mem_table_leave, Ne.symm hne]
  | addSubscribe i msgtype n =>
    have hne : ¬ (i = id ∧ msgtype = t.toInt ∧ n = name) := fun heq => by
      simp [marksSubscribed, heq] at hmark
    rw [apply, SessionRoom.mem_table_addSubscribe _ _ _ _ _ _ _ ht]
    simp [hne]
  | delSubscribe i msgtype n =>
    have hne : ¬ (i = id ∧ msgtype = t.toInt ∧ n = name) := fun heq => by
      simp [marksSubscribed, heq] at hmark
    rw [apply, SessionRoom.mem_table_delSubscribe _ _ _ _ _ _ _ ht]
    simp [hne]

end RoomCall

/-- After every history the table of a type holds the sessions whose last call about the name was
a subscription. -/
theorem mem_table_roomAfter (history : List RoomCall) (id : ℤ) (t : MsgType) (name : Bytes)
    (ht : t ≠ .REQREP) :
    id ∈ (roomAfter history).table t name ↔ Subscribed history id t name :=
  holds_foldl_iff RoomCall.apply (fun r => id ∈ r.table t name) (RoomCall.marksSubscribed id t name)
    (fun r _ _ hmark => RoomCall.mem_table_of_mark ht r hmark)
    (fun r _ hmark => RoomCall.mem_table_of_no_mark ht r hmark) {}
    (by cases t <;> simp [SessionRoom.table]) history

theorem mem_sessionCache_roomAfter (history : List RoomCall) (id : ℤ) :
    id ∈ (roomAfter history).sessionCache ↔ Joined history id := by
  refine holds_foldl_iff RoomCall.apply (fun r => id ∈ r.sessionCache)
    (RoomCall.marksJoined id) ?_ ?_ {} (by simp) history
  · intro r call b hmark
    cases call with
    | join i =>
      obtain ⟨rfl, hb⟩ := Option.ite_none_right_eq_some.mp hmark
      simp [RoomCall.apply, SessionRoom.join, ← Option.some.inj hb]
    | leave i =>
      obtain ⟨rfl, hb⟩ := Option.ite_none_right_eq_some.mp hmark
      simp [RoomCall.apply, SessionRoom.leave, ← Option.some.inj hb]
    | addSubscribe i msgtype n => simp [RoomCall.marksJoined] at hmark
    | delSubscribe i msgtype n => simp [RoomCall.marksJoined] at hmark
  · intro r call hmark
    cases call with
    | join i =>
      have hne : i ≠ id := fun heq => by simp [RoomCall.marksJoined, heq] at hmark
      simp [RoomCall.apply, SessionRoom.join, Ne.symm hne]
    | leave i =>
      have hne : i ≠ id := fun heq => by simp [RoomCall.marksJoined, heq] at hmark
      simp [RoomCall.apply, SessionRoom.leave, Ne.symm hne]
    | addSubscribe i msgtype n =>
      rw [RoomCall.apply, SessionRoom.addSubscribe, SessionRoom.sessionCache_changeSubscribe]
    | delSubscribe i msgtype n =>
      rw [RoomCall.apply, SessionRoom.delSubscribe, SessionRoom.sessionCache_changeSubscribe]

end AsioMsg
