import AsioMsg.Lib.Machine
import AsioMsg.Package

/-!
RequestMessage of AsioClient: the cache of unanswered requests, raced for by
the thread of io_ (timers), the thread of ioDoResponse_ (responses) and the
callers' threads (put). Every lock scope is one step; between the lookup and
the async_wait of startTimer, and between pick and the callback, all other
steps may happen. A Response is named by the number of the put that passed it.
-/

namespace AsioMsg

variable {M : Type}

/-- RequestMessage::Data, as far as it is read again. -/
structure RequestData (M : Type) where
  pac : Package M
  res : ℕ

/-- A call of a Response. -/
structure Invocation (M : Type) where
  res : ℕ
  error : ErrorCode
  req : Package M
  rsp : Option (Package M)

structure RequestMessage (M : Type) where
  cache : BitVec 32 → Option (RequestData M) := fun _ => none

namespace RequestMessage

def put (r : RequestMessage M) (p : Package M) (res : ℕ) : RequestMessage M :=
  ⟨Function.update r.cache p.header.msgId (some ⟨p, res⟩)⟩

def pick (r : RequestMessage M) (msgid : BitVec 32) : Option (RequestData M) × RequestMessage M :=
  (r.cache msgid, ⟨Function.update r.cache msgid none⟩)

@[simp] theorem put_cache_self (r : RequestMessage M) (p : Package M) (res : ℕ) :
    (r.put p res).cache p.header.msgId = some ⟨p, res⟩ :=
  Function.update_self ..

theorem put_cache_of_ne (r : RequestMessage M) (p : Package M) (res : ℕ) {msgid : BitVec 32}
    (h : msgid ≠ p.header.msgId) : (r.put p res).cache msgid = r.cache msgid :=
  Function.update_of_ne h ..

@[simp] theorem pick_cache_self (r : RequestMessage M) (msgid : BitVec 32) :
    (r.pick msgid).2.cache msgid = none :=
  Function.update_self ..

theorem pick_cache_of_ne (r : RequestMessage M) {msgid other : BitVec 32} (h : other ≠ msgid) :
    (r.pick msgid).2.cache other = r.cache other :=
  Function.update_of_ne h ..

/-- The callback to invoke, if the entry was still there. -/
def onTimeout (r : RequestMessage M) (msgId : BitVec 32) :
    Option (Invocation M) × RequestMessage M :=
  let (p, r) := r.pick msgId
  (p.map fun data => ⟨data.res, .eTimeout, data.pac, none⟩, r)

/-- AsioClient::doResponse; packages of other types go to the handlers. -/
def doResponse (r : RequestMessage M) (pack : Package M) :
    Option (Invocation M) × RequestMessage M :=
  if pack.header.msgType = MsgType.REQREP.code then
    let (rsp, r) := r.pick pack.header.msgId
    (rsp.map fun data => ⟨data.res, .eSuccess, data.pac, some pack⟩, r)
  else (none, r)

theorem onTimeout_eq (r : RequestMessage M) (msgId : BitVec 32) :
    r.onTimeout msgId =
      ((r.cache msgId).map fun data => ⟨data.res, .eTimeout, data.pac, none⟩,
        (r.pick msgId).2) :=
  rfl

theorem doResponse_eq (r : RequestMessage M) {pack : Package M}
    (h : pack.header.msgType = MsgType.REQREP.code) :
    r.doResponse pack =
      ((r.cache pack.header.msgId).map fun data => ⟨data.res, .eSuccess, data.pac, some pack⟩,
        (r.pick pack.header.msgId).2) :=
  if_pos h

theorem doResponse_other (r : RequestMessage M) {pack : Package M}
    (h : pack.header.msgType ≠ MsgType.REQREP.code) : r.doResponse pack = (none, r) :=
  if_neg h

end RequestMessage

/-- What has happened to the requests. -/
inductive RequestEvent
  | put (res : ℕ)
  | response (msgId : BitVec 32)
  | expired (res : ℕ)
  deriving DecidableEq

structure Requests (M : Type) where
  requestMessage : RequestMessage M := {}
  /-- Every package put so far. -/
  puts : List (Package M) := []
  /-- Calls of startTimer that have found an entry and not yet called async_wait. -/
  starting : List (BitVec 32 × ℕ) := []
  /-- Waits whose handler has not run: the id it captures and the put whose timer it is. -/
  timers : List (BitVec 32 × ℕ) := []
  /-- Callbacks taken out of the cache and about to be invoked. -/
  picked : List (Invocation M) := []
  invoked : List (Invocation M) := []
  history : List RequestEvent := []

inductive RequestAction (M : Type)
  | put (p : Package M)
  | startTimer (msgid : BitVec 32)
  | asyncWait (i : ℕ)
  | timerAborted (i : ℕ)
  | timerExpired (i : ℕ)
  | doResponse (pack : Package M)
  | invoke (i : ℕ)

namespace Requests

def put (s : Requests M) (p : Package M) : Requests M :=
  { s with
    requestMessage := s.requestMessage.put p s.puts.length
    puts := s.puts ++ [p]
    history := s.history ++ [.put s.puts.length] }

def startTimer (s : Requests M) (msgid : BitVec 32) : Requests M :=
  { s with
    starting := s.starting ++
      ((s.requestMessage.cache msgid).map fun data => (msgid, data.res)).toList }

def asyncWait (s : Requests M) (i : ℕ) (wait : BitVec 32 × ℕ) : Requests M :=
  { s with starting := s.starting.eraseIdx i, timers := s.timers ++ [wait] }

/-- The handler of a cancelled wait returns at once. -/
def timerAborted (s : Requests M) (i : ℕ) : Requests M :=
  { s with timers := s.timers.eraseIdx i }

def timerExpired (s : Requests M) (i : ℕ) (wait : BitVec 32 × ℕ) : Requests M :=
  let (call, requestMessage) := s.requestMessage.onTimeout wait.1
  { s with
    requestMessage := requestMessage
    timers := s.timers.eraseIdx i
    picked := s.picked ++ call.toList
    history := s.history ++ call.toList.map fun c => .expired c.res }

def doResponse (s : Requests M) (pack : Package M) : Requests M :=
  let (call, requestMessage) := s.requestMessage.doResponse pack
  { s with
    requestMessage := requestMessage
    picked := s.picked ++ call.toList
    history := s.history ++
      if pack.header.msgType = MsgType.REQREP.code then [.response pack.header.msgId] else [] }

def invoke (s : Requests M) (i : ℕ) (call : Invocation M) : Requests M :=
  { s with picked := s.picked.eraseIdx i, invoked := s.invoked ++ [call] }

def step (s : Requests M) : RequestAction M → Option (Requests M)
  | .put p => some (s.put p)
  | .startTimer msgid => some (s.startTimer msgid)
  | .asyncWait i => (s.starting[i]?).map (s.asyncWait i)
  | .timerAborted i => (s.timers[i]?).map fun _ => s.timerAborted i
  | .timerExpired i => (s.timers[i]?).map (s.timerExpired i)
  | .doResponse pack => some (s.doResponse pack)
  | .invoke i => (s.picked[i]?).map (s.invoke i)

def machine (M : Type) : Machine (Requests M) (RequestAction M) where
  init := {}
  step := step

/-- The client issues every msgId once. -/
def FreshId (s : Requests M) : RequestAction M → Prop
  | .put p => p.header.msgId ∉ s.puts.map fun q => q.header.msgId
  | _ => True

instance (s : Requests M) (a : RequestAction M) : Decidable (s.FreshId a) :=
  match a with
  | .put p => inferInstanceAs (Decidable (p.header.msgId ∉ s.puts.map fun q => q.header.msgId))
  | .startTimer .. | .asyncWait .. | .timerAborted .. | .timerExpired .. | .doResponse ..
  | .invoke .. => inferInstanceAs (Decidable True)

end Requests

end AsioMsg
