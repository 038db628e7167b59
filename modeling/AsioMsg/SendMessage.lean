import AsioMsg.Lib.CondVar
import AsioMsg.AsioClient

/-!
AsioClient::sendMessage, called from any number of threads. Every call keeps
its isWait, err and rspPtr in the frame of its caller; all of them share mutex_
and cond_ of the client. The callback of a call runs on the thread of io_ or of
ioDoResponse_: it stores its result without the mutex, then clears isWait and
notifies all under the mutex. Every critical section is one step. Nothing ends
the frame of a call but its return.
-/

namespace AsioMsg

variable {M : Type}

inductive SendPhase (M : Type)
  /-- Inside postMessage. -/
  | posting
  /-- Before the lock of mutex_. -/
  | posted
  /-- Inside cond_.wait. -/
  | waiting
  | returned (code : ErrorCode) (rspPtr : Option M)
  deriving DecidableEq

/-- The frame of a call of sendMessage. -/
structure SendCall (M : Type) where
  phase : SendPhase M := .posting
  isWait : Bool := true
  err : ErrorCode := .eSuccess
  /-- What has been assigned to rspPtr. -/
  rspPtr : Option M := none
  deriving DecidableEq

/-- A callback of sendMessage that is running, before or after it has stored its result. -/
structure SendCallback (M : Type) where
  inv : Invocation M
  stored : Bool := false

/-- A client with its calls of sendMessage, each under the number of its put. -/
structure Senders (M : Type) where
  client : AsioClient M := { connects := 1 }
  sends : ℕ → Option (SendCall M) := fun _ => none
  cond : CondVar ℕ := {}
  callbacks : List (SendCallback M) := []
  /-- The calls whose frames a callback has written to after their return. -/
  late : List ℕ := []

inductive SendAction (M : Type)
  | client (a : ClientAction M)
  | sendMessage (msg : M)
  | postReturn (n i : ℕ)
  | lock (n : ℕ)
  | resume (w : Woken)
  | rouse (i : ℕ)
  | store (i : ℕ)
  | notify (i : ℕ)

namespace SendCall

def hasReturned (call : SendCall M) : Bool :=
  match call.phase with
  | .returned .. => true
  | _ => false

/-- What the callback assigns. -/
def store (call : SendCall M) (inv : Invocation M) : SendCall M :=
  { call with
    rspPtr := if inv.error = .eSuccess then inv.rsp.bind Package.msgPtr else call.rspPtr
    err := inv.error }

end SendCall

namespace Senders

/-- The callbacks of sendMessage among those that a step of the client invokes. -/
def setClient (s : Senders M) (c : AsioClient M) : Senders M :=
  { s with
    client := c
    callbacks := s.callbacks ++
      ((c.invoked.drop s.client.invoked.length).filter fun inv =>
        (s.sends inv.res).isSome).map fun inv => { inv := inv } }

/-- The return of a postMessage that a sendMessage has called. -/
def isPostReturn (s : Senders M) : ClientAction M → Bool
  | .postCall i => ((s.client.calls[i]?).bind PackagePtr.put).any fun n => (s.sends n).isSome
  | _ => false

/-- A call of sendMessage up to the put of its postMessage. -/
def sendMessage (b : Build M) (s : Senders M) (msg : M) : Senders M :=
  { s with
    client := s.client.postMessage b false msg
    sends := Function.update s.sends s.client.puts.length (some {}) }

/-- postMessage returns; after an error so does sendMessage. -/
def postReturn (s : Senders M) (n i : ℕ) (call : SendCall M) (package : PackagePtr M) :
    Senders M :=
  let code := (s.client.postPackage package).1
  { s with
    client := s.client.postCall i package
    sends := Function.update s.sends n (some { call with
      phase := if code = .eSuccess then .posted else .returned code call.rspPtr }) }

/-- while (isWait) cond_.wait(lock) and the return, up to the next wait. -/
def locked (s : Senders M) (n : ℕ) (call : SendCall M) : Senders M :=
  if call.isWait then { s with
    sends := Function.update s.sends n (some { call with phase := .waiting })
    cond := s.cond.wait n }
  else { s with
    sends := Function.update s.sends n
      (some { call with phase := .returned call.err call.rspPtr }) }

/-- The callback up to its lock. -/
def store (s : Senders M) (i : ℕ) (callback : SendCallback M) (call : SendCall M) : Senders M :=
  { s with
    sends := Function.update s.sends callback.inv.res (some (call.store callback.inv))
    callbacks := s.callbacks.set i { callback with stored := true }
    late := if call.hasReturned then s.late ++ [callback.inv.res] else s.late }

/-- The callback from its lock on. -/
def notify (s : Senders M) (i : ℕ) (callback : SendCallback M) (call : SendCall M) : Senders M :=
  { s with
    sends := Function.update s.sends callback.inv.res (some { call with isWait := false })
    cond := s.cond.notifyAll
    callbacks := s.callbacks.eraseIdx i
    late := if call.hasReturned then s.late ++ [callback.inv.res] else s.late }

def step (cfg : ClientConfig M) (s : Senders M) : SendAction M → Option (Senders M)
  | .client a =>
    if s.isPostReturn a then none else (s.client.step cfg a).map s.setClient
  | .sendMessage msg => some (s.sendMessage cfg.build msg)
  | .postReturn n i =>
    match s.sends n, s.client.calls[i]? with
    | some call, some package =>
      if package.put = some n then some (s.postReturn n i call package) else none
    | _, _ => none
  | .lock n =>
    match s.sends n with
    | some call =>
      match call.phase with
      | .posted => some (s.locked n call)
      | _ => none
    | none => none
  | .resume w => (s.cond.resume w).bind fun back =>
      (s.sends back.1).map ({ s with cond := back.2 }.locked back.1)
  | .rouse i => (s.cond.rouse i).map fun cond => { s with cond := cond }
  | .store i => (s.callbacks[i]?).bind fun callback =>
      if callback.stored then none
      else (s.sends callback.inv.res).map (s.store i callback)
  | .notify i => (s.callbacks[i]?).bind fun callback =>
      if callback.stored then (s.sends callback.inv.res).map (s.notify i callback) else none

def machine (cfg : ClientConfig M) : Machine (Senders M) (SendAction M) where
  init := {}
  step := step cfg

end Senders

end AsioMsg
