import AsioMsg.ReadLoop
import AsioMsg.RequestMessage

/-!
AsioClient as a machine. A step is a handler run by the thread of io_, a
package handled by the thread of ioDoResponse_, or a part of a call made by any
other thread: postMessage puts its request and calls postPackage in two steps.
Asynchronous operations complete in any order and with any outcome. An exception
or a crash inside a handler ends the run. That encode rewrites the length
fields of the package it is given is left out: nothing here reads them again.
-/

namespace AsioMsg

variable {M : Type}

/-- What an AsioClient was built with; reconnect stands for reconnectSeconds_ > 0. -/
structure ClientConfig (M : Type) where
  build : Build M
  memory : Memory
  enableCompressSize : BitVec 32
  reconnect : Bool

/-- A package on its way to the socket; for a request, the number of its put. -/
structure PackagePtr (M : Type) where
  pac : Package M
  put : Option ℕ := none

/-- A handler posted to io_. -/
inductive Posted (M : Type)
  | startWrite (pacPtr : PackagePtr M)
  | doClose

structure AsioClient (M : Type) where
  isOnline : Bool := false
  stopped : Bool := false
  id : BitVec 32 := 0
  pendingList : List (PackagePtr M) := []
  readBuffer : Buffer := Buffer.empty
  requestMessage : RequestMessage M := {}
  posted : List (Posted M) := []
  /-- Packages posted to ioDoResponse_. -/
  responses : List (Package M) := []
  /-- Outstanding async_connect and async_read_some operations. -/
  connects : ℕ := 0
  reads : ℕ := 0
  /-- The packages of the outstanding async_write operations. -/
  writes : List (PackagePtr M) := []
  /-- Waits whose handler has not run: the id it captures and the put whose timer it is. -/
  timers : List (BitVec 32 × ℕ) := []
  /-- Calls of postMessage between put and postPackage. -/
  calls : List (PackagePtr M) := []
  /-- Every package put so far, and the puts whose postMessage has returned eSuccess. -/
  puts : List (Package M) := []
  accepted : List ℕ := []
  invoked : List (Invocation M) := []
  /-- The packages handed to doResponse so far. -/
  handed : List (Package M) := []
  /-- The bytes read from each connection, the latest one last. -/
  received : List Bytes := []

inductive ClientAction (M : Type)
  | postMessage (isOrder : Bool) (msg : M)
  | postCall (i : ℕ)
  | publishMessage (msg : M)
  | postPackage (pac : Package M)
  | stop
  | runPosted (i : ℕ)
  | doConnect (success : Bool)
  | readError
  | doRead (chunk : Bytes)
  | writeDone (i : ℕ) (success : Bool)
  | timerAborted (i : ℕ)
  | timerExpired (i : ℕ)
  | doResponse

namespace AsioClient

def nextId (c : AsioClient M) : BitVec 32 := nextMsgId c.id

def makePackage (b : Build M) (msgType : MsgType) (isOrder : Bool) (msgId : BitVec 32) (msg : M) :
    Package M :=
  let header : PacHeader := {
    msgType := msgType.code
    msgId := msgId
    typeNameLen := BitVec.ofNat 16 (b.protobuf.getTypeName msg).length }
  { header := header.setIsorder isOrder
    typeName := b.protobuf.getTypeName msg
    msgPtr := some msg }

def postPackage (c : AsioClient M) (package : PackagePtr M) : ErrorCode × AsioClient M :=
  if c.stopped then (.eServiceStopped, c)
  else if !c.isOnline then (.eDisconnect, c)
  else (.eSuccess, { c with posted := c.posted ++ [.startWrite package] })

/-- postMessage up to and including put. -/
def postMessage (b : Build M) (c : AsioClient M) (isOrder : Bool) (msg : M) : AsioClient M :=
  let pac := makePackage b .REQREP isOrder c.nextId msg
  { c with
    id := c.id + 1
    requestMessage := c.requestMessage.put pac c.puts.length
    calls := c.calls ++ [⟨pac, some c.puts.length⟩]
    puts := c.puts ++ [pac] }

/-- The rest of postMessage: postPackage and the return. -/
def postCall (c : AsioClient M) (i : ℕ) (call : PackagePtr M) : AsioClient M :=
  match { c with calls := c.calls.eraseIdx i }.postPackage call with
  | (.eSuccess, c) => { c with accepted := c.accepted ++ call.put.toList }
  | (_, c) => c

def publishMessage (b : Build M) (c : AsioClient M) (msg : M) : AsioClient M :=
  ({ c with id := c.id + 1 }.postPackage ⟨makePackage b .PUBSUB false c.nextId msg, none⟩).2

def close (c : AsioClient M) : AsioClient M := { c with posted := c.posted ++ [.doClose] }

def stop (c : AsioClient M) : AsioClient M := { c with stopped := true }.close

def connect (c : AsioClient M) : AsioClient M := { c with connects := c.connects + 1 }

def startRead (c : AsioClient M) : AsioClient M := { c with reads := c.reads + 1 }

def doConnect (cfg : ClientConfig M) (c : AsioClient M) (success : Bool) : AsioClient M :=
  let c := { c with connects := c.connects - 1, isOnline := success }
  if success then { c with received := c.received ++ [[]] }.startRead
  else if cfg.reconnect then c.connect else c

def doClose (cfg : ClientConfig M) (c : AsioClient M) : AsioClient M :=
  let c := { c with isOnline := false }
  if !c.stopped && cfg.reconnect then c.connect else c

/-- startWrite(): the front of the list is encoded and written. -/
def startWriteFront (cfg : ClientConfig M) (c : AsioClient M) : Option (AsioClient M) :=
  match c.pendingList with
  | [] => none
  | pacPtr :: _ =>
    match cfg.build.encode cfg.memory cfg.enableCompressSize pacPtr.pac Buffer.empty with
    | .frame _ _ => some { c with writes := c.writes ++ [pacPtr] }
    | .refused => some c
    | .undefined => none

def startWrite (cfg : ClientConfig M) (c : AsioClient M) (pacPtr : PackagePtr M) :
    Option (AsioClient M) :=
  let isProgress := !c.pendingList.isEmpty
  let c := { c with pendingList := c.pendingList ++ [pacPtr] }
  if isProgress then some c else c.startWriteFront cfg

/-- RequestMessage::startTimer, lookup and async_wait in one. -/
def startTimer (c : AsioClient M) (msgid : BitVec 32) : AsioClient M :=
  { c with
    timers := c.timers ++
      ((c.requestMessage.cache msgid).map fun data => (msgid, data.res)).toList }

/-- The completion handler of async_write. -/
def writeDone (cfg : ClientConfig M) (c : AsioClient M) (i : ℕ) (success : Bool)
    (pacPtr : PackagePtr M) : Option (AsioClient M) :=
  let c := { c with writes := c.writes.eraseIdx i }.startTimer pacPtr.pac.header.msgId
  if success then
    let c := { c with pendingList := c.pendingList.tail }
    if c.pendingList.isEmpty then some c else c.startWriteFront cfg
  else some c.close

def readError (c : AsioClient M) : AsioClient M := { c with reads := c.reads - 1 }.close

/-- The bytes of the latest connection. -/
def receive (received : List Bytes) (chunk : Bytes) : List Bytes :=
  received.dropLast ++ [received.getLastD [] ++ chunk]

def doRead (cfg : ClientConfig M) (c : AsioClient M) (chunk : Bytes) : Option (AsioClient M) :=
  let d := cfg.build.doRead cfg.memory c.readBuffer chunk
  if d.failed then none
  else some { c with
    reads := c.reads - 1
    readBuffer := d.state
    responses := c.responses ++ d.items
    handed := c.handed ++ d.items
    received := receive c.received chunk }.startRead

def runPosted (cfg : ClientConfig M) (c : AsioClient M) (i : ℕ) (handler : Posted M) :
    Option (AsioClient M) :=
  let c := { c with posted := c.posted.eraseIdx i }
  match handler with
  | .startWrite pacPtr => c.startWrite cfg pacPtr
  | .doClose => some (c.doClose cfg)

def timerExpired (c : AsioClient M) (i : ℕ) (wait : BitVec 32 × ℕ) : AsioClient M :=
  let (call, requestMessage) := c.requestMessage.onTimeout wait.1
  { c with
    requestMessage := requestMessage
    timers := c.timers.eraseIdx i
    invoked := c.invoked ++ call.toList }

/-- A wait is cancelled when the entry that owns its timer is gone; the handler does nothing. -/
def timerAborted (c : AsioClient M) (i : ℕ) (wait : BitVec 32 × ℕ) : Option (AsioClient M) :=
  if (c.requestMessage.cache wait.1).map RequestData.res = some wait.2 then none
  else some { c with timers := c.timers.eraseIdx i }

def doResponse (c : AsioClient M) (pack : Package M) (rest : List (Package M)) : AsioClient M :=
  let (call, requestMessage) := c.requestMessage.doResponse pack
  { c with
    requestMessage := requestMessage
    responses := rest
    invoked := c.invoked ++ call.toList }

/-- The steps of the threads that stop ends. -/
def ioStep (cfg : ClientConfig M) (c : AsioClient M) : ClientAction M → Option (AsioClient M)
  | .runPosted i => (c.posted[i]?).bind (c.runPosted cfg i)
  | .doConnect success => if 0 < c.connects then some (c.doConnect cfg success) else none
  | .readError => if 0 < c.reads then some c.readError else none
  | .doRead chunk => if 0 < c.reads then c.doRead cfg chunk else none
  | .writeDone i success => (c.writes[i]?).bind (c.writeDone cfg i success)
  | .timerAborted i => (c.timers[i]?).bind (c.timerAborted i)
  | .timerExpired i => (c.timers[i]?).map (c.timerExpired i)
  | .doResponse =>
    match c.responses with
    | [] => none
    | pack :: rest => some (c.doResponse pack rest)
  | _ => none

def step (cfg : ClientConfig M) (c : AsioClient M) : ClientAction M → Option (AsioClient M)
  | .postMessage isOrder msg => some (postMessage cfg.build c isOrder msg)
  | .postCall i => (c.calls[i]?).map (c.postCall i)
  | .publishMessage msg => some (publishMessage cfg.build c msg)
  | .postPackage pac => some (c.postPackage ⟨pac, none⟩).2
  | .stop => some c.stop
  | a => if c.stopped then none else c.ioStep cfg a

/-- A client on which start has been called. -/
def machine (cfg : ClientConfig M) : Machine (AsioClient M) (ClientAction M) where
  init := { connects := 1 }
  step := step cfg

end AsioClient

end AsioMsg
