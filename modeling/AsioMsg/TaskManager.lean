import AsioMsg.Lib.Machine
import AsioMsg.Session

/-!
TaskManager and the threads of an AsioServer. The thread of io_ decodes
requests, runs the posted writeBuffer calls and completes writes; each worker
runs the tasks posted to its own io_service; the threads of the pool run the
unordered tasks. An io_service with one thread runs its handlers in the order
in which they were posted. Tasks of a preTask_ only post packages to sessions.
-/

namespace AsioMsg

variable {M : Type}

/-- What an AsioServer was built with. A handler computes the message of its one reply. -/
structure ServerConfig (M : Type) where
  build : Build M
  memory : Memory
  enableCompressSize : BitVec 32
  workSize : ℕ
  handler : Bytes → Option (Package M → M)

/-- A request with a handler, the session it came from and its place among all requests. -/
structure Job (M : Type) where
  number : ℕ
  session : ℕ
  pac : Package M

def Job.isorder (job : Job M) : Bool := job.pac.header.isorder

/-- A buffer for a session; for a reply, the request it answers. -/
structure Outbound (M : Type) where
  job : Option (Job M)
  buffer : Bytes

namespace ServerConfig

def workers (cfg : ServerConfig M) : ℕ := max cfg.workSize 1

/-- sessionPtr->id() % workers_.size(), with the ids given out from 1 on. -/
def workId (cfg : ServerConfig M) (session : ℕ) : ℕ :=
  sizeT (BitVec.ofNat 32 (session + 1)).toInt % cfg.workers

end ServerConfig

structure Server (M : Type) where
  /-- The requests handed to handleMessage that have a handler. -/
  decoded : List (Job M) := []
  /-- The posted tasks of each worker, and the task it is running. -/
  workerQueues : ℕ → List (Job M) := fun _ => []
  workerTasks : ℕ → Option (Job M) := fun _ => none
  poolQueue : List (Job M) := []
  poolTasks : List (Job M) := []
  /-- The writeBuffer calls posted to io_. -/
  posts : List (ℕ × Outbound M) := []
  sessions : ℕ → SessionOut (Outbound M) := fun _ => {}
  /-- The tasks in the order in which they were started. -/
  executed : List (Job M) := []

inductive ServerAction (M : Type)
  | handleMessage (session : ℕ) (pac : Package M)
  | workerStart (w : ℕ)
  | workerReply (w : ℕ)
  | poolStart
  | poolReply (i : ℕ)
  | post (session : ℕ) (buffer : Bytes)
  | runPost
  | doWrite (session : ℕ) (i : ℕ) (success : Bool)

namespace Server

def handleMessage (cfg : ServerConfig M) (s : Server M) (session : ℕ) (pac : Package M) :
    Server M :=
  match cfg.handler pac.typeName with
  | none => s
  | some _ =>
    let job : Job M := ⟨s.decoded.length, session, pac⟩
    let s := { s with decoded := s.decoded ++ [job] }
    if pac.header.isorder then
      let w := cfg.workId session
      { s with workerQueues := Function.update s.workerQueues w (s.workerQueues w ++ [job]) }
    else { s with poolQueue := s.poolQueue ++ [job] }

/-- Session::replyMessage called by the task of a job. -/
def replyMessage (cfg : ServerConfig M) (s : Server M) (job : Job M) : Option (Server M) :=
  match cfg.handler job.pac.typeName with
  | none => none
  | some task =>
    match cfg.build.encode cfg.memory cfg.enableCompressSize
        (replyPackage cfg.build job.pac (task job.pac)) Buffer.empty with
    | .frame _ out =>
      some { s with posts := s.posts ++ [(job.session, ⟨some job, out.readable⟩)] }
    | .refused => some s
    | .undefined => none

def workerStart (s : Server M) (w : ℕ) : Option (Server M) :=
  match s.workerTasks w, s.workerQueues w with
  | none, job :: rest => some { s with
      workerQueues := Function.update s.workerQueues w rest
      workerTasks := Function.update s.workerTasks w (some job)
      executed := s.executed ++ [job] }
  | _, _ => none

def workerReply (cfg : ServerConfig M) (s : Server M) (w : ℕ) : Option (Server M) :=
  (s.workerTasks w).bind fun job =>
    { s with workerTasks := Function.update s.workerTasks w none }.replyMessage cfg job

def poolStart (s : Server M) : Option (Server M) :=
  match s.poolQueue with
  | [] => none
  | job :: rest => some { s with
      poolQueue := rest
      poolTasks := s.poolTasks ++ [job]
      executed := s.executed ++ [job] }

def poolReply (cfg : ServerConfig M) (s : Server M) (i : ℕ) : Option (Server M) :=
  (s.poolTasks[i]?).bind fun job =>
    { s with poolTasks := s.poolTasks.eraseIdx i }.replyMessage cfg job

/-- The next handler of io_: writeBuffer of a session. -/
def runPost (s : Server M) : Option (Server M) :=
  match s.posts with
  | [] => none
  | (session, out) :: rest => some { s with
      posts := rest
      sessions := Function.update s.sessions session ((s.sessions session).writeBuffer out) }

def doWrite (s : Server M) (session i : ℕ) (success : Bool) : Option (Server M) :=
  ((s.sessions session).writes[i]?).map fun _ => { s with
    sessions := Function.update s.sessions session ((s.sessions session).doWrite i success) }

def step (cfg : ServerConfig M) (s : Server M) : ServerAction M → Option (Server M)
  | .handleMessage session pac => some (s.handleMessage cfg session pac)
  | .workerStart w => s.workerStart w
  | .workerReply w => s.workerReply cfg w
  | .poolStart => s.poolStart
  | .poolReply i => s.poolReply cfg i
  | .post session buffer => some { s with posts := s.posts ++ [(session, ⟨none, buffer⟩)] }
  | .runPost => s.runPost
  | .doWrite session i success => s.doWrite session i success

def machine (cfg : ServerConfig M) : Machine (Server M) (ServerAction M) where
  init := {}
  step := step cfg

end Server

end AsioMsg
