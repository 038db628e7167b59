import AsioMsg.BusCodec
import AsioMsg.Endpoints

/-!
One client and the session it is connected to. Each side is the machine it is
by itself; between them are the bytes of the connection, read in chunks of any
size. The server has other sessions too, whose packages and buffers are
arbitrary. The connection is the client's first; either side may stop reading
or writing at any point.
-/

namespace AsioMsg

variable {M : Type}

/-- What the two sides were built with; `session` is the number of the client's session. -/
structure LinkConfig (M : Type) where
  build : Build M
  clientMemory : Memory
  serverMemory : Memory
  clientCompressSize : BitVec 32
  serverCompressSize : BitVec 32
  reconnect : Bool
  workSize : ℕ
  handler : Bytes → Option (Package M → M)
  session : ℕ

namespace LinkConfig

variable (cfg : LinkConfig M)

def client : ClientConfig M where
  build := cfg.build
  memory := cfg.clientMemory
  enableCompressSize := cfg.clientCompressSize
  reconnect := cfg.reconnect

def server : ServerConfig M where
  build := cfg.build
  memory := cfg.serverMemory
  enableCompressSize := cfg.serverCompressSize
  workSize := cfg.workSize
  handler := cfg.handler

/-- What the client gets for a request that has arrived, when its type has a handler. -/
def answerTo (arrived : Package M) : Option (Package M) :=
  (cfg.server.reply arrived).map cfg.build.atPeer

/-- What the client gets for a request: the handler sees the request as it arrives, and the client
sees the reply as it arrives. -/
def answer (req : Package M) : Option (Package M) := cfg.answerTo (cfg.build.atPeer req)

end LinkConfig

/-- A step of the server that neither reads from the session nor posts a buffer to it. -/
def ServerAction.isOther (session : ℕ) : ServerAction M → Bool
  | .handleMessage other _ | .post other _ => decide (other ≠ session)
  | _ => true

structure Link (M : Type) where
  client : AsioClient M := { connects := 1 }
  server : Server M := {}
  /-- readBuffer_ and id_ of the session. -/
  readBuffer : Buffer := Buffer.empty
  id : BitVec 32 := 0
  /-- The bytes under way to the session and to the client. -/
  up : Bytes := []
  down : Bytes := []
  /-- The packages whose frames the client has written, those handed to handleMessage by the
  session, and those posted to the session by publishMessage and deliverPackage. -/
  written : List (Package M) := []
  delivered : List (Package M) := []
  published : List (Package M) := []

inductive LinkAction (M : Type)
  | client (a : ClientAction M)
  | server (a : ServerAction M)
  | doRead (chunk : Bytes)
  | publishMessage (msg : M)
  | deliverPackage (pac : Package M)

namespace Link

/-- The client writes the frame of the package it takes, and its reads take from what is under
way to it. -/
def clientStep (cfg : LinkConfig M) (l : Link M) (a : ClientAction M) : Option (Link M) :=
  if a.chunk <+: l.down then
    (l.client.step cfg.client a).map fun c => { l with
      client := c
      up := l.up ++ ((l.client.nextWrite a).map cfg.client.bytesOf).getD []
      down := l.down.drop a.chunk.length
      written := l.written ++ ((l.client.nextWrite a).map PackagePtr.pac).toList }
  else none

/-- The buffers whose writes the session has started are under way to the client. -/
def setServer (cfg : LinkConfig M) (l : Link M) (s : Server M) : Link M :=
  { l with
    server := s
    down := l.down ++ (((s.sessions cfg.session).started.drop
      (l.server.sessions cfg.session).started.length).map Outbound.buffer).flatten }

def serverStep (cfg : LinkConfig M) (l : Link M) (a : ServerAction M) : Option (Link M) :=
  if a.isOther cfg.session then (l.server.step cfg.server a).map (l.setServer cfg) else none

/-- Session::doRead; a thrown std::length_error ends the server. -/
def doRead (cfg : LinkConfig M) (l : Link M) (chunk : Bytes) : Option (Link M) :=
  let d := cfg.build.doRead cfg.serverMemory l.readBuffer chunk
  if chunk <+: l.up then
    if d.failed then none
    else some { l with
      server := d.items.foldl (fun s pac => s.handleMessage cfg.server cfg.session pac) l.server
      readBuffer := d.state
      up := l.up.drop chunk.length
      delivered := l.delivered ++ d.items }
  else none

/-- Session::postPackage -/
def postPackage (cfg : LinkConfig M) (l : Link M) (pac : Package M) : Option (Link M) :=
  match cfg.build.encode cfg.serverMemory cfg.serverCompressSize pac Buffer.empty with
  | .frame _ out => some { l with
      server := { l.server with
        posts := l.server.posts ++ [(cfg.session, ⟨none, out.readable⟩)] }
      published := l.published ++ [pac] }
  | .refused => some l
  | .undefined => none

/-- Session::publishMessage -/
def publishMessage (cfg : LinkConfig M) (l : Link M) (msg : M) : Option (Link M) :=
  { l with id := l.id + 1 }.postPackage cfg (publishPackage cfg.build (nextMsgId l.id) msg)

def step (cfg : LinkConfig M) (l : Link M) : LinkAction M → Option (Link M)
  | .client a => l.clientStep cfg a
  | .server a => l.serverStep cfg a
  | .doRead chunk => l.doRead cfg chunk
  | .publishMessage msg => l.publishMessage cfg msg
  | .deliverPackage pac => l.postPackage cfg pac

def machine (cfg : LinkConfig M) : Machine (Link M) (LinkAction M) where
  init := {}
  step := step cfg

/-- Both sides send only what fits, and no request but from postMessage. -/
def Orderly (cfg : LinkConfig M) (l : Link M) : LinkAction M → Prop
  | .client a => AsioClient.Orderly cfg.client l.client a
  | .publishMessage msg => cfg.build.Fits cfg.serverCompressSize msg
  | .deliverPackage pac => cfg.build.Postable cfg.serverCompressSize pac ∧
      pac.header.msgType ≠ MsgType.REQREP.code
  | _ => True

instance (cfg : LinkConfig M) (l : Link M) (a : LinkAction M) : Decidable (Orderly cfg l a) :=
  match a with
  | .client a => inferInstanceAs (Decidable (AsioClient.Orderly cfg.client l.client a))
  | .publishMessage msg => inferInstanceAs (Decidable (cfg.build.Fits cfg.serverCompressSize msg))
  | .deliverPackage pac =>
    inferInstanceAs (Decidable (cfg.build.Postable cfg.serverCompressSize pac ∧
      pac.header.msgType ≠ MsgType.REQREP.code))
  | .server .. | .doRead .. => inferInstanceAs (Decidable True)

/-- A client of the PingPong service and its session, the first of the server. -/
def pingLink : LinkConfig PingPong where
  build := PingPong.build false
  clientMemory := PingPong.memory
  serverMemory := PingPong.memory
  clientCompressSize := -1
  serverCompressSize := -1
  reconnect := true
  workSize := 2
  handler := Server.pingServer.handler
  session := 0

/-- The ordered requests of a run. -/
def pingRequest (msgId : BitVec 32) : Package PingPong :=
  AsioClient.makePackage pingLink.build .REQREP true msgId PingPong.blank

def pingUp : Bytes :=
  pingLink.client.bytesOf ⟨pingRequest 1, none⟩ ++ pingLink.client.bytesOf ⟨pingRequest 2, none⟩

def pingReply (msgId : BitVec 32) : Bytes :=
  ((pingLink.server.reply (pingLink.build.atPeer (pingRequest msgId))).bind
    pingLink.server.bytesOf).getD []

def pingDown : Bytes :=
  (pingLink.server.bytesOf (publishPackage pingLink.build 1 PingPong.blank)).getD [] ++
    pingReply 1 ++ pingReply 2

/-- Two ordered requests and a published message; the reads cut frames in two. -/
def pingCalls : List (LinkAction PingPong) :=
  [.client (.doConnect true), .client (.postMessage true PingPong.blank), .client (.postCall 0),
    .client (.runPosted 0), .client (.postMessage true PingPong.blank), .client (.postCall 0),
    .client (.runPosted 0), .client (.writeDone 0 true), .doRead (pingUp.take 50),
    .server (.workerStart 1), .client (.writeDone 0 true), .doRead (pingUp.drop 50),
    .publishMessage PingPong.blank, .server (.workerReply 1), .server (.workerStart 1),
    .server (.workerReply 1), .server .runPost, .server .runPost, .server .runPost,
    .server (.doWrite 0 0 true), .server (.doWrite 0 0 true), .server (.doWrite 0 0 true),
    .client (.doRead (pingDown.take 60)), .client .doResponse,
    .client (.doRead (pingDown.drop 60)), .client .doResponse, .client .doResponse]

/-- The requests have been called back, and nothing is left of what was under way. -/
theorem run_pingCalls : ∃ l : Link PingPong, (machine pingLink).ReachableWhen (Orderly pingLink) l ∧
    l.client.accepted = [0, 1] ∧ l.client.invoked.map Invocation.res = [0, 1] ∧
    l.client.puts = [pingRequest 1, pingRequest 2] ∧
    l.written = [pingRequest 1, pingRequest 2] ∧
    l.published = [publishPackage pingLink.build 1 PingPong.blank] ∧
    (l.client.handed.filter fun pac => pac.header.isorder).length = 2 ∧
    [l.client.posted.length, l.client.pendingList.length, l.up.length, l.down.length,
      (l.server.jobsAt 1).length, (l.server.poolTasks ++ l.server.poolQueue).length,
      l.server.posts.length, (l.server.sessions 0).writeDeque.length,
      l.client.responses.length] = [0, 0, 0, 0, 0, 0, 0, 0, 0] := by
  have hrun : ((machine pingLink).run (Orderly pingLink) (machine pingLink).init pingCalls).map
      (fun l => ([l.client.accepted, l.client.invoked.map Invocation.res],
        [l.client.puts, l.written, l.published],
        (l.client.handed.filter fun pac => pac.header.isorder).length,
        [l.client.posted.length, l.client.pendingList.length, l.up.length, l.down.length,
          (l.server.jobsAt 1).length, (l.server.poolTasks ++ l.server.poolQueue).length,
          l.server.posts.length, (l.server.sessions 0).writeDeque.length,
          l.client.responses.length])) =
      some ([[0, 1], [0, 1]], [[pingRequest 1, pingRequest 2], [pingRequest 1, pingRequest 2],
        [publishPackage pingLink.build 1 PingPong.blank]], 2, [0, 0, 0, 0, 0, 0, 0, 0, 0]) := by
    decide +kernel
  obtain ⟨l, hl, hstate⟩ := Option.map_eq_some_iff.mp hrun
  obtain ⟨hrequests, hpackages, hhanded, hnone⟩ := by simpa only [Prod.mk.injEq] using hstate
  obtain ⟨haccepted, hinvoked⟩ := by simpa only [List.cons.injEq, and_true] using hrequests
  obtain ⟨hputs, hwritten, hpublished⟩ := by simpa only [List.cons.injEq, and_true] using hpackages
  exact ⟨l, Machine.reachableWhen_of_run pingCalls hl, haccepted, hinvoked, hputs, hwritten,
    hpublished, hhanded, hnone⟩

end Link

end AsioMsg
