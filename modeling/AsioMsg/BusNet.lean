import AsioMsg.BusHop
import AsioMsg.Endpoints

/-!
The bus with all its clients. Every session has its own connection, read in
chunks of any size at both ends; the bus decodes what a client has written,
hands it to preHandleMessage and posts the frames that come of it to the
sessions that get them. Calls of the room come in between at any time, and the
bus may post packages of its own.
-/

namespace AsioMsg

variable {M : Type}

/-- What the bus and its clients were built with. -/
structure BusConfig (M : Type) where
  build : Build M
  memory : Memory
  enableCompressSize : BitVec 32
  clientMemory : ℕ → Memory
  clientCompressSize : ℕ → BitVec 32
  reconnect : ℕ → Bool

namespace BusConfig

variable (cfg : BusConfig M)

/-- The client behind the k-th session. -/
def client (k : ℕ) : ClientConfig M where
  build := cfg.build.withBus false
  memory := cfg.clientMemory k
  enableCompressSize := cfg.clientCompressSize k
  reconnect := cfg.reconnect k

/-- What AsioServer has of the bus, with handlers left to the packages of the bus itself. -/
def server : ServerConfig M where
  build := cfg.build.withBus true
  memory := cfg.memory
  enableCompressSize := cfg.enableCompressSize
  workSize := 2
  handler := fun _ => none

end BusConfig

/-- The ids of the sessions are given out from 1 on. -/
def sessionId (k : ℕ) : ℤ := k + 1

def sessionNumber (id : ℤ) : ℕ := (id - 1).toNat

theorem sessionNumber_inj {i j : ℤ} (hi : 0 < i) (hj : 0 < j)
    (h : sessionNumber i = sessionNumber j) : i = j := by
  unfold sessionNumber at h
  omega

theorem sessionNumber_sessionId (k : ℕ) : sessionNumber (sessionId k) = k := by
  unfold sessionNumber sessionId
  omega

/-- A client, its connection and readBuffer_ of its session. -/
structure BusPeer (M : Type) where
  client : AsioClient M := { connects := 1 }
  readBuffer : Buffer := Buffer.empty
  up : Bytes := []
  down : Bytes := []
  /-- The packages whose frames the client has written, and those the bus has decoded. -/
  written : List (Package M) := []
  decoded : List (Package M) := []

/-- A package posted to a session, and the session that it came from, if it is not the bus's. -/
structure BusPost (M : Type) where
  receiver : ℕ
  sender : Option ℕ
  pac : Package M

structure BusNet (M : Type) where
  bus : MsgBus := {}
  server : Server M := {}
  peers : ℕ → BusPeer M := fun _ => {}
  posted : List (BusPost M) := []

inductive BusNetAction (M : Type)
  | client (k : ℕ) (a : ClientAction M)
  | doRead (k : ℕ) (chunk : Bytes)
  | room (call : RoomCall)
  | postPackage (k : ℕ) (pac : Package M)
  | runPost
  | doWrite (k i : ℕ) (success : Bool)

namespace BusNet

def setPeer (s : BusNet M) (k : ℕ) (peer : BusPeer M) : BusNet M :=
  { s with peers := Function.update s.peers k peer }

/-- A step of a client; it writes the frame of the package it takes. -/
def clientStep (cfg : BusConfig M) (s : BusNet M) (k : ℕ) (a : ClientAction M) :
    Option (BusNet M) :=
  let peer := s.peers k
  if a.chunk <+: peer.down then
    (peer.client.step (cfg.client k) a).map fun c => s.setPeer k { peer with
      client := c
      up := peer.up ++ ((peer.client.nextWrite a).map (cfg.client k).bytesOf).getD []
      down := peer.down.drop a.chunk.length
      written := peer.written ++ ((peer.client.nextWrite a).map PackagePtr.pac).toList }
  else none

/-- Session::postPackage -/
def postPackage (cfg : BusConfig M) (s : BusNet M) (sender : Option ℕ) (receiver : ℕ)
    (pac : Package M) : Option (BusNet M) :=
  match cfg.server.build.encode cfg.server.memory cfg.server.enableCompressSize pac
      Buffer.empty with
  | .frame _ out => some { s with
      server := { s.server with posts := s.server.posts ++ [(receiver, ⟨none, out.readable⟩)] }
      posted := s.posted ++ [⟨receiver, sender, pac⟩] }
  | .refused => some s
  | .undefined => none

/-- The sessions that a package is handed to, one after the other. -/
def postPackages (cfg : BusConfig M) (k : ℕ) : BusNet M → List (ℤ × Package M) →
    Option (BusNet M)
  | s, [] => some s
  | s, entry :: rest =>
    (s.postPackage cfg (some k) (sessionNumber entry.1) entry.2).bind fun t =>
      postPackages cfg k t rest

/-- preHandleMessage for each of the packages that a session has decoded. -/
def preHandleMessages (cfg : BusConfig M) (k : ℕ) : BusNet M → List (Package M) →
    Option (BusNet M)
  | s, [] => some s
  | s, pac :: rest =>
    let (bus, handed) := s.bus.preHandleMessage (sessionId k) pac
    (postPackages cfg k { s with bus := bus } handed).bind fun t =>
      preHandleMessages cfg k t rest

/-- Session::doRead of the k-th session; a thrown std::length_error ends the bus. -/
def doRead (cfg : BusConfig M) (s : BusNet M) (k : ℕ) (chunk : Bytes) : Option (BusNet M) :=
  let peer := s.peers k
  let d := cfg.server.build.doRead cfg.memory peer.readBuffer chunk
  if chunk <+: peer.up then
    if d.failed then none
    else preHandleMessages cfg k (s.setPeer k { peer with
      readBuffer := d.state
      up := peer.up.drop chunk.length
      decoded := peer.decoded ++ d.items }) d.items
  else none

/-- The buffers whose writes the sessions have started are under way to the clients. -/
def setServer (s : BusNet M) (server : Server M) : BusNet M :=
  { s with
    server := server
    peers := fun k => { s.peers k with
      down := (s.peers k).down ++ (((server.sessions k).started.drop
        (s.server.sessions k).started.length).map Outbound.buffer).flatten } }

def step (cfg : BusConfig M) (s : BusNet M) : BusNetAction M → Option (BusNet M)
  | .client k a => s.clientStep cfg k a
  | .doRead k chunk => s.doRead cfg k chunk
  | .room call => some { s with bus := { s.bus with room := call.apply s.bus.room } }
  | .postPackage k pac => s.postPackage cfg none k pac
  | .runPost => s.server.runPost.map s.setServer
  | .doWrite k i success => (s.server.doWrite k i success).map s.setServer

def machine (cfg : BusConfig M) : Machine (BusNet M) (BusNetAction M) where
  init := {}
  step := step cfg

/-- The clients and the bus send only what fits, and the sessions that join have ids. -/
def Orderly (cfg : BusConfig M) (s : BusNet M) : BusNetAction M → Prop
  | .client k a => AsioClient.Orderly (cfg.client k) (s.peers k).client a
  | .postPackage _ pac => cfg.server.build.Postable cfg.server.enableCompressSize pac
  | .room (.join id) => 0 < id
  | _ => True

instance (cfg : BusConfig M) (s : BusNet M) (a : BusNetAction M) : Decidable (Orderly cfg s a) :=
  match a with
  | .client k a =>
    inferInstanceAs (Decidable (AsioClient.Orderly (cfg.client k) (s.peers k).client a))
  | .postPackage _ pac => inferInstanceAs
    (Decidable (cfg.server.build.Postable cfg.server.enableCompressSize pac))
  | .room (.join id) => inferInstanceAs (Decidable (0 < id))
  | .room (.leave _) | .room (.addSubscribe ..) | .room (.delSubscribe ..) | .doRead .. | .runPost
  | .doWrite .. => inferInstanceAs (Decidable True)

/-- A client that calls, and a provider of the PingPong service. -/
def pingNet : BusConfig PingPong where
  build := PingPong.build false
  memory := PingPong.memory
  enableCompressSize := -1
  clientMemory := fun _ => PingPong.memory
  clientCompressSize := fun _ => -1
  reconnect := fun _ => true

end BusNet

end AsioMsg
