import AsioMsg.LinkCalls
import AsioMsg.ProtoClasses

/-!
The server of server/main.cpp. A client that sends it a PingPongReq gets a
PingPongRsp with the same content: through the classes generated for the two
messages, the frames, the server's threads and the client's table of requests.
The handlers beside PingPong may reply what they like.
-/

namespace AsioMsg

open ProtoSimple

variable {F : Type} {w : WireFormat F} {limit : ℕ}

namespace GeneratedMessage

/-- static_cast to a class, of an object that is of this class. -/
def as (msg : GeneratedMessage w limit) (t : MessageType) (ht : t ∈ messageTypes) :
    Option (Message F t) :=
  if h : msg.type.typeName = t.typeName then some (type_eq_of_typeName ht h ▸ msg.message) else none

theorem as_eq_some {msg : GeneratedMessage w limit} {t : MessageType} {ht : t ∈ messageTypes}
    {m : Message F t} (h : msg.as t ht = some m) :
    ∃ hvalid hsize, msg = ⟨t, ht, m, hvalid, hsize⟩ := by
  obtain ⟨type, registered, message, hvalid, hsize⟩ := msg
  obtain ⟨hname, heq⟩ := Option.dite_none_right_eq_some.mp h
  have htype : type = t := List.inj_on_of_nodup_map nodup_typeName registered ht hname
  subst htype
  obtain rfl := Option.some.inj heq
  exact ⟨hvalid, hsize, rfl⟩

theorem as_mk {t : MessageType} {ht : t ∈ messageTypes} {m : Message F t} {hvalid : m.Valid w}
    {hsize : m.byteSizeLong w ≤ limit} : (mk t ht m hvalid hsize).as t ht = some m :=
  dif_pos rfl

end GeneratedMessage

namespace BaseHandler

theorem pingPongReq_mem : PingPongReq ∈ messageTypes := by simp [messageTypes]

theorem pingPongRsp_mem : PingPongRsp ∈ messageTypes := by simp [messageTypes]

/-- content() of a PingPongReq. -/
def reqContent (req : Message F PingPongReq) : Bytes := req.content ⟨0, by decide⟩

/-- content() of a PingPongRsp. -/
def rspContent (rsp : Message F PingPongRsp) : Bytes := rsp.content ⟨0, by decide⟩

/-- BaseHandler::PingPong, on a new PingPongRsp. -/
def pingPong (req : Message F PingPongReq) : Message F PingPongRsp :=
  Message.clear.set ⟨0, by decide⟩ (reqContent req)

@[simp] theorem rspContent_pingPong (req : Message F PingPongReq) :
    rspContent (pingPong req) = reqContent req :=
  Message.content_set ..

theorem valid_pingPong {req : Message F PingPongReq} (h : req.Valid w) :
    (pingPong req).Valid w where
  utf8 i := by
    have hcontent : w.verifyUTF8 (reqContent req) = true := h.utf8 ⟨0, by decide⟩
    rw [← rspContent_pingPong] at hcontent
    obtain rfl : i = ⟨0, by decide⟩ := Subsingleton.elim (α := Fin 1) _ _
    exact hcontent
  foreign _ hfield := absurd hfield List.not_mem_nil

/-- The reply is no longer than the request, which may have unknown fields. -/
theorem byteSizeLong_pingPong_le (req : Message F PingPongReq) :
    (pingPong req).byteSizeLong w ≤ req.byteSizeLong w := by
  have hreq : req.byteSizeLong w = FieldType.byteSizeLong w .string (reqContent req) +
      (req.unknownFields.map w.unknownFieldSize).sum := rfl
  have hrsp : (pingPong req).byteSizeLong w =
      FieldType.byteSizeLong w .string (rspContent (pingPong req)) := rfl
  rw [hreq, hrsp, rspContent_pingPong]
  exact Nat.le_add_right ..

/-- The task that ADVISE_HANDLER makes of PingPong; a request of another class does not come. -/
def pingPongTask (hw : w.Lawful) (request : Package (GeneratedMessage w limit)) :
    GeneratedMessage w limit :=
  match h : request.msgPtr.bind fun msg => msg.as PingPongReq pingPongReq_mem with
  | some req =>
      ⟨PingPongRsp, pingPongRsp_mem, pingPong req, by
        obtain ⟨msg, _, hmsg⟩ := Option.bind_eq_some_iff.mp h
        obtain ⟨hvalid, _, _⟩ := GeneratedMessage.as_eq_some hmsg
        exact valid_pingPong hvalid, by
        obtain ⟨msg, _, hmsg⟩ := Option.bind_eq_some_iff.mp h
        obtain ⟨_, hsize, _⟩ := GeneratedMessage.as_eq_some hmsg
        exact le_trans (byteSizeLong_pingPong_le req) hsize⟩
  | none => GeneratedMessage.new hw PingPongRsp pingPongRsp_mem

theorem as_pingPongTask (hw : w.Lawful) {request : Package (GeneratedMessage w limit)}
    {msg : GeneratedMessage w limit} {req : Message F PingPongReq}
    (hmsg : request.msgPtr = some msg) (hreq : msg.as PingPongReq pingPongReq_mem = some req) :
    (pingPongTask hw request).as PingPongRsp pingPongRsp_mem = some (pingPong req) := by
  have hbind : (request.msgPtr.bind fun msg => msg.as PingPongReq pingPongReq_mem) = some req := by
    rw [hmsg, Option.bind_some, hreq]
  rw [pingPongTask]
  split
  · next other hother =>
    obtain rfl := Option.some.inj (hother.symm.trans hbind)
    exact GeneratedMessage.as_mk
  · next hnone => exact absurd (hnone.symm.trans hbind) (by simp)

end BaseHandler

namespace SampleServer

open BaseHandler

variable {cfg : LinkConfig (GeneratedMessage w limit)} {l : Link (GeneratedMessage w limit)}

/-- A link of the program: the generated classes, and PingPong among the handlers. -/
structure Serves (hw : w.Lawful) (cfg : LinkConfig (GeneratedMessage w limit)) : Prop where
  protobuf : cfg.build.protobuf = GeneratedMessage.protobuf hw
  pingPong : cfg.handler PingPongReq.typeName = some (pingPongTask hw)
  zlib : cfg.build.zlib.UncompressUndoesCompress
  replies : cfg.server.RepliesFit

theorem Serves.reliable {hw : w.Lawful} (h : Serves hw cfg) (hlimit : limit ≤ w.maxSize) :
    Link.Reliable cfg where
  parse := h.protobuf ▸ GeneratedMessage.parseUndoesSerialize hw hlimit
  zlib := h.zlib
  replies := h.replies

/-- The answer to a PingPongReq, as the client decodes it. -/
theorem Serves.answer {hw : w.Lawful} (h : Serves hw cfg)
    {req rsp : Package (GeneratedMessage w limit)} {msg : GeneratedMessage w limit}
    {ping : Message F PingPongReq} (hmsg : req.msgPtr = some msg)
    (hping : msg.as PingPongReq pingPongReq_mem = some ping) (hrsp : cfg.answer req = some rsp) :
    ∃ reply pong, rsp.msgPtr = some reply ∧ reply.as PingPongRsp pingPongRsp_mem = some pong ∧
      rspContent pong = reqContent ping := by
  obtain ⟨hvalid, hsize, rfl⟩ := GeneratedMessage.as_eq_some hping
  have hpeer : (cfg.build.atPeer req).msgPtr =
      some ⟨PingPongReq, pingPongReq_mem, ping, hvalid, hsize⟩ := by
    rw [Build.atPeer, hmsg]
    rfl
  have hname : (cfg.build.atPeer req).typeName = PingPongReq.typeName := by
    rw [Build.atPeer, hmsg]
    change cfg.build.protobuf.getTypeName _ = _
    rw [h.protobuf]
    rfl
  obtain ⟨pac, hpac, rfl⟩ := Option.map_eq_some_iff.mp hrsp
  obtain ⟨task, htask, rfl⟩ := Option.map_eq_some_iff.mp hpac
  have htask' : cfg.handler (cfg.build.atPeer req).typeName = some task := htask
  rw [hname, h.pingPong] at htask'
  obtain rfl := Option.some.inj htask'
  exact ⟨pingPongTask hw (cfg.build.atPeer req), BaseHandler.pingPong ping, rfl,
    as_pingPongTask hw hpeer hping, rspContent_pingPong ping⟩

/-- In every orderly run, a callback for a PingPongReq gets a PingPongRsp with the content that
was sent, or a timeout. -/
theorem pingPong_answered (hw : w.Lawful) (hlimit : limit ≤ w.maxSize) (hserves : Serves hw cfg)
    (h : (Link.machine cfg).ReachableWhen (Link.Orderly cfg) l) :
    ∀ inv ∈ l.client.invoked, ∀ msg ping, inv.req.msgPtr = some msg →
      msg.as PingPongReq pingPongReq_mem = some ping →
      (inv.error = .eTimeout ∧ inv.rsp = none) ∨
        (inv.error = .eSuccess ∧ ∃ rsp reply pong, inv.rsp = some rsp ∧ rsp.msgPtr = some reply ∧
          reply.as PingPongRsp pingPongRsp_mem = some pong ∧
          rspContent pong = reqContent ping) := by
  intro inv hinv msg ping hmsg hping
  obtain ⟨_, hcall⟩ := Link.callInv_reachable (hserves.reliable hlimit) h
  rcases hcall.justified inv hinv with ⟨herror, rsp, hrsp, hanswer⟩ | htimeout
  · obtain ⟨reply, pong, hreply, hpong, hcontent⟩ := hserves.answer hmsg hping hanswer
    exact Or.inr ⟨herror, rsp, reply, pong, hrsp, hreply, hpong, hcontent⟩
  · exact Or.inl htimeout

/-- Without compression every message of a short library fits. -/
theorem fits (hw : w.Lawful) (hlimit : limit ≤ w.maxSize)
    (hframe : kPackageHeaderSize + 1024 + limit ≤ 1024 * 1024 * 100) (zlib : Zlib)
    (msg : GeneratedMessage w limit) :
    Build.Fits ⟨GeneratedMessage.protobuf hw, zlib, false⟩ (-1) msg := by
  have hname : ∀ t ∈ messageTypes, 1 ≤ t.typeName.length ∧ t.typeName.length ≤ 1024 := by decide
  obtain ⟨hpos, hle⟩ := hname msg.type msg.registered
  have hmax := hw.maxSize_lt
  have hlength : (msg.message.internalSerialize w).length ≤ limit := by
    rw [Message.length_internalSerialize hw _ (le_trans msg.byteSizeLong_le hlimit)]
    exact msg.byteSizeLong_le
  refine ⟨rfl, GeneratedMessage.registered_protobuf hw msg, hpos, hle, ?_, ?_⟩
  · change (msg.message.internalSerialize w).length ≤ 2 ^ 31 - 1
    omega
  · change ((kPackageHeaderSize + msg.type.typeName.length +
      (msg.message.internalSerialize w).length : ℕ) : ℤ) ≤ kMaxPackageLen
    unfold kMaxPackageLen
    omega

/-- The program with messages of at most 200 bytes and PingPong alone. -/
def link : LinkConfig (GeneratedMessage ProtoWire.wire 200) where
  build := ⟨GeneratedMessage.protobuf ProtoWire.lawful, PingPong.zlib, false⟩
  clientMemory := PingPong.memory
  serverMemory := PingPong.memory
  clientCompressSize := -1
  serverCompressSize := -1
  reconnect := true
  workSize := 2
  handler name :=
    if name = PingPongReq.typeName then some (pingPongTask ProtoWire.lawful) else none
  session := 0

theorem serves_link : Serves ProtoWire.lawful link where
  protobuf := rfl
  pingPong := by simp only [link, if_true]
  zlib := PingPong.uncompressUndoesCompress
  replies _ task pac _ := fits ProtoWire.lawful (by decide) (by decide) PingPong.zlib (task pac)

/-- A PingPongReq with the content "hi". -/
def hi : GeneratedMessage ProtoWire.wire 200 where
  type := PingPongReq
  registered := pingPongReq_mem
  message := Message.clear.set ⟨0, by decide⟩ ([0x68, 0x69] : Bytes)
  valid := by decide
  byteSizeLong_le := by decide

def hiUp : Bytes :=
  link.client.bytesOf ⟨AsioClient.makePackage link.build .REQREP true 1 hi, none⟩

def hiDown : Bytes :=
  ((link.server.reply (link.build.atPeer
    (AsioClient.makePackage link.build .REQREP true 1 hi))).bind link.server.bytesOf).getD []

def hiCalls : List (LinkAction (GeneratedMessage ProtoWire.wire 200)) :=
  [.client (.doConnect true), .client (.postMessage true hi), .client (.postCall 0),
    .client (.runPosted 0), .client (.writeDone 0 true), .doRead (hiUp.take 30),
    .doRead (hiUp.drop 30), .server (.workerStart 1), .server (.workerReply 1), .server .runPost,
    .server (.doWrite 0 0 true), .client (.doRead hiDown), .client .doResponse]

theorem pingPong_answered_hi : ∃ l : Link (GeneratedMessage ProtoWire.wire 200),
    ∃ inv ∈ l.client.invoked, ∃ rsp reply pong, inv.rsp = some rsp ∧ rsp.msgPtr = some reply ∧
      reply.as PingPongRsp pingPongRsp_mem = some pong ∧ rspContent pong = [0x68, 0x69] := by
  have hrun : ((Link.machine link).run (Link.Orderly link) (Link.machine link).init hiCalls).map
      (fun l => l.client.invoked.map fun inv => (inv.error, inv.req.msgPtr.bind fun msg =>
        (msg.as PingPongReq pingPongReq_mem).map reqContent)) =
      some [(.eSuccess, some [0x68, 0x69])] := by
    decide +kernel
  obtain ⟨l, hl, hinvoked⟩ := Option.map_eq_some_iff.mp hrun
  obtain ⟨inv, hinv⟩ : ∃ inv, l.client.invoked = [inv] :=
    List.length_eq_one_iff.mp (by simpa using congrArg List.length hinvoked)
  rw [hinv, List.map_singleton] at hinvoked
  obtain ⟨herror, hping⟩ := Prod.mk.inj (List.cons.inj hinvoked).1
  obtain ⟨msg, hmsg, hmap⟩ := Option.bind_eq_some_iff.mp hping
  obtain ⟨ping, hping, hcontent⟩ := Option.map_eq_some_iff.mp hmap
  have hmem : inv ∈ l.client.invoked := hinv ▸ List.mem_singleton_self inv
  rcases pingPong_answered ProtoWire.lawful (by decide) serves_link
    (Machine.reachableWhen_of_run hiCalls hl) inv hmem msg ping hmsg hping with
    ⟨htimeout, _⟩ | ⟨_, rsp, reply, pong, hrsp, hreply, hpong, hsame⟩
  · exact absurd (herror.symm.trans htimeout) (by decide)
  · exact ⟨l, inv, hmem, rsp, reply, pong, hrsp, hreply, hpong, hsame.trans hcontent⟩

end SampleServer

end AsioMsg
