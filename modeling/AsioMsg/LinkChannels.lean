import AsioMsg.Link

/-!
What is under way between the client and its session. Upwards every package
written has been handed to handleMessage or is carried by the session's buffer
and the wire; downwards the buffers that the session has started are the
frames of packages the client has been handed or will be, in the same order.
-/

namespace AsioMsg

variable {M : Type}

namespace Link

variable {cfg : LinkConfig M} {l l' : Link M}

/-- What the two ends rely on: protobuf and zlib undo themselves, and replies fit. -/
structure Reliable (cfg : LinkConfig M) : Prop where
  parse : cfg.build.protobuf.ParseUndoesSerialize
  zlib : cfg.build.zlib.UncompressUndoesCompress
  replies : cfg.server.RepliesFit

/-- The client's end. -/
abbrev UpInv (cfg : LinkConfig M) (l : Link M) : Prop :=
  Uplink cfg.client cfg.build cfg.serverMemory cfg.build.atPeer l.client l.written l.delivered
    l.readBuffer l.up

theorem Reliable.arrives (h : Reliable cfg) : Arrives cfg.client cfg.build cfg.build.atPeer :=
  arrives_of_encode fun _ hpac => hpac.encode_eq h.parse h.zlib cfg.client.memory

theorem UpInv.client (h : UpInv cfg l) (hrel : Reliable cfg) {a : ClientAction M}
    (hok : AsioClient.Orderly cfg.client l.client a) (hstep : l.clientStep cfg a = some l') :
    UpInv cfg l' := by
  obtain ⟨_, hmap⟩ := Option.ite_none_right_eq_some.mp hstep
  obtain ⟨c, hc, rfl⟩ := Option.map_eq_some_iff.mp hmap
  exact Uplink.client h hrel.arrives hok (.of_step hc)

/-- A step that leaves the client and what it has written alone. -/
theorem UpInv.frame (h : UpInv cfg l) (hclient : l'.client = l.client)
    (hwritten : l'.written = l.written) (hdelivered : l'.delivered = l.delivered)
    (hbuffer : l'.readBuffer = l.readBuffer) (hup : l'.up = l.up) : UpInv cfg l' := by
  rw [UpInv, hclient, hwritten, hdelivered, hbuffer, hup]
  exact h

/-- A read of the session takes the next packages from what is under way. -/
theorem UpInv.doRead (h : UpInv cfg l) {chunk : Bytes} (hstep : l.doRead cfg chunk = some l') :
    UpInv cfg l' := by
  obtain ⟨hchunk, hstep⟩ := Option.ite_none_right_eq_some.mp hstep
  obtain ⟨_, hstep⟩ := Option.ite_none_left_eq_some.mp hstep
  obtain rfl := Option.some.inj hstep
  exact (Uplink.doRead h hchunk).2

/-- The requests of the session that have a handler. -/
def HasHandler (cfg : LinkConfig M) (pac : Package M) : Bool := (cfg.handler pac.typeName).isSome

/-- The server's end. -/
structure ServeInv (cfg : LinkConfig M) (l : Link M) : Prop where
  replies : Server.ReplyInv cfg.server cfg.session l.server
  decoded : (l.server.decoded.filter fun job => decide (job.session = cfg.session)).map Job.pac =
    l.delivered.filter (HasHandler cfg)

/-- A package handed to handleMessage. -/
theorem ServeInv.handleMessage {s : Server M} {delivered : List (Package M)}
    (h : Server.ReplyInv cfg.server cfg.session s)
    (hdecoded : (s.decoded.filter fun job => decide (job.session = cfg.session)).map Job.pac =
      delivered.filter (HasHandler cfg)) {pac : Package M} (hplain : Build.Plain pac.header) :
    Server.ReplyInv cfg.server cfg.session (s.handleMessage cfg.server cfg.session pac) ∧
      ((s.handleMessage cfg.server cfg.session pac).decoded.filter fun job =>
          decide (job.session = cfg.session)).map Job.pac =
        (delivered ++ [pac]).filter (HasHandler cfg) := by
  refine ⟨h.handleMessage cfg.session pac fun _ => hplain, ?_⟩
  rcases Server.handleMessage_cases cfg.server s cfg.session pac with
    ⟨hnone, hsame⟩ | ⟨hsome, hnew, _⟩
  · have hno : HasHandler cfg pac = false := by
      rw [HasHandler, Option.isSome_eq_false_iff, Option.isNone_iff_eq_none]
      exact hnone
    rw [hsame, hdecoded, List.filter_append]
    simp [hno]
  · have hyes : HasHandler cfg pac = true := hsome
    rw [hnew, List.filter_append, List.map_append, hdecoded, List.filter_append]
    simp [hyes]

theorem ServeInv.doRead (h : ServeInv cfg l) (hup : UpInv cfg l) {chunk : Bytes}
    (hstep : l.doRead cfg chunk = some l') : ServeInv cfg l' := by
  have hup' := hup.doRead hstep
  obtain ⟨_, hstep⟩ := Option.ite_none_right_eq_some.mp hstep
  obtain ⟨_, hstep⟩ := Option.ite_none_left_eq_some.mp hstep
  obtain rfl := Option.some.inj hstep
  have hplain : ∀ pac ∈ (cfg.build.doRead cfg.serverMemory l.readBuffer chunk).items,
      Build.Plain pac.header := by
    intro pac hpac
    obtain ⟨sent, hsent, rfl⟩ := hup'.mem_delivered (List.mem_append_right _ hpac)
    exact (hup'.written sent hsent).1.1.atPeer
  suffices hall : ∀ (items : List (Package M)) (s : Server M) (delivered : List (Package M)),
      (∀ pac ∈ items, Build.Plain pac.header) →
      Server.ReplyInv cfg.server cfg.session s →
      (s.decoded.filter fun job => decide (job.session = cfg.session)).map Job.pac =
        delivered.filter (HasHandler cfg) →
      Server.ReplyInv cfg.server cfg.session
        (items.foldl (fun s pac => s.handleMessage cfg.server cfg.session pac) s) ∧
      ((items.foldl (fun s pac => s.handleMessage cfg.server cfg.session pac) s).decoded.filter
        fun job => decide (job.session = cfg.session)).map Job.pac =
          (delivered ++ items).filter (HasHandler cfg) by
    obtain ⟨hreplies, hdecoded⟩ := hall _ _ _ hplain h.replies h.decoded
    exact ⟨hreplies, hdecoded⟩
  intro items
  induction items with
  | nil =>
    intro s delivered _ hs hdecoded
    exact ⟨hs, by rw [List.append_nil]; exact hdecoded⟩
  | cons pac rest ih =>
    intro s delivered hitems hs hdecoded
    obtain ⟨hs', hdecoded'⟩ := ServeInv.handleMessage hs hdecoded
      (hitems pac List.mem_cons_self)
    have hrest := ih _ _ (fun other hother => hitems other (List.mem_cons_of_mem _ hother)) hs'
      hdecoded'
    rw [List.append_assoc, List.singleton_append] at hrest
    exact hrest

/-- Steps of other threads and sessions do not add to the requests of the session. -/
theorem ServeInv.server (h : ServeInv cfg l) (hrel : Reliable cfg) {a : ServerAction M}
    {s : Server M} (hok : Server.PlainFrom cfg.session a)
    (hdecoded : (s.decoded.filter fun job => decide (job.session = cfg.session)) =
      l.server.decoded.filter fun job => decide (job.session = cfg.session))
    (hstep : l.server.step cfg.server a = some s) (hserver : l'.server = s)
    (hdelivered : l'.delivered = l.delivered) : ServeInv cfg l' := by
  refine ⟨?_, ?_⟩
  · rw [hserver]
    exact h.replies.step hrel.replies hrel.parse hrel.zlib hok hstep
  · rw [hserver, hdecoded, hdelivered]
    exact h.decoded

theorem decoded_other {s t : Server M} {a : ServerAction M} (ha : a.isOther cfg.session = true)
    (hstep : s.step cfg.server a = some t) :
    (t.decoded.filter fun job => decide (job.session = cfg.session)) =
      s.decoded.filter fun job => decide (job.session = cfg.session) := by
  by_cases hmessage : ∃ session pac, a = .handleMessage session pac
  · obtain ⟨session, pac, rfl⟩ := hmessage
    obtain rfl := Option.some.inj hstep
    have hne : session ≠ cfg.session := of_decide_eq_true ha
    rcases Server.handleMessage_cases cfg.server s session pac with
      ⟨_, hsame⟩ | ⟨_, hnew, _⟩
    · rw [hsame]
    · rw [hnew, List.filter_append]
      simp [hne]
  · have hother : ∀ session pac, a ≠ .handleMessage session pac := fun session pac ha =>
      hmessage ⟨session, pac, ha⟩
    rw [(Server.step_cases hstep hother).1]

/-- The buffer is the frame of the package; if it replies to a request, the package is the answer
to it, and otherwise no request at all. -/
structure Announces (cfg : LinkConfig M) (out : Outbound M) (pac : Package M) : Prop where
  frame : ∃ f : WireFrame, out.buffer = f.bytes ∧ cfg.build.Delivers f pac
  reply : ∀ job, out.job = some job → cfg.answerTo job.pac = some pac
  other : out.job = none → pac.header.msgType ≠ MsgType.REQREP.code

/-- The buffers of the session with the packages they are frames of, and the packages of those
buffers started that the client has not been handed yet. -/
structure Announcing (cfg : LinkConfig M) (l : Link M) (announced : List (Outbound M × Package M))
    (transit : List (Package M)) : Prop where
  outbox : l.server.outbox cfg.session = announced.map Prod.fst
  announces : ∀ x ∈ announced, Announces cfg x.1 x.2
  published : (announced.filter fun x => x.1.job.isNone).map Prod.snd =
    l.published.map cfg.build.atPeer
  handed : l.client.handed ++ transit =
    (announced.map Prod.snd).take (l.server.sessions cfg.session).started.length
  carrying : cfg.build.Carrying cfg.clientMemory transit l.client.readBuffer l.down

def DownInv (cfg : LinkConfig M) (l : Link M) : Prop :=
  ∃ announced transit, Announcing cfg l announced transit

section Announcing

variable {announced : List (Outbound M × Package M)} {transit : List (Package M)}

theorem Announcing.downlink (h : Announcing cfg l announced transit) :
    Downlink cfg.build cfg.clientMemory (l.server.outbox cfg.session)
      (l.server.sessions cfg.session).started announced l.client.handed transit
      l.client.readBuffer l.down :=
  ⟨h.outbox, fun x hx => (h.announces x hx).frame, h.handed, h.carrying⟩

/-- The server gets on: buffers may be posted to the session, and some of them be started. -/
theorem Announcing.server (h : Announcing cfg l announced transit)
    (more : List (Outbound M × Package M)) (hmore : ∀ x ∈ more, Announces cfg x.1 x.2)
    (hout : l'.server.outbox cfg.session =
      l.server.outbox cfg.session ++ more.map Prod.fst)
    (hold : (l.server.sessions cfg.session).started <+: l.server.outbox cfg.session)
    (hnew : (l'.server.sessions cfg.session).started <+: l'.server.outbox cfg.session)
    (hstarted : (l.server.sessions cfg.session).started <+:
      (l'.server.sessions cfg.session).started)
    (hdown : l'.down = l.down ++ (((l'.server.sessions cfg.session).started.drop
      (l.server.sessions cfg.session).started.length).map Outbound.buffer).flatten)
    (hclient : l'.client = l.client)
    (hpublished : l'.published.map cfg.build.atPeer = l.published.map cfg.build.atPeer ++
      (more.filter fun x => x.1.job.isNone).map Prod.snd) :
    ∃ transit', Announcing cfg l' (announced ++ more) transit' := by
  obtain ⟨transit', hdownlink⟩ := h.downlink.server more (fun x hx => (hmore x hx).frame) hout
    hold hnew hstarted
  rw [← hclient, ← hdown] at hdownlink
  refine ⟨transit', hdownlink.outbox, ?_, ?_, hdownlink.handed, hdownlink.carrying⟩
  · intro x hx
    exact (List.mem_append.mp hx).elim (h.announces x) (hmore x)
  · rw [List.filter_append, List.map_append, h.published, hpublished]

/-- The client gets on: it may read some of the bytes that are under way to it. -/
theorem Announcing.client (h : Announcing cfg l announced transit) {a : ClientAction M}
    (hstep : l.clientStep cfg a = some l') :
    ∃ transit', Announcing cfg l' announced transit' := by
  obtain ⟨hchunk, hmap⟩ := Option.ite_none_right_eq_some.mp hstep
  obtain ⟨c, hc, rfl⟩ := Option.map_eq_some_iff.mp hmap
  obtain ⟨transit', hdownlink⟩ := h.downlink.client hchunk (.of_step hc)
  exact ⟨transit', hdownlink.outbox, h.announces, h.published, hdownlink.handed,
    hdownlink.carrying⟩

end Announcing

/-- Handing packages to handleMessage posts nothing to a session. -/
theorem handleMessages_frame (cfg : ServerConfig M) (session : ℕ) (items : List (Package M))
    (s : Server M) :
    (items.foldl (fun s pac => s.handleMessage cfg session pac) s).outbox = s.outbox ∧
      (items.foldl (fun s pac => s.handleMessage cfg session pac) s).sessions = s.sessions := by
  induction items generalizing s with
  | nil => exact ⟨rfl, rfl⟩
  | cons pac rest ih =>
    obtain ⟨hout, hsessions⟩ := ih (s.handleMessage cfg session pac)
    rw [List.foldl_cons, hout, hsessions]
    rcases Server.handleMessage_cases cfg s session pac with ⟨_, hsame⟩ | ⟨_, _, hout, hsame, _⟩
    · rw [hsame]
      exact ⟨rfl, rfl⟩
    · exact ⟨hout, hsame⟩

structure Inv (cfg : LinkConfig M) (l : Link M) : Prop where
  up : UpInv cfg l
  serve : ServeInv cfg l
  down : DownInv cfg l

theorem Inv.started_outbox (h : Inv cfg l) :
    (l.server.sessions cfg.session).started <+: l.server.outbox cfg.session :=
  h.serve.replies.order.started_outbox cfg.session

theorem Inv.client (h : Inv cfg l) (hrel : Reliable cfg) {a : ClientAction M}
    (hok : AsioClient.Orderly cfg.client l.client a) (hstep : l.clientStep cfg a = some l') :
    Inv cfg l' := by
  have hup := h.up.client hrel hok hstep
  obtain ⟨announced, transit, hdown⟩ := h.down
  obtain ⟨transit', hdown'⟩ := hdown.client hstep
  obtain ⟨_, hmap⟩ := Option.ite_none_right_eq_some.mp hstep
  obtain ⟨c, _, rfl⟩ := Option.map_eq_some_iff.mp hmap
  exact ⟨hup, ⟨h.serve.replies, h.serve.decoded⟩, announced, transit', hdown'⟩

theorem Inv.doRead (h : Inv cfg l) {chunk : Bytes} (hstep : l.doRead cfg chunk = some l') :
    Inv cfg l' := by
  have hup := h.up.doRead hstep
  have hserve := h.serve.doRead h.up hstep
  obtain ⟨announced, transit, hdown⟩ := h.down
  obtain ⟨_, hstep⟩ := Option.ite_none_right_eq_some.mp hstep
  obtain ⟨_, hstep⟩ := Option.ite_none_left_eq_some.mp hstep
  obtain rfl := Option.some.inj hstep
  obtain ⟨hout, hsessions⟩ := handleMessages_frame cfg.server cfg.session
    (cfg.build.doRead cfg.serverMemory l.readBuffer chunk).items l.server
  refine ⟨hup, hserve, _, hdown.server [] (by simp) ?_ h.started_outbox
    (hserve.replies.order.started_outbox cfg.session) ?_ ?_ rfl (by simp)⟩
  · rw [congrFun hout]
    simp
  · rw [congrFun hsessions]
  · rw [congrFun hsessions, List.drop_length]
    simp

/-- The package of a buffer that encode has written. -/
theorem announces_frame (hrel : Reliable cfg) {pac : Package M} {buffer : Bytes}
    (hpost : cfg.build.Postable cfg.serverCompressSize pac)
    (hbytes : cfg.server.bytesOf pac = some buffer) :
    ∃ f : WireFrame, buffer = f.bytes ∧ cfg.build.Delivers f (cfg.build.atPeer pac) := by
  obtain ⟨sent, out, f, henc, hout, hdel⟩ :=
    hpost.encode_eq hrel.parse hrel.zlib cfg.serverMemory
  have hout' : cfg.server.bytesOf pac = some out.readable := Build.bytesOf_of_frame henc
  exact ⟨f, (Option.some.inj (hbytes.symm.trans hout')).trans hout, hdel⟩

theorem Inv.server (h : Inv cfg l) (hrel : Reliable cfg) {a : ServerAction M}
    (hstep : l.serverStep cfg a = some l') : Inv cfg l' := by
  obtain ⟨hother, hmap⟩ := Option.ite_none_right_eq_some.mp hstep
  obtain ⟨s, hs, rfl⟩ := Option.map_eq_some_iff.mp hmap
  have hplain : Server.PlainFrom cfg.session a := by
    cases a with
    | handleMessage session pac => exact fun heq => absurd heq (of_decide_eq_true hother)
    | _ => trivial
  have hserve : ServeInv cfg (l.setServer cfg s) :=
    h.serve.server hrel hplain (decoded_other hother hs) hs rfl rfl
  refine ⟨h.up.frame rfl rfl rfl rfl rfl, hserve, ?_⟩
  obtain ⟨announced, transit, hdown⟩ := h.down
  have hnew := hserve.replies.order.started_outbox cfg.session
  have hstarted := Server.started_initial hs cfg.session
  rcases Server.outbox_step hs cfg.session with hout | ⟨buffer, rfl, _⟩ |
    ⟨out, job, hworking, hsession, ⟨hjob, rsp, hrsp, hbytes⟩, hout⟩
  · exact ⟨_, hdown.server [] (by simp) (hout.trans (List.append_nil _).symm) h.started_outbox
      hnew hstarted rfl rfl (by simp [setServer])⟩
  · simp [ServerAction.isOther] at hother
  · have hpost := Server.reply_postable hrel.replies
      (h.serve.replies.plain job (h.serve.replies.working job hworking) hsession) hrsp
    refine ⟨_, hdown.server [(out, cfg.build.atPeer rsp)] ?_ hout
      h.started_outbox hnew hstarted rfl rfl (by simp [setServer, hjob])⟩
    intro x hx
    rw [List.mem_singleton] at hx
    subst hx
    refine ⟨announces_frame hrel hpost hbytes, ?_, fun hnone => by simp [hjob] at hnone⟩
    intro other hother
    rw [hjob, Option.some.injEq] at hother
    rw [← hother, LinkConfig.answerTo, hrsp, Option.map_some]

/-- A package that is no request, posted to the session. -/
theorem Inv.postPackage (h : Inv cfg l) (hrel : Reliable cfg) {pac : Package M}
    (hpost : cfg.build.Postable cfg.serverCompressSize pac)
    (htype : pac.header.msgType ≠ MsgType.REQREP.code) (hstep : l.postPackage cfg pac = some l') :
    Inv cfg l' := by
  unfold Link.postPackage at hstep
  split at hstep
  · next sent out henc =>
    obtain rfl := Option.some.inj hstep
    let next : Server M :=
      { l.server with posts := l.server.posts ++ [(cfg.session, ⟨none, out.readable⟩)] }
    have hs : l.server.step cfg.server (.post cfg.session out.readable) = some next := rfl
    have hreplies : Server.ReplyInv cfg.server cfg.session next :=
      h.serve.replies.step (a := .post _ _) hrel.replies hrel.parse hrel.zlib trivial hs
    refine ⟨h.up.frame rfl rfl rfl rfl rfl, ⟨hreplies, h.serve.decoded⟩, ?_⟩
    obtain ⟨announced, transit, hdown⟩ := h.down
    have hbytes : cfg.server.bytesOf pac = some out.readable :=
      Build.bytesOf_of_frame henc
    refine ⟨_, hdown.server [(⟨none, out.readable⟩, cfg.build.atPeer pac)] ?_ ?_
      h.started_outbox (hreplies.order.started_outbox cfg.session) List.prefix_rfl ?_ rfl ?_⟩
    · intro x hx
      rw [List.mem_singleton] at hx
      subst hx
      refine ⟨announces_frame hrel hpost hbytes, by simp, fun _ => ?_⟩
      rw [(cfg.build.atPeer_header pac).1]
      exact htype
    · rw [Server.outbox_post, if_pos rfl]
      rfl
    · rw [List.drop_length]
      simp
    · simp
  · obtain rfl := Option.some.inj hstep
    exact h
  · simp at hstep

theorem Inv.step (h : Inv cfg l) (hrel : Reliable cfg) {a : LinkAction M}
    (hok : Orderly cfg l a) (hstep : l.step cfg a = some l') : Inv cfg l' := by
  cases a with
  | client a => exact h.client hrel hok hstep
  | server a => exact h.server hrel hstep
  | doRead chunk => exact h.doRead hstep
  | publishMessage msg =>
    have hnext : Inv cfg { l with id := l.id + 1 } :=
      ⟨h.up.frame rfl rfl rfl rfl rfl, ⟨h.serve.replies, h.serve.decoded⟩, by
        obtain ⟨announced, transit, hdown⟩ := h.down
        exact ⟨announced, transit, hdown.outbox, hdown.announces, hdown.published, hdown.handed,
          hdown.carrying⟩⟩
    refine hnext.postPackage hrel ?_ ?_ hstep
    · exact Build.Fits.postable hok ⟨rfl, by simp [PacHeader.iszip]⟩
    · exact show MsgType.PUBSUB.code ≠ MsgType.REQREP.code by decide
  | deliverPackage pac => exact h.postPackage hrel hok.1 hok.2 hstep

theorem inv_reachable (hrel : Reliable cfg)
    (h : (machine cfg).ReachableWhen (Orderly cfg) l) : Inv cfg l := by
  refine Machine.ReachableWhen.invariant (I := Inv cfg) ?_
    (fun _ _ _ hl hok hstep => hl.step hrel hok hstep) h
  refine ⟨?_, ⟨Server.replyInv_init cfg.server cfg.session, rfl⟩, [], [], ?_⟩
  · exact uplink_init ..
  · exact ⟨rfl, fun _ hx => (nomatch hx), rfl, rfl, Build.carrying_empty ..⟩

theorem reliable_ping : Reliable pingLink where
  parse := PingPong.parseUndoesSerialize
  zlib := PingPong.uncompressUndoesCompress
  replies name task pac h := by
    obtain ⟨_, htask⟩ := Option.ite_none_right_eq_some.mp h
    obtain rfl := Option.some.inj htask
    exact show (PingPong.build false).Fits (-1) PingPong.blank by decide

end Link

end AsioMsg
