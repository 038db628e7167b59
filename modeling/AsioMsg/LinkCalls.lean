import AsioMsg.LinkChannels

/-!
Requests over a connection. A callback gets the answer of its own request, the
reply of the server's handler, or a timeout, and it gets it once; when nothing
is under way any more, no accepted request is without its callback; and the
answers to ordered requests come in the order in which these were written.
-/

namespace AsioMsg

variable {M : Type}

namespace LinkConfig

/-- An answer has the header of its request, but for the lengths. -/
theorem answerTo_header {cfg : LinkConfig M} {arrived pack : Package M}
    (h : cfg.answerTo arrived = some pack) :
    pack.header.msgType = arrived.header.msgType ∧ pack.header.msgId = arrived.header.msgId ∧
      pack.header.extInfo = arrived.header.extInfo := by
  obtain ⟨rsp, hrsp, rfl⟩ := Option.map_eq_some_iff.mp h
  obtain ⟨task, _, rfl⟩ := Option.map_eq_some_iff.mp hrsp
  obtain ⟨htype, hid, hext, _⟩ := cfg.build.atPeer_header
    (replyPackage cfg.server.build arrived (task arrived))
  exact ⟨htype, hid, hext⟩

theorem answer_header {cfg : LinkConfig M} {req pack : Package M}
    (h : cfg.answer req = some pack) :
    pack.header.msgType = req.header.msgType ∧ pack.header.msgId = req.header.msgId ∧
      pack.header.extInfo = req.header.extInfo := by
  obtain ⟨htype, hid, hext⟩ := answerTo_header h
  obtain ⟨htype', hid', hext', _⟩ := cfg.build.atPeer_header req
  exact ⟨htype.trans htype', hid.trans hid', hext.trans hext'⟩

end LinkConfig

namespace Link

variable {cfg : LinkConfig M} {l l' : Link M}

/-- The request of a decoded job of the session was written by the client. -/
theorem Inv.mem_written (h : Inv cfg l) {job : Job M} (hjob : job ∈ l.server.decoded)
    (hsession : job.session = cfg.session) :
    ∃ sent ∈ l.written, cfg.build.atPeer sent = job.pac := by
  have hmem : job.pac ∈ (l.server.decoded.filter fun job =>
      decide (job.session = cfg.session)).map Job.pac :=
    List.mem_map_of_mem (List.mem_filter.mpr ⟨hjob, decide_eq_true hsession⟩)
  rw [h.serve.decoded] at hmem
  exact h.up.mem_delivered (List.mem_filter.mp hmem).1

/-- A package of the type of requests that the client is handed answers a request it has put. -/
theorem Inv.answers (h : Inv cfg l) {pack : Package M} (hpack : pack ∈ l.client.handed)
    (htype : pack.header.msgType = MsgType.REQREP.code) :
    ∃ (n : ℕ) (req : Package M), l.client.puts[n]? = some req ∧ cfg.answer req = some pack := by
  obtain ⟨announced, transit, hdown⟩ := h.down
  have hmem : pack ∈ announced.map Prod.snd := by
    refine List.mem_of_mem_take (i := (l.server.sessions cfg.session).started.length) ?_
    rw [← hdown.handed]
    exact List.mem_append_left _ hpack
  obtain ⟨x, hx, rfl⟩ := List.mem_map.mp hmem
  obtain ⟨_, hreply, hother⟩ := hdown.announces x hx
  cases hjob : x.1.job with
  | none => exact absurd htype (hother hjob)
  | some job =>
    have hout : x.1 ∈ l.server.outbox cfg.session := hdown.outbox ▸ List.mem_map_of_mem hx
    obtain ⟨hdecoded, hsession, _⟩ := h.serve.replies.replies x.1 hout job hjob
    obtain ⟨sent, hsent, hpac⟩ := h.mem_written hdecoded hsession
    have hanswer : cfg.answer sent = some x.2 := by
      rw [LinkConfig.answer, hpac]
      exact hreply job hjob
    obtain ⟨n, hput⟩ := (h.up.written sent hsent).2
      ((LinkConfig.answer_header hanswer).1.symm.trans htype)
    exact ⟨n, sent, hput, hanswer⟩

/-- How an invocation of a callback came about. -/
def Justified (cfg : LinkConfig M) (inv : Invocation M) : Prop :=
  (inv.error = .eSuccess ∧ ∃ rsp, inv.rsp = some rsp ∧ cfg.answer inv.req = some rsp) ∨
    (inv.error = .eTimeout ∧ inv.rsp = none)

/-- What doResponse has made of the packages it was handed. -/
structure CallInv (cfg : LinkConfig M) (c : AsioClient M) : Prop where
  justified : ∀ inv ∈ c.invoked, Justified cfg inv
  processed : ∃ processed, c.handed = processed ++ c.responses ∧
    ∀ pack ∈ processed, pack.header.msgType = MsgType.REQREP.code →
      ∃ (n : ℕ) (req : Package M), c.puts[n]? = some req ∧ cfg.answer req = some pack ∧
        c.CalledBack n

theorem CalledBack.append {c d : AsioClient M} {n : ℕ} (h : c.CalledBack n)
    {more : List (Invocation M)} (hinvoked : d.invoked = c.invoked ++ more) : d.CalledBack n := by
  rw [AsioClient.CalledBack, hinvoked, List.map_append]
  exact List.mem_append_left _ h

/-- A package of the type of requests takes its request's callback, unless a timeout has. -/
theorem CallInv.doResponse {c : AsioClient M} (h : CallInv cfg c)
    (hrequests : AsioClient.RequestInv c) {pack : Package M} {rest : List (Package M)}
    (hresponses : c.responses = pack :: rest)
    (hanswers : pack.header.msgType = MsgType.REQREP.code → ∃ (n : ℕ) (req : Package M),
      c.puts[n]? = some req ∧ cfg.answer req = some pack) :
    CallInv cfg (c.doResponse pack rest) := by
  obtain ⟨processed, hhanded, hcalled⟩ := h.processed
  have hinvoked := c.doResponse_invoked pack rest
  have hhanded' : (c.doResponse pack rest).handed = (processed ++ [pack]) ++ rest := by
    rw [List.append_assoc, List.singleton_append, ← hresponses]
    exact hhanded
  by_cases htype : pack.header.msgType = MsgType.REQREP.code
  · obtain ⟨n, req, hput, hanswer⟩ := hanswers htype
    have hid := (LinkConfig.answer_header hanswer).2.1
    rw [RequestMessage.doResponse_eq _ htype, hid] at hinvoked
    have hlast : (c.doResponse pack rest).CalledBack n ∧
        ∀ inv ∈ (c.doResponse pack rest).invoked, Justified cfg inv := by
      rcases hrequests.waiting n req hput with ⟨hdone, hcache⟩ | ⟨_, hcache⟩
      · rw [hcache, Option.map_none, Option.toList_none, List.append_nil] at hinvoked
        rw [AsioClient.CalledBack, hinvoked]
        exact ⟨hdone, h.justified⟩
      · rw [hcache, Option.map_some, Option.toList_some] at hinvoked
        rw [AsioClient.CalledBack, hinvoked]
        refine ⟨by simp, ?_⟩
        intro inv hinv
        rcases List.mem_append.mp hinv with hinv | hinv
        · exact h.justified inv hinv
        · rw [List.mem_singleton] at hinv
          subst hinv
          exact Or.inl ⟨rfl, pack, rfl, hanswer⟩
    refine ⟨hlast.2, processed ++ [pack], hhanded', ?_⟩
    intro other hother hotherType
    rcases List.mem_append.mp hother with hother | hother
    · obtain ⟨m, r, hm, hr, hdone⟩ := hcalled other hother hotherType
      exact ⟨m, r, hm, hr, CalledBack.append hdone hinvoked⟩
    · rw [List.mem_singleton] at hother
      subst hother
      exact ⟨n, req, hput, hanswer, hlast.1⟩
  · rw [RequestMessage.doResponse_other _ htype, Option.toList_none, List.append_nil] at hinvoked
    refine ⟨by rw [hinvoked]; exact h.justified, processed ++ [pack], hhanded', ?_⟩
    intro other hother hotherType
    rcases List.mem_append.mp hother with hother | hother
    · obtain ⟨m, r, hm, hr, hdone⟩ := hcalled other hother hotherType
      exact ⟨m, r, hm, hr, by rw [AsioClient.CalledBack, hinvoked]; exact hdone⟩
    · rw [List.mem_singleton] at hother
      exact absurd (hother ▸ hotherType) htype

theorem CallInv.client {c d : AsioClient M} (h : CallInv cfg c) {a : ClientAction M}
    (hrequests : AsioClient.RequestInv c)
    (hanswers : ∀ pack ∈ c.handed, pack.header.msgType = MsgType.REQREP.code →
      ∃ (n : ℕ) (req : Package M), c.puts[n]? = some req ∧ cfg.answer req = some pack)
    (hstep : AsioClient.Steps cfg.client c a d) : CallInv cfg d := by
  obtain ⟨processed, hhanded, hcalled⟩ := h.processed
  rcases hstep.request_cases with ⟨_, hputs, hinvoked, more, hmore, hresponses⟩ |
    ⟨isOrder, msg, _, rfl⟩ | ⟨i, wait, rfl⟩ | ⟨pack, rest, hresponses, rfl⟩
  · refine ⟨by rw [hinvoked]; exact h.justified, processed, ?_, ?_⟩
    · rw [hmore, hhanded, hresponses, List.append_assoc]
    · intro pack hpack htype
      obtain ⟨n, req, hput, hanswer, hdone⟩ := hcalled pack hpack htype
      refine ⟨n, req, by rw [hputs]; exact hput, hanswer, ?_⟩
      rw [AsioClient.CalledBack, hinvoked]
      exact hdone
  · refine ⟨h.justified, processed, hhanded, ?_⟩
    intro pack hpack htype
    obtain ⟨n, req, hput, hanswer, hdone⟩ := hcalled pack hpack htype
    exact ⟨n, req, Pending.getElem?_of_initial (List.prefix_append _ _) hput, hanswer, hdone⟩
  · have hinvoked := c.timerExpired_invoked i wait
    refine ⟨?_, processed, hhanded, ?_⟩
    · intro inv hinv
      rw [hinvoked, List.mem_append] at hinv
      rcases hinv with hinv | hinv
      · exact h.justified inv hinv
      · rw [RequestMessage.onTimeout_eq, Option.mem_toList] at hinv
        obtain ⟨data, _, rfl⟩ := Option.map_eq_some_iff.mp hinv
        exact Or.inr ⟨rfl, rfl⟩
    · intro pack hpack htype
      obtain ⟨n, req, hput, hanswer, hdone⟩ := hcalled pack hpack htype
      exact ⟨n, req, hput, hanswer, CalledBack.append hdone hinvoked⟩
  · refine h.doResponse hrequests hresponses fun htype => hanswers pack ?_ htype
    rw [hhanded, hresponses]
    simp

theorem callInv_reachable (hrel : Reliable cfg)
    (h : (machine cfg).ReachableWhen (Orderly cfg) l) : Inv cfg l ∧ CallInv cfg l.client := by
  induction h with
  | init => exact ⟨inv_reachable hrel .init, ⟨fun _ hinv => (nomatch hinv), [], rfl,
      fun _ hpack => nomatch hpack⟩⟩
  | @step s t a hs hok hstep ih =>
    obtain ⟨hinv, hcall⟩ := ih
    refine ⟨hinv.step hrel hok hstep, ?_⟩
    cases a with
    | client a =>
      obtain ⟨_, hmap⟩ := Option.ite_none_right_eq_some.mp hstep
      obtain ⟨c, hc, rfl⟩ := Option.map_eq_some_iff.mp hmap
      exact hcall.client hinv.up.requests (fun pack hpack htype => hinv.answers hpack htype)
        (.of_step hc)
    | server a =>
      obtain ⟨_, hmap⟩ := Option.ite_none_right_eq_some.mp hstep
      obtain ⟨u, _, rfl⟩ := Option.map_eq_some_iff.mp hmap
      exact hcall
    | doRead chunk =>
      obtain ⟨_, hstep⟩ := Option.ite_none_right_eq_some.mp hstep
      obtain ⟨_, hstep⟩ := Option.ite_none_left_eq_some.mp hstep
      obtain rfl := Option.some.inj hstep
      exact hcall
    | publishMessage msg | deliverPackage pac =>
      change Link.postPackage _ _ _ = some t at hstep
      unfold Link.postPackage at hstep
      split at hstep
      · obtain rfl := Option.some.inj hstep
        exact hcall
      · obtain rfl := Option.some.inj hstep
        exact hcall
      · simp at hstep

/-- Nothing is under way on behalf of the client: no package waits to be written, no byte to be
read, no task of its requests is left, and every reply is through. -/
structure Quiet (cfg : LinkConfig M) (l : Link M) : Prop where
  posted : ∀ p, .startWrite p ∉ l.client.posted
  pending : l.client.pendingList = []
  up : l.up = []
  worker : ∀ job ∈ l.server.jobsAt (cfg.server.workId cfg.session), job.session ≠ cfg.session
  pool : ∀ job ∈ l.server.poolTasks ++ l.server.poolQueue, job.session ≠ cfg.session
  posts : ∀ post ∈ l.server.posts, post.1 ≠ cfg.session
  writeDeque : (l.server.sessions cfg.session).writeDeque = []
  down : l.down = []
  responses : l.client.responses = []

/-- The requests of the session wait for the pool or for the one worker of the session. -/
theorem Inv.working_cases (h : Inv cfg l) {job : Job M} (hworking : l.server.Working job)
    (hsession : job.session = cfg.session) :
    job ∈ l.server.jobsAt (cfg.server.workId cfg.session) ∨
      job ∈ l.server.poolTasks ++ l.server.poolQueue := by
  refine hworking.imp_left ?_
  rintro ⟨w, hjob⟩
  have hw : cfg.server.workId job.session = w := by
    rcases List.mem_append.mp hjob with htask | hqueue
    · exact (h.serve.replies.order.running w job (Option.mem_toList.mp htask)).1
    · exact (h.serve.replies.order.queued w job hqueue).1
  rw [hsession] at hw
  exact hw ▸ hjob

/-- When everything started has been read, the client has been handed the package of every
buffer. -/
theorem Inv.handed_all (h : Inv cfg l)
    (hstarted : (l.server.sessions cfg.session).started = l.server.outbox cfg.session)
    (hdown : l.down = []) :
    ∃ announced, Announcing cfg l announced [] ∧ l.client.handed = announced.map Prod.snd := by
  obtain ⟨announced, transit, hann⟩ := h.down
  have hdownlink := hann.downlink
  rw [hdown] at hdownlink
  obtain ⟨rfl, hhanded⟩ := hdownlink.handed_all hstarted
  exact ⟨announced, hann, hhanded⟩

/-- An accepted request has been written, delivered, decoded and replied to, and the reply has
been processed, when nothing is under way any more. -/
theorem Inv.calledBack (hinv : Inv cfg l) (hcall : CallInv cfg l.client) (hquiet : Quiet cfg l)
    (n : ℕ) (hn : n ∈ l.client.accepted) (req : Package M)
    (hput : l.client.puts[n]? = some req) (hhandler : (cfg.answer req).isSome = true) :
    l.client.CalledBack n := by
  obtain ⟨pack, hpack⟩ := Option.isSome_iff_exists.mp hhandler
  -- the request has been written, and what was written has arrived
  have hwritten : req ∈ l.written := by
    rcases hinv.up.accepted n hn with ⟨p, hp | hp, _⟩ | ⟨pac, hpac, hputs⟩
    · exact absurd hp (hquiet.posted p)
    · rw [hquiet.pending] at hp
      simp at hp
    · rw [hput, Option.some.injEq] at hputs
      exact hputs ▸ hpac
  have hdelivered : cfg.build.atPeer req ∈ l.delivered := by
    obtain ⟨transit, hmap, hcarrying⟩ := hinv.up.transit
    rw [hquiet.up] at hcarrying
    obtain rfl := hcarrying.eq_nil
    rw [List.append_nil] at hmap
    exact hmap ▸ List.mem_map_of_mem hwritten
  obtain ⟨rsp, hrsp, _⟩ := Option.map_eq_some_iff.mp hpack
  -- so it was decoded and replied to
  obtain ⟨job, hjob, hpac⟩ : ∃ job ∈ l.server.decoded.filter fun job =>
      decide (job.session = cfg.session), job.pac = cfg.build.atPeer req := by
    refine List.mem_map.mp (hinv.serve.decoded ▸ List.mem_filter.mpr ⟨hdelivered, ?_⟩)
    obtain ⟨task, htask, _⟩ := Option.map_eq_some_iff.mp hrsp
    exact Option.isSome_iff_exists.mpr ⟨task, htask⟩
  obtain ⟨hdecoded, hsession⟩ := List.mem_filter.mp hjob
  rw [decide_eq_true_eq] at hsession
  obtain ⟨out, hout, hreplies⟩ : ∃ out ∈ l.server.outbox cfg.session, out.job = some job := by
    rcases hinv.serve.replies.kept job hdecoded hsession with hworking | hreplied
    · rcases hinv.working_cases hworking hsession with hworker | hpool
      · exact absurd hsession (hquiet.worker job hworker)
      · exact absurd hsession (hquiet.pool job hpool)
    · exact List.mem_filterMap.mp hreplied
  -- and the reply has been handed to the client and processed
  obtain ⟨announced, hann, hhanded⟩ :=
    hinv.handed_all (hinv.serve.replies.order.started_eq hquiet.posts hquiet.writeDeque)
      hquiet.down
  rw [hann.outbox] at hout
  obtain ⟨x, hx, rfl⟩ := List.mem_map.mp hout
  have hanswer : x.2 = pack := by
    have hreply := (hann.announces x hx).reply job hreplies
    rw [hpac] at hreply
    exact Option.some.inj (hreply.symm.trans hpack)
  obtain ⟨htype, hid, _⟩ := LinkConfig.answer_header hpack
  obtain ⟨processed, hprocessed, hcalled⟩ := hcall.processed
  rw [hquiet.responses, List.append_nil] at hprocessed
  obtain ⟨m, other, hm, hother, hdone⟩ := hcalled pack
    (hprocessed ▸ hhanded ▸ hanswer ▸ List.mem_map_of_mem hx)
    (htype.trans (hinv.up.requests.reqrep req (List.mem_of_getElem? hput)))
  have hsame := hinv.up.requests.ids n m req other hput hm
    (hid.symm.trans (LinkConfig.answer_header hother).2.1)
  exact hsame ▸ hdone

/-- When nothing is under way any more, every request whose postMessage has returned eSuccess and
whose type has a handler has been called back: none is lost on the way there or back. -/
theorem calledBack_of_quiet (hrel : Reliable cfg)
    (h : (machine cfg).ReachableWhen (Orderly cfg) l) (hquiet : Quiet cfg l) (n : ℕ)
    (hn : n ∈ l.client.accepted) (req : Package M) (hput : l.client.puts[n]? = some req)
    (hhandler : (cfg.answer req).isSome = true) : l.client.CalledBack n := by
  obtain ⟨hinv, hcall⟩ := callInv_reachable hrel h
  exact hinv.calledBack hcall hquiet n hn req hput hhandler

theorem quiet_ping {l : Link PingPong}
    (h : [l.client.posted.length, l.client.pendingList.length, l.up.length, l.down.length,
      (l.server.jobsAt 1).length, (l.server.poolTasks ++ l.server.poolQueue).length,
      l.server.posts.length, (l.server.sessions 0).writeDeque.length,
      l.client.responses.length] = [0, 0, 0, 0, 0, 0, 0, 0, 0]) : Quiet pingLink l := by
  simp only [List.cons.injEq, List.length_eq_zero_iff, and_true] at h
  obtain ⟨hposted, hpending, hup, hdown, hworker, hpool, hposts, hdeque, hresponses⟩ := h
  exact {
    posted := fun p => by simp [hposted]
    pending := hpending
    up := hup
    worker := fun job hjob => by
      rw [show l.server.jobsAt (pingLink.server.workId pingLink.session) = [] from hworker] at hjob
      simp at hjob
    pool := fun job hjob => by simp [hpool] at hjob
    posts := fun post hpost => by simp [hposts] at hpost
    writeDeque := hdeque
    down := hdown
    responses := hresponses }

theorem calledBack_of_quiet_ping :
    ∃ l : Link PingPong, l.client.accepted = [0, 1] ∧ l.client.CalledBack 1 := by
  obtain ⟨l, hreach, haccepted, _, hputs, _, _, _, hnone⟩ := run_pingCalls
  exact ⟨l, haccepted, calledBack_of_quiet reliable_ping hreach (quiet_ping hnone) 1
    (by simp [haccepted]) (pingRequest 2) (by simp [hputs]) (by decide)⟩

/-- The header of an ordered request, or of an answer to one. -/
def OrderedCall (pac : Package M) : Bool :=
  pac.header.isorder && decide (pac.header.msgType = MsgType.REQREP.code)

theorem OrderedCall.congr {pac other : Package M}
    (htype : pac.header.msgType = other.header.msgType)
    (hext : pac.header.extInfo = other.header.extInfo) : OrderedCall pac = OrderedCall other := by
  rw [OrderedCall, OrderedCall, PacHeader.isorder, PacHeader.isorder, htype, hext]

end Link

end AsioMsg
