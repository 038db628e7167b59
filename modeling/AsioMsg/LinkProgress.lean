import AsioMsg.Lib.Progress
import AsioMsg.LinkPublish
import AsioMsg.LinkSteady

/-!
What the threads of the two sides bring about once no more calls are made. As
long as nothing has failed every step moves a package, a byte or a request
one stage on, and none of them waits for a step that cannot be taken; so
whatever the order of the steps, every accepted request is called back.
-/

namespace AsioMsg

variable {M : Type}

namespace Link

variable {cfg : LinkConfig M} {l l' : Link M}

/-- What the threads of both sides do by themselves for the connection: no new call is made,
nothing fails, and a read brings something. -/
def Internal (cfg : LinkConfig M) : LinkAction M → Prop
  | .client (.postCall _) | .client (.runPosted _) | .client .doResponse
  | .client (.timerAborted _) | .client (.timerExpired _) => True
  | .client (.writeDone _ success) => success = true
  | .client (.doRead chunk) | .doRead chunk => chunk ≠ []
  | .server (.workerStart w) | .server (.workerReply w) => w = cfg.server.workId cfg.session
  | .server .poolStart | .server (.poolReply _) | .server .runPost => True
  | .server (.doWrite session _ success) => session = cfg.session ∧ success = true
  | _ => False

theorem Internal.steady {a : LinkAction M} (h : Internal cfg a) : Steady cfg l a := by
  cases a with
  | client a =>
    cases a with
    | postMessage | publishMessage | postPackage | stop | readError | doConnect => exact h.elim
    | writeDone i success => exact ⟨trivial, h⟩
    | postCall | runPosted | doRead | timerAborted | timerExpired | doResponse =>
      exact ⟨trivial, rfl⟩
  | server a =>
    cases a with
    | handleMessage | post => exact h.elim
    | doWrite session i success => exact ⟨trivial, by simp [unbroken, h.2]⟩
    | workerStart | workerReply | poolStart | poolReply | runPost => exact ⟨trivial, rfl⟩
  | doRead chunk => exact ⟨trivial, rfl⟩
  | publishMessage msg | deliverPackage pac => exact h.elim

/-- Where a request can be, from the call that makes it to its callback, and the timers. -/
def stages (cfg : LinkConfig M) : List (Link M → ℕ) :=
  let w := cfg.server.workId cfg.session
  [fun l => l.client.calls.length,
    fun l => l.client.posted.length,
    fun l => l.client.pendingList.length,
    fun l => l.up.length,
    fun l => (l.server.workerQueues w).length + l.server.poolQueue.length,
    fun l => (l.server.workerTasks w).toList.length + l.server.poolTasks.length,
    fun l => l.server.posts.length,
    fun l => (l.server.sessions cfg.session).writeDeque.length,
    fun l => l.down.length,
    fun l => l.client.responses.length,
    fun l => l.client.timers.length]

theorem length_drop_lt {chunk wire : Bytes} (hne : chunk ≠ []) (hchunk : chunk <+: wire) :
    (wire.drop chunk.length).length < wire.length := by
  have hpos := List.length_pos_iff.mpr hne
  have hle := hchunk.length_le
  rw [List.length_drop]
  omega

theorem length_eraseIdx_lt {α : Type} {xs : List α} {i : ℕ} {x : α} (h : xs[i]? = some x) :
    (xs.eraseIdx i).length < xs.length := by
  obtain ⟨hi, _⟩ := List.getElem?_eq_some_iff.mp h
  rw [List.length_eraseIdx_of_lt hi]
  omega

theorem Sound.drains_client (h : Sound cfg l) {a : ClientAction M} (ha : Internal cfg (.client a))
    (hstep : l.clientStep cfg a = some l') : Machine.Drains (stages cfg) l l' := by
  obtain ⟨hchunk, hmap⟩ := Option.ite_none_right_eq_some.mp hstep
  obtain ⟨c, hc, rfl⟩ := Option.map_eq_some_iff.mp hmap
  cases AsioClient.Steps.of_step hc with
  | postMessage | publishMessage | postPackage | stop | readError | doConnect => exact ha.elim
  | @postCall i call hget =>
    refine Machine.drains_of_stage 0 rfl ?_ (by simp)
    rcases AsioClient.postCall_eq l.client i call with heq | heq <;> rw [heq] <;>
      exact length_eraseIdx_lt hget
  | startWrite hget hrun =>
    obtain rfl := AsioClient.startWrite_eq hrun
    exact Machine.drains_of_stage 1 rfl (length_eraseIdx_lt hget) (by simp [stages])
  | doClose hget => exact absurd (List.mem_of_getElem? hget) h.client.posted
  | doRead _ hread =>
    obtain ⟨_, hd⟩ := Option.ite_none_left_eq_some.mp hread
    obtain rfl := Option.some.inj hd
    exact Machine.drains_of_stage 8 rfl (length_drop_lt ha hchunk)
      (by simp [stages, AsioClient.startRead, AsioClient.nextWrite])
  | writeDone hget hdone =>
    rcases AsioClient.writeDone_eq hdone with ⟨hfailed, _⟩ | ⟨_, rfl⟩
    · exact absurd (ha.symm.trans hfailed) (by simp)
    · obtain ⟨hne, _⟩ := h.client.queue.eraseIdx_writes hget
      have hpos := List.length_pos_iff.mpr hne
      refine Machine.drains_of_stage 2 rfl ?_ (by simp [stages, AsioClient.startTimer])
      rw [List.length_tail]
      omega
  | timerAborted hget _ | timerExpired hget =>
    exact Machine.drains_of_stage 10 rfl (length_eraseIdx_lt hget)
      (by simp [stages, ClientAction.chunk, AsioClient.nextWrite, AsioClient.timerExpired])
  | doResponse hresponses =>
    refine Machine.drains_of_stage 9 rfl ?_
      (by simp [stages, ClientAction.chunk, AsioClient.nextWrite, AsioClient.doResponse])
    simp [AsioClient.doResponse, hresponses]

theorem Sound.drains_server (h : Sound cfg l) {a : ServerAction M}
    (ha : Internal cfg (.server a)) (hstep : l.serverStep cfg a = some l') :
    Machine.Drains (stages cfg) l l' := by
  obtain ⟨_, hmap⟩ := Option.ite_none_right_eq_some.mp hstep
  obtain ⟨s, hs, rfl⟩ := Option.map_eq_some_iff.mp hmap
  cases a with
  | handleMessage | post => exact ha.elim
  | workerStart w =>
    obtain rfl : w = cfg.server.workId cfg.session := ha
    change l.server.workerStart _ = some s at hs
    unfold Server.workerStart at hs
    split at hs
    · next job rest htask hqueue =>
      obtain rfl := Option.some.inj hs
      exact Machine.drains_of_stage 4 rfl (by simp [setServer, hqueue])
        (by simp [stages, setServer])
    · simp at hs
  | workerReply w =>
    obtain rfl : w = cfg.server.workId cfg.session := ha
    obtain ⟨job, htask, hsend⟩ := Option.bind_eq_some_iff.mp hs
    rcases Server.replyMessage_eq hsend with rfl | ⟨buffer, rfl⟩ <;>
      exact Machine.drains_of_stage 5 rfl (by simp [setServer, htask])
        (by simp [stages, setServer])
  | poolStart =>
    change l.server.poolStart = some s at hs
    unfold Server.poolStart at hs
    split at hs
    · simp at hs
    · next job rest hqueue =>
      obtain rfl := Option.some.inj hs
      exact Machine.drains_of_stage 4 rfl (by simp [setServer, hqueue])
        (by simp [stages, setServer])
  | poolReply i =>
    obtain ⟨job, hget, hsend⟩ := Option.bind_eq_some_iff.mp hs
    have hless := length_eraseIdx_lt hget
    rcases Server.replyMessage_eq hsend with rfl | ⟨buffer, rfl⟩ <;>
      exact Machine.drains_of_stage 5 rfl (by simpa [setServer] using hless)
        (by simp [stages, setServer])
  | runPost =>
    change l.server.runPost = some s at hs
    unfold Server.runPost at hs
    split at hs
    · simp at hs
    · next session out rest hposts =>
      obtain rfl := Option.some.inj hs
      exact Machine.drains_of_stage 6 rfl (by simp [setServer, hposts])
        (by simp [stages, setServer])
  | doWrite session i success =>
    obtain ⟨rfl, rfl⟩ := ha
    obtain ⟨buf, hget, rfl⟩ := Option.map_eq_some_iff.mp hs
    obtain ⟨herase, rest, hdeque⟩ := h.session.of_write hget
    refine Machine.drains_of_stage 7 rfl ?_ (by simp [stages, setServer])
    simp [setServer, (h.session.doWrite_success herase hdeque).1, hdeque]

/-- Every internal step gets something on. -/
theorem Sound.drains (h : Sound cfg l) {a : LinkAction M} (ha : Internal cfg a)
    (hstep : l.step cfg a = some l') : Machine.Drains (stages cfg) l l' := by
  cases a with
  | client a => exact h.drains_client ha hstep
  | server a => exact h.drains_server ha hstep
  | doRead chunk =>
    obtain ⟨hchunk, hstep⟩ := Option.ite_none_right_eq_some.mp hstep
    obtain ⟨_, hstep⟩ := Option.ite_none_left_eq_some.mp hstep
    obtain rfl := Option.some.inj hstep
    exact Machine.drains_of_stage 3 rfl (length_drop_lt ha hchunk) (by simp [stages])
  | publishMessage msg | deliverPackage pac => exact ha.elim

/-- There is a step that the threads can take by themselves. -/
def Going (cfg : LinkConfig M) (l : Link M) : Prop :=
  ∃ a, Internal cfg a ∧ (l.step cfg a).isSome = true

/-- A step of a thread of the client. -/
theorem Sound.going_client (h : Sound cfg l) {a : ClientAction M}
    (ha : Internal cfg (.client a)) (hchunk : a.chunk <+: l.down)
    (hthread : l.client.step cfg.client a =
      if l.client.stopped then none else l.client.ioStep cfg.client a)
    (hstep : (l.client.ioStep cfg.client a).isSome = true) : Going cfg l := by
  refine ⟨.client a, ha, ?_⟩
  change (l.clientStep cfg a).isSome = true
  rw [clientStep, if_pos hchunk, hthread, h.client.stopped, Option.isSome_map]
  exact hstep

theorem going_server {a : ServerAction M} (ha : Internal cfg (.server a))
    (hother : a.isOther cfg.session = true)
    (hstep : (l.server.step cfg.server a).isSome = true) : Going cfg l := by
  refine ⟨.server a, ha, ?_⟩
  change (l.serverStep cfg a).isSome = true
  rw [serverStep, if_pos hother, Option.isSome_map]
  exact hstep

/-- A posted package is taken into the list, and written if it is the only one. -/
theorem Sound.going_posted (h : Sound cfg l) (hrel : Reliable cfg) (hinv : Inv cfg l)
    {p : PackagePtr M} (hp : .startWrite p ∈ l.client.posted) : Going cfg l := by
  obtain ⟨i, hi⟩ := List.getElem?_of_mem hp
  refine h.going_client (a := .runPosted i) trivial List.nil_prefix rfl ?_
  simp only [AsioClient.ioStep, hi, Option.bind_some, AsioClient.runPosted, AsioClient.startWrite]
  split
  · rfl
  · next hempty =>
    refine AsioClient.startWriteFront_isSome (by simp) fun q hq => ?_
    have hlist : l.client.pendingList = [] := by simpa using hempty
    obtain rfl : p = q := by simpa [hlist] using hq
    exact hinv.encodes hrel (Or.inl hp)

/-- The package in front is being written; when it is through, the next one is. -/
theorem Sound.going_pending (h : Sound cfg l) (hrel : Reliable cfg) (hinv : Inv cfg l)
    (hne : l.client.pendingList ≠ []) : Going cfg l := by
  obtain ⟨p, rest, hlist⟩ := List.exists_cons_of_ne_nil hne
  have hwrites : l.client.writes = [p] := by
    have hqueue : l.client.writes = l.client.pendingList.take 1 := h.client.queue
    rw [hqueue, hlist]
    rfl
  refine h.going_client (a := .writeDone 0 true) rfl List.nil_prefix rfl ?_
  simp only [AsioClient.ioStep, hwrites, List.getElem?_cons_zero, Option.bind_some,
    AsioClient.writeDone, if_true, AsioClient.startTimer, hlist, List.tail_cons]
  split
  · rfl
  · next hmore =>
    refine AsioClient.startWriteFront_isSome (by simpa using hmore) fun q hq => ?_
    refine hinv.encodes hrel (Or.inr ?_)
    rw [hlist]
    exact List.mem_cons_of_mem _ (List.mem_of_mem_head? hq)

/-- What is under way to the session can be read. -/
theorem Inv.going_up (h : Inv cfg l) (hne : l.up ≠ []) : Going cfg l := by
  obtain ⟨transit, _, hcarrying⟩ := h.up.transit
  obtain ⟨hfailed, _⟩ := hcarrying.doRead (List.prefix_refl l.up)
  refine ⟨.doRead l.up, hne, ?_⟩
  change (l.doRead cfg l.up).isSome = true
  simp only [Link.doRead, if_pos (List.prefix_refl l.up), hfailed]
  rfl

theorem Sound.handler (h : Sound cfg l) (hinv : Inv cfg l) {job : Job M}
    (hworking : l.server.Working job) :
    (cfg.server.handler job.pac.typeName).isSome = true :=
  h.handled job (hinv.serve.replies.working job hworking)

/-- The worker of the session finishes its task, or takes up the next one. -/
theorem Sound.going_worker (h : Sound cfg l) (hrel : Reliable cfg) (hinv : Inv cfg l)
    (hne : l.server.jobsAt (cfg.server.workId cfg.session) ≠ []) : Going cfg l := by
  cases htask : l.server.workerTasks (cfg.server.workId cfg.session) with
  | some job =>
    refine going_server (a := .workerReply _) rfl rfl ?_
    change ((l.server.workerTasks _).bind _).isSome = true
    rw [htask, Option.bind_some]
    have hmem : job ∈ l.server.jobsAt (cfg.server.workId cfg.session) := by
      rw [Server.jobsAt, htask]
      exact List.mem_cons_self
    exact Server.replyMessage_isSome hrel.replies (h.handler hinv (Or.inl ⟨_, hmem⟩))
  | none =>
    refine going_server (a := .workerStart _) rfl rfl ?_
    change (l.server.workerStart _).isSome = true
    rw [Server.jobsAt, htask] at hne
    obtain ⟨job, rest, hqueue⟩ := List.exists_cons_of_ne_nil hne
    simp only [Option.toList_none, List.nil_append] at hqueue
    simp only [Server.workerStart, htask, hqueue]
    rfl

theorem Sound.going_pool (h : Sound cfg l) (hrel : Reliable cfg) (hinv : Inv cfg l)
    (hne : l.server.poolTasks ++ l.server.poolQueue ≠ []) : Going cfg l := by
  cases htasks : l.server.poolTasks with
  | cons job rest =>
    refine going_server (a := .poolReply 0) trivial rfl ?_
    change ((l.server.poolTasks[0]?).bind _).isSome = true
    rw [htasks, List.getElem?_cons_zero, Option.bind_some]
    refine Server.replyMessage_isSome hrel.replies (h.handler hinv (Or.inr ?_))
    rw [htasks]
    exact List.mem_cons_self
  | nil =>
    refine going_server (a := .poolStart) trivial rfl ?_
    change l.server.poolStart.isSome = true
    rw [htasks, List.nil_append] at hne
    obtain ⟨job, rest, hqueue⟩ := List.exists_cons_of_ne_nil hne
    simp only [Server.poolStart, hqueue]
    rfl

theorem going_posts (hne : l.server.posts ≠ []) : Going cfg l := by
  obtain ⟨post, rest, hposts⟩ := List.exists_cons_of_ne_nil hne
  refine going_server (a := .runPost) trivial rfl ?_
  change l.server.runPost.isSome = true
  simp only [Server.runPost, hposts]
  rfl

theorem Sound.going_writeDeque (h : Sound cfg l)
    (hne : (l.server.sessions cfg.session).writeDeque ≠ []) : Going cfg l := by
  obtain ⟨out, rest, hdeque⟩ := List.exists_cons_of_ne_nil hne
  refine going_server (a := .doWrite cfg.session 0 true) ⟨rfl, rfl⟩ rfl ?_
  change (((l.server.sessions cfg.session).writes[0]?).map _).isSome = true
  rw [h.session.writes_eq, hdeque]
  rfl

/-- What is under way to the client can be read. -/
theorem Sound.going_down (h : Sound cfg l) (hinv : Inv cfg l) (hreads : 0 < l.client.reads)
    (hne : l.down ≠ []) : Going cfg l := by
  obtain ⟨announced, transit, hann⟩ := hinv.down
  obtain ⟨hfailed, _⟩ := hann.carrying.doRead (List.prefix_refl l.down)
  refine h.going_client (a := .doRead l.down) hne (List.prefix_refl l.down) rfl ?_
  change (if 0 < l.client.reads then l.client.doRead cfg.client l.down else none).isSome = true
  have hfailed' : (cfg.client.build.doRead cfg.client.memory l.client.readBuffer
      l.down).failed = false := hfailed
  simp only [if_pos hreads, AsioClient.doRead, hfailed']
  rfl

theorem Sound.going_responses (h : Sound cfg l) (hne : l.client.responses ≠ []) :
    Going cfg l := by
  obtain ⟨pack, rest, hresponses⟩ := List.exists_cons_of_ne_nil hne
  refine h.going_client (a := .doResponse) trivial List.nil_prefix rfl ?_
  simp only [AsioClient.ioStep, hresponses]
  rfl

/-- As long as something is under way on behalf of a connected client, some thread gets it on. -/
theorem Sound.going (h : Sound cfg l) (hrel : Reliable cfg) (hinv : Inv cfg l)
    (hreads : 0 < l.client.reads) (hbusy : ¬ Quiet cfg l) : Going cfg l := by
  by_contra hstuck
  have hworker : l.server.jobsAt (cfg.server.workId cfg.session) = [] := by
    by_contra hne
    exact hstuck (h.going_worker hrel hinv hne)
  have hpool : l.server.poolTasks ++ l.server.poolQueue = [] := by
    by_contra hne
    exact hstuck (h.going_pool hrel hinv hne)
  have hposts : l.server.posts = [] := by
    by_contra hne
    exact hstuck (going_posts hne)
  refine hbusy {
    posted := fun p hp => hstuck (h.going_posted hrel hinv hp)
    pending := ?_
    up := ?_
    worker := by simp [hworker]
    pool := by simp [hpool]
    posts := by simp [hposts]
    writeDeque := ?_
    down := ?_
    responses := ?_ } <;> by_contra hne
  · exact hstuck (h.going_pending hrel hinv hne)
  · exact hstuck (hinv.going_up hne)
  · exact hstuck (h.going_writeDeque hne)
  · exact hstuck (h.going_down hinv hreads hne)
  · exact hstuck (h.going_responses hne)

/-- What the threads keep of `l` as long as they go on by themselves. -/
structure Since (cfg : LinkConfig M) (l t : Link M) : Prop where
  reachable : (machine cfg).ReachableWhen (Steady cfg) t
  accepted : l.client.accepted <+: t.client.accepted
  isOnline : t.client.isOnline = l.client.isOnline
  published : t.published = l.published

theorem Since.client {t t' : Link M} (h : Since cfg l t) (hsound : Sound cfg t)
    {a : ClientAction M} (ha : Internal cfg (.client a))
    (hstep : t.step cfg (.client a) = some t') : Since cfg l t' := by
  have hreach : (machine cfg).ReachableWhen (Steady cfg) t' :=
    .step _ h.reachable ha.steady hstep
  obtain ⟨_, hmap⟩ := Option.ite_none_right_eq_some.mp hstep
  obtain ⟨c, hc, rfl⟩ := Option.map_eq_some_iff.mp hmap
  suffices hkept : t.client.accepted <+: c.accepted ∧ c.isOnline = t.client.isOnline from
    ⟨hreach, h.accepted.trans hkept.1, hkept.2.trans h.isOnline, h.published⟩
  cases AsioClient.Steps.of_step hc with
  | postMessage | publishMessage | postPackage | stop | readError | doConnect => exact ha.elim
  | @postCall i call hget =>
    rcases AsioClient.postCall_eq t.client i call with heq | heq <;> rw [heq]
    · exact ⟨List.prefix_rfl, rfl⟩
    · exact ⟨List.prefix_append _ _, rfl⟩
  | startWrite hget hrun =>
    obtain rfl := AsioClient.startWrite_eq hrun
    exact ⟨List.prefix_rfl, rfl⟩
  | doClose hget => exact absurd (List.mem_of_getElem? hget) hsound.client.posted
  | doRead _ hread =>
    obtain ⟨_, hd⟩ := Option.ite_none_left_eq_some.mp hread
    obtain rfl := Option.some.inj hd
    exact ⟨List.prefix_rfl, rfl⟩
  | writeDone hget hdone =>
    rcases AsioClient.writeDone_eq hdone with ⟨_, rfl⟩ | ⟨_, rfl⟩ <;>
      exact ⟨List.prefix_rfl, rfl⟩
  | timerAborted _ _ | timerExpired _ | doResponse _ => exact ⟨List.prefix_rfl, rfl⟩

theorem Since.step {t t' : Link M} (h : Since cfg l t) (hsound : Sound cfg t) {a : LinkAction M}
    (ha : Internal cfg a) (hstep : t.step cfg a = some t') : Since cfg l t' := by
  have hreach : (machine cfg).ReachableWhen (Steady cfg) t' :=
    .step _ h.reachable ha.steady hstep
  cases a with
  | client a => exact h.client hsound ha hstep
  | server a =>
    obtain ⟨_, hmap⟩ := Option.ite_none_right_eq_some.mp hstep
    obtain ⟨s, _, rfl⟩ := Option.map_eq_some_iff.mp hmap
    exact ⟨hreach, h.accepted, h.isOnline, h.published⟩
  | doRead chunk =>
    obtain ⟨_, hstep⟩ := Option.ite_none_right_eq_some.mp hstep
    obtain ⟨_, hstep⟩ := Option.ite_none_left_eq_some.mp hstep
    obtain rfl := Option.some.inj hstep
    exact ⟨hreach, h.accepted, h.isOnline, h.published⟩
  | publishMessage msg | deliverPackage pac => exact ha.elim

/-- Whatever holds of a connected client with nothing under way is what the threads come to. -/
theorem inevitable_of_quiet (hrel : Reliable cfg)
    (h : (machine cfg).ReachableWhen (Steady cfg) l) {P : Link M → Prop}
    (hP : ∀ t, Inv cfg t → CallInv cfg t.client → Sound cfg t → ¬ P t →
      0 < t.client.reads ∧ ¬ Quiet cfg t) :
    (machine cfg).Inevitable (fun _ => Internal cfg) (fun t => Since cfg l t ∧ P t) l := by
  refine Machine.inevitable_of_drains (stages cfg) (I := Since cfg l) ?_ ?_ ?_
    ⟨h, List.prefix_rfl, rfl, rfl⟩
  · intro s a t hs ha hstep
    exact hs.step (sound_reachable hrel hs.reachable).2.2 ha hstep
  · intro s a t hs ha hstep
    exact (sound_reachable hrel hs.reachable).2.2.drains ha hstep
  · intro s hs hnot
    obtain ⟨hinv, hcall, hsound⟩ := sound_reachable hrel hs.reachable
    obtain ⟨hreads, hbusy⟩ := hP s hinv hcall hsound hnot
    obtain ⟨a, ha, hstep⟩ := hsound.going hrel hinv hreads hbusy
    obtain ⟨t, ht⟩ := Option.isSome_iff_exists.mp hstep
    exact ⟨a, t, ha, ht⟩

/-- Every accepted request whose type has a handler has been called back. -/
def Settled (cfg : LinkConfig M) (l : Link M) : Prop :=
  ∀ n ∈ l.client.accepted, ∀ req, l.client.puts[n]? = some req →
    (cfg.answer req).isSome = true → l.client.CalledBack n

/-- In whatever order the threads of the two sides go on, they come to a state in which all the
requests accepted have been called back, if no new call is made and nothing fails. -/
theorem calls_settle (hrel : Reliable cfg) (h : (machine cfg).ReachableWhen (Steady cfg) l) :
    (machine cfg).Inevitable (fun _ => Internal cfg)
      (fun t => l.client.accepted <+: t.client.accepted ∧ Settled cfg t) l := by
  refine (inevitable_of_quiet hrel h (P := Settled cfg) ?_).mono fun t ht => ⟨ht.1.accepted, ht.2⟩
  intro t hinv hcall hsound hopen
  constructor
  · refine hsound.client.accepted fun hnil => hopen fun n hn => ?_
    simp [hnil] at hn
  · exact fun hquiet => hopen fun n hn req hput hhandler =>
      hinv.calledBack hcall hquiet n hn req hput hhandler

/-- Two requests are accepted and a message is published; nothing has been called back. -/
theorem run_pingStart : ∃ l : Link PingPong, (machine pingLink).ReachableWhen (Steady pingLink) l ∧
    l.client.isOnline = true ∧ l.client.accepted = [0, 1] ∧
    l.client.invoked.map Invocation.res = [] ∧
    l.published = [publishPackage pingLink.build 1 PingPong.blank] := by
  have hrun : ((machine pingLink).run (Steady pingLink) (machine pingLink).init
      (pingCalls.take 13)).map (fun l => (l.client.isOnline, l.client.accepted,
        l.client.invoked.map Invocation.res, l.published)) =
      some (true, [0, 1], [], [publishPackage pingLink.build 1 PingPong.blank]) := by
    decide +kernel
  obtain ⟨l, hl, hstate⟩ := Option.map_eq_some_iff.mp hrun
  obtain ⟨honline, haccepted, hinvoked, hpublished⟩ := by
    simpa only [Prod.mk.injEq] using hstate
  exact ⟨l, Machine.reachableWhen_of_run _ hl, honline, haccepted, hinvoked, hpublished⟩

theorem calls_settle_ping : ∃ l : Link PingPong, l.client.accepted = [0, 1] ∧
    l.client.invoked.map Invocation.res = [] ∧
    (machine pingLink).Inevitable (fun _ => Internal pingLink)
      (fun t => l.client.accepted <+: t.client.accepted ∧ Settled pingLink t) l := by
  obtain ⟨l, hreach, _, haccepted, hinvoked, _⟩ := run_pingStart
  exact ⟨l, haccepted, hinvoked, calls_settle reliable_ping hreach⟩

end Link

end AsioMsg
