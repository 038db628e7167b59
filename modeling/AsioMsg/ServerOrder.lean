import AsioMsg.TaskManager
import AsioMsg.PingPong

/-!
Ordered requests stay ordered through the server. All ordered requests of a
session go through one worker, one reply at a time into the queue of io_ and
from there into the deque of their session; at each stage what has left is in
front of what is still waiting.
-/

namespace AsioMsg

variable {M : Type}

namespace Server

variable {cfg : ServerConfig M} {s t : Server M}

/-- The ordered requests of a session. -/
def ordered (session : ℕ) (jobs : List (Job M)) : List (Job M) :=
  jobs.filter fun job => decide (job.session = session) && job.isorder

/-- The ordered requests of a session that a list of buffers replies to. -/
def repliesOf (session : ℕ) (outs : List (Outbound M)) : List (Job M) :=
  ordered session (outs.filterMap Outbound.job)

/-- The buffers of a session that writeBuffer was called with or will be called with. -/
def outbox (s : Server M) (session : ℕ) : List (Outbound M) :=
  (s.sessions session).calls ++
    (s.posts.filter fun post => decide (post.1 = session)).map Prod.snd

theorem ordered_append (k : ℕ) (jobs more : List (Job M)) :
    ordered k (jobs ++ more) = ordered k jobs ++ ordered k more :=
  List.filter_append ..

theorem repliesOf_append (k : ℕ) (outs more : List (Outbound M)) :
    repliesOf k (outs ++ more) = repliesOf k outs ++ repliesOf k more := by
  rw [repliesOf, List.filterMap_append, ordered_append]
  rfl

theorem ordered_singleton (k : ℕ) (job : Job M) :
    ordered k [job] = if job.session = k ∧ job.isorder = true then [job] else [] := by
  simp [ordered, List.filter_singleton]

theorem ordered_of_unordered (k : ℕ) (job : Job M) (h : job.isorder = false) :
    ordered k [job] = [] := by
  rw [ordered_singleton, if_neg (by simp [h])]

structure Inv (cfg : ServerConfig M) (s : Server M) : Prop where
  numbers : s.decoded.map Job.number = List.range s.decoded.length
  queued : ∀ w, ∀ job ∈ s.workerQueues w, cfg.workId job.session = w ∧ job.isorder = true
  running : ∀ w job, s.workerTasks w = some job → cfg.workId job.session = w ∧ job.isorder = true
  pooled : ∀ job ∈ s.poolQueue ++ s.poolTasks, job.isorder = false
  executed : ∀ k, ordered k s.decoded =
    ordered k s.executed ++ ordered k (s.workerQueues (cfg.workId k))
  replied : ∀ k, List.Sublist
    (repliesOf k (s.outbox k) ++ ordered k (s.workerTasks (cfg.workId k)).toList)
    (ordered k s.executed)
  sessions : ∀ k, (s.sessions k).Inv

/-- An ordered request goes to the queue of its session's worker. -/
theorem Inv.handleMessage (h : Inv cfg s) (session : ℕ) (pac : Package M) :
    Inv cfg (s.handleMessage cfg session pac) := by
  unfold Server.handleMessage
  cases cfg.handler pac.typeName with
  | none => exact h
  | some task =>
    have hnumbers : (s.decoded ++ [(⟨s.decoded.length, session, pac⟩ : Job M)]).map Job.number =
        List.range (s.decoded ++ [(⟨s.decoded.length, session, pac⟩ : Job M)]).length := by
      rw [List.map_append, h.numbers, List.length_append, List.length_singleton,
        List.range_succ]
      rfl
    cases horder : pac.header.isorder with
    | false =>
      refine ⟨hnumbers, h.queued, h.running, ?_, ?_, h.replied, h.sessions⟩
      · intro job hjob
        simp only [Bool.false_eq_true, if_false, List.mem_append, List.mem_singleton] at hjob
        rcases hjob with (hjob | rfl) | hjob
        · exact h.pooled job (List.mem_append_left _ hjob)
        · exact horder
        · exact h.pooled job (List.mem_append_right _ hjob)
      · intro k
        change ordered k (s.decoded ++ [_]) = _
        rw [ordered_append, ordered_of_unordered k ⟨_, _, pac⟩ horder, List.append_nil]
        exact h.executed k
    | true =>
      refine ⟨hnumbers, ?_, h.running, h.pooled, ?_, h.replied, h.sessions⟩
      · refine (Function.forall_update_iff s.workerQueues fun w jobs => ∀ job ∈ jobs,
          cfg.workId job.session = w ∧ job.isorder = true).mpr ⟨?_, fun w _ => h.queued w⟩
        intro job hjob
        rcases List.mem_append.mp hjob with hjob | hjob
        · exact h.queued _ job hjob
        · rw [List.mem_singleton] at hjob
          exact hjob ▸ ⟨rfl, horder⟩
      · intro k
        change ordered k (s.decoded ++ [_]) =
          ordered k s.executed ++ ordered k (Function.update s.workerQueues _ _ _)
        rw [ordered_append, h.executed k, List.append_assoc]
        by_cases hw : cfg.workId k = cfg.workId session
        · rw [hw, Function.update_self, ordered_append]
        · have hne : session ≠ k := fun heq => hw (heq ▸ rfl)
          rw [Function.update_of_ne hw, ordered_singleton, if_neg (by simp [hne]), List.append_nil]

/-- A worker starts the task in front of its queue. -/
theorem Inv.workerStart (h : Inv cfg s) {w : ℕ} (hstep : s.workerStart w = some t) :
    Inv cfg t := by
  unfold Server.workerStart at hstep
  split at hstep
  · next job rest htask hqueue =>
    obtain rfl := Option.some.inj hstep
    have hjob := h.queued w job (by rw [hqueue]; exact List.mem_cons_self)
    refine ⟨h.numbers, ?_, ?_, h.pooled, ?_, ?_, h.sessions⟩
    · refine (Function.forall_update_iff s.workerQueues fun v jobs => ∀ other ∈ jobs,
        cfg.workId other.session = v ∧ other.isorder = true).mpr ⟨?_, fun v _ => h.queued v⟩
      exact fun other hother => h.queued w other (by rw [hqueue]; exact .tail _ hother)
    · refine (Function.forall_update_iff s.workerTasks fun v task => ∀ other, task = some other →
        cfg.workId other.session = v ∧ other.isorder = true).mpr ⟨?_, fun v _ => h.running v⟩
      exact fun other hother => Option.some.inj hother ▸ hjob
    · intro k
      dsimp only
      rw [ordered_append, h.executed k, List.append_assoc]
      by_cases hk : cfg.workId k = w
      · rw [hk, hqueue, Function.update_self, ← List.singleton_append, ordered_append]
      · have hne : job.session ≠ k := fun heq => hk (heq ▸ hjob.1)
        rw [Function.update_of_ne hk, ordered_singleton, if_neg (by simp [hne]),
          List.nil_append]
    · intro k
      change (repliesOf k (s.outbox k) ++
        ordered k (Function.update s.workerTasks w (some job) (cfg.workId k)).toList).Sublist
          (ordered k (s.executed ++ [job]))
      rw [ordered_append]
      have hold := h.replied k
      by_cases hk : cfg.workId k = w
      · rw [hk, htask, Option.toList_none, ordered, List.filter_nil, List.append_nil] at hold
        rw [hk, Function.update_self, Option.toList_some]
        exact hold.append (List.Sublist.refl _)
      · rw [Function.update_of_ne hk]
        exact hold.trans (List.sublist_append_left _ _)
  · simp at hstep

/-- The reply of a task is posted at the end of the session's outbox, or not at all. -/
theorem replyMessage_eq {job : Job M} (h : s.replyMessage cfg job = some t) :
    t = s ∨ ∃ buffer, t = { s with posts := s.posts ++ [(job.session, ⟨some job, buffer⟩)] } := by
  unfold Server.replyMessage at h
  split at h
  · simp at h
  · split at h
    · exact Or.inr ⟨_, (Option.some.inj h).symm⟩
    · exact Or.inl (Option.some.inj h).symm
    · simp at h

theorem outbox_post (k session : ℕ) (out : Outbound M) :
    { s with posts := s.posts ++ [(session, out)] }.outbox k =
      s.outbox k ++ if session = k then [out] else [] := by
  by_cases h : session = k <;> simp [outbox, h]

/-- A buffer that answers no ordered request. -/
theorem Inv.post (h : Inv cfg s) (session : ℕ) (out : Outbound M)
    (hout : ∀ k, repliesOf k [out] = []) :
    Inv cfg { s with posts := s.posts ++ [(session, out)] } := by
  refine ⟨h.numbers, h.queued, h.running, h.pooled, h.executed, ?_, h.sessions⟩
  intro k
  have hsame : repliesOf k ({ s with posts := s.posts ++ [(session, out)] }.outbox k) =
      repliesOf k (s.outbox k) := by
    rw [outbox_post, repliesOf_append]
    split
    · rw [hout k, List.append_nil]
    · exact List.append_nil _
  rw [hsame]
  exact h.replied k

/-- A worker's task has replied: the reply takes its place in the outbox. -/
theorem Inv.workerReply (h : Inv cfg s) {w : ℕ} (hstep : s.workerReply cfg w = some t) :
    Inv cfg t := by
  obtain ⟨job, htask, hreply⟩ := Option.bind_eq_some_iff.mp hstep
  have hjob := h.running w job htask
  have hrunning : ∀ v other, Function.update s.workerTasks w none v = some other →
      cfg.workId other.session = v ∧ other.isorder = true :=
    (Function.forall_update_iff s.workerTasks fun v task => ∀ other, task = some other →
      cfg.workId other.session = v ∧ other.isorder = true).mpr
      ⟨(fun _ hother => nomatch hother), fun v _ => h.running v⟩
  -- what is in the outbox together with the running task is what it was
  have hreplied : ∀ k, (repliesOf k (s.outbox k) ++ ordered k [job] ++
      ordered k (Function.update s.workerTasks w none (cfg.workId k)).toList).Sublist
        (ordered k s.executed) := by
    intro k
    have hold := h.replied k
    by_cases hk : cfg.workId k = w
    · rw [hk, htask, Option.toList_some] at hold
      rwa [hk, Function.update_self, Option.toList_none, ordered, ordered, List.filter_nil,
        List.append_nil]
    · have hne : job.session ≠ k := fun heq => hk (heq ▸ hjob.1)
      rwa [Function.update_of_ne hk, ordered_singleton, if_neg (by simp [hne]), List.append_nil]
  rcases replyMessage_eq hreply with rfl | ⟨buffer, rfl⟩
  · refine ⟨h.numbers, h.queued, hrunning, h.pooled, h.executed, fun k => ?_, h.sessions⟩
    refine List.Sublist.trans ?_ (hreplied k)
    rw [List.append_assoc]
    exact (List.Sublist.refl _).append (List.sublist_append_right _ _)
  · refine ⟨h.numbers, h.queued, hrunning, h.pooled, h.executed, fun k => ?_, h.sessions⟩
    rw [outbox_post, repliesOf_append]
    refine List.Sublist.trans ?_ (hreplied k)
    refine List.Sublist.append ((List.Sublist.refl _).append ?_) (List.Sublist.refl _)
    split
    · exact List.Sublist.refl _
    · exact List.nil_sublist _

theorem Inv.poolStart (h : Inv cfg s) (hstep : s.poolStart = some t) : Inv cfg t := by
  unfold Server.poolStart at hstep
  split at hstep
  · simp at hstep
  · next job rest hqueue =>
    obtain rfl := Option.some.inj hstep
    have hpooled := h.pooled
    rw [hqueue] at hpooled
    have hjob : job.isorder = false := hpooled job (by simp)
    refine ⟨h.numbers, h.queued, h.running, ?_, ?_, ?_, h.sessions⟩
    · intro other hother
      refine hpooled other ?_
      simp only [List.mem_append, List.mem_cons, List.not_mem_nil, or_false] at hother ⊢
      tauto
    · intro k
      rw [ordered_append, ordered_of_unordered k job hjob, List.append_nil]
      exact h.executed k
    · intro k
      rw [ordered_append, ordered_of_unordered k job hjob, List.append_nil]
      exact h.replied k

theorem Inv.poolReply (h : Inv cfg s) {i : ℕ} (hstep : s.poolReply cfg i = some t) :
    Inv cfg t := by
  obtain ⟨job, hget, hreply⟩ := Option.bind_eq_some_iff.mp hstep
  have hjob : job.isorder = false :=
    h.pooled job (List.mem_append_right _ (List.mem_of_getElem? hget))
  have herase : Inv cfg { s with poolTasks := s.poolTasks.eraseIdx i } := by
    refine ⟨h.numbers, h.queued, h.running, ?_, h.executed, h.replied, h.sessions⟩
    intro other hother
    refine h.pooled other ?_
    rw [List.mem_append] at hother ⊢
    exact hother.imp_right List.mem_of_mem_eraseIdx
  rcases replyMessage_eq hreply with rfl | ⟨buffer, rfl⟩
  · exact herase
  · exact herase.post job.session _ fun k => ordered_of_unordered k job hjob

/-- writeBuffer takes the front of the posted calls: the outboxes stay what they are. -/
theorem outbox_runPost (hstep : s.runPost = some t) : t.outbox = s.outbox := by
  unfold Server.runPost at hstep
  split at hstep
  · simp at hstep
  · next session out rest hposts =>
    obtain rfl := Option.some.inj hstep
    funext k
    by_cases hk : k = session
    · subst hk
      simp [outbox, hposts, SessionOut.writeBuffer_eq]
    · simp [outbox, hposts, Function.update_of_ne hk, Ne.symm hk]

theorem outbox_doWrite {session i : ℕ} {success : Bool}
    (hstep : s.doWrite session i success = some t) : t.outbox = s.outbox := by
  obtain ⟨buf, _, rfl⟩ := Option.map_eq_some_iff.mp hstep
  funext k
  by_cases hk : k = session
  · subst hk
    simp [outbox]
  · simp [outbox, Function.update_of_ne hk]

theorem Inv.runPost (h : Inv cfg s) (hstep : s.runPost = some t) : Inv cfg t := by
  have hsame := outbox_runPost hstep
  unfold Server.runPost at hstep
  split at hstep
  · simp at hstep
  · next session out rest hposts =>
    obtain rfl := Option.some.inj hstep
    refine ⟨h.numbers, h.queued, h.running, h.pooled, h.executed, ?_, ?_⟩
    · intro k
      rw [hsame]
      exact h.replied k
    · exact (Function.forall_update_iff s.sessions fun _ out => out.Inv).mpr
        ⟨(h.sessions session).writeBuffer out, fun k _ => h.sessions k⟩

theorem Inv.doWrite (h : Inv cfg s) {session i : ℕ} {success : Bool}
    (hstep : s.doWrite session i success = some t) : Inv cfg t := by
  have hsame := outbox_doWrite hstep
  obtain ⟨buf, hget, rfl⟩ := Option.map_eq_some_iff.mp hstep
  refine ⟨h.numbers, h.queued, h.running, h.pooled, h.executed, ?_, ?_⟩
  · intro k
    rw [hsame]
    exact h.replied k
  · exact (Function.forall_update_iff s.sessions fun _ out => out.Inv).mpr
      ⟨(h.sessions session).doWrite hget success, fun k _ => h.sessions k⟩

theorem Inv.step (h : Inv cfg s) {a : ServerAction M} (hstep : s.step cfg a = some t) :
    Inv cfg t := by
  cases a with
  | handleMessage session pac =>
    obtain rfl := Option.some.inj hstep
    exact h.handleMessage session pac
  | workerStart w => exact h.workerStart hstep
  | workerReply w => exact h.workerReply hstep
  | poolStart => exact h.poolStart hstep
  | poolReply i => exact h.poolReply hstep
  | post session buffer =>
    obtain rfl := Option.some.inj hstep
    exact h.post session _ fun k => rfl
  | runPost => exact h.runPost hstep
  | doWrite session i success => exact h.doWrite hstep

/-- What a session has started to write is the first of what has been posted to it. -/
theorem Inv.started_outbox (h : Inv cfg s) (k : ℕ) :
    (s.sessions k).started <+: s.outbox k :=
  (h.sessions k).started_initial.trans (List.prefix_append _ _)

/-- With nothing left to write a session has started all its buffers. -/
theorem Inv.started_eq (h : Inv cfg s) {k : ℕ} (hposts : ∀ post ∈ s.posts, post.1 ≠ k)
    (hdeque : (s.sessions k).writeDeque = []) : (s.sessions k).started = s.outbox k := by
  have hnone : (s.posts.filter fun post => decide (post.1 = k)) = [] := by
    rw [List.filter_eq_nil_iff]
    intro post hpost
    simpa using hposts post hpost
  rw [outbox, hnone, List.map_nil, List.append_nil]
  rcases h.sessions k with hflow | hfailed
  · obtain ⟨written, hcalls, hstarted⟩ := hflow.calls_eq
    rw [hcalls, hstarted, hdeque]
    rfl
  · exact absurd hdeque hfailed.writeDeque_ne

theorem inv_reachable (h : (machine cfg).Reachable s) : Inv cfg s := by
  refine Machine.Reachable.invariant (I := Inv cfg) ?_ ?_ h
  · exact {
      numbers := rfl
      queued := fun _ _ hjob => nomatch hjob
      running := fun _ _ hjob => nomatch hjob
      pooled := fun _ hjob => nomatch hjob
      executed := fun _ => rfl
      replied := fun _ => List.Sublist.refl _
      sessions := fun _ => Or.inl ⟨rfl, [], rfl, rfl⟩ }
  · exact fun _ _ _ hs hstep => hs.step hstep

/-- The ordered requests of a session are executed in the order in which they were decoded, and
what is written to its socket replies to executed ones in that order, each once. -/
theorem ordered_end_to_end (h : (machine cfg).Reachable s) (session : ℕ) :
    (s.decoded.map Job.number).Nodup ∧
      ordered session s.executed <+: ordered session s.decoded ∧
      (repliesOf session (s.sessions session).started).Sublist
        (ordered session s.executed) := by
  have hinv := inv_reachable h
  refine ⟨?_, ?_, ?_⟩
  · rw [hinv.numbers]
    exact List.nodup_range
  · rw [hinv.executed session]
    exact List.prefix_append _ _
  · obtain ⟨later, hlater⟩ := (hinv.sessions session).started_initial
    refine List.Sublist.trans ?_ (hinv.replied session)
    rw [outbox, ← hlater, List.append_assoc, repliesOf_append, List.append_assoc]
    exact List.sublist_append_left _ _

/-- A server of the PingPong service with two workers. -/
def pingServer : ServerConfig PingPong where
  build := PingPong.build false
  memory := PingPong.memory
  enableCompressSize := -1
  workSize := 2
  handler name := if name = PingPong.typeName then some fun _ => PingPong.blank else none

def orderedRequest (msgId : BitVec 32) : Package PingPong :=
  { PingPong.request PingPong.blank msgId with
    header := (PingPong.request PingPong.blank msgId).header.setIsorder true }

/-- Two ordered requests with an unordered one between them. -/
def pingRun : List (ServerAction PingPong) :=
  [.handleMessage 0 (orderedRequest 1), .handleMessage 0 (PingPong.request PingPong.blank 2),
    .handleMessage 0 (orderedRequest 3), .workerStart 1, .poolStart, .workerReply 1,
    .poolReply 0, .runPost, .workerStart 1, .workerReply 1, .runPost, .runPost,
    .doWrite 0 0 true, .doWrite 0 0 true]

theorem ordered_end_to_end_ping :
    ∃ s : Server PingPong, s.executed.map Job.number = [0, 1, 2] ∧
      (repliesOf 0 (s.sessions 0).started).map Job.number = [0, 2] ∧
      ordered 0 s.executed <+: ordered 0 s.decoded := by
  have hrun : ∃ s, (machine pingServer).run (fun _ _ => True) {} pingRun = some s ∧
      s.executed.map Job.number = [0, 1, 2] ∧
      (repliesOf 0 (s.sessions 0).started).map Job.number = [0, 2] := ⟨_, rfl, rfl, rfl⟩
  obtain ⟨s, hs, hexecuted, hreplies⟩ := hrun
  have hreach : (machine pingServer).Reachable s := Machine.reachableWhen_of_run pingRun hs
  exact ⟨s, hexecuted, hreplies, (ordered_end_to_end hreach 0).2.1⟩

end Server

end AsioMsg
