import Mathlib.Data.List.Nodup
import Mathlib.Data.List.Perm.Subperm
import AsioMsg.ServerOrder
import AsioMsg.PackageChannel

/-!
The replies of the server to one session. Where every reply of a handler fits
and the packages of the session arrive with plain headers, a request that was
decoded is waiting, running or replied to; so the replies to ordered requests
are those to the requests executed, none left out.
-/

namespace AsioMsg

variable {M : Type}

/-- Whatever a handler replies fits. -/
def ServerConfig.RepliesFit (cfg : ServerConfig M) : Prop :=
  ∀ name task pac, cfg.handler name = some task →
    cfg.build.Fits cfg.enableCompressSize (task pac)

/-- The package replyMessage sends for a job, when its type has a handler. -/
def ServerConfig.reply (cfg : ServerConfig M) (pac : Package M) : Option (Package M) :=
  (cfg.handler pac.typeName).map fun task => replyPackage cfg.build pac (task pac)

/-- What a session writes for a package. -/
abbrev ServerConfig.bytesOf (cfg : ServerConfig M) (pac : Package M) : Option Bytes :=
  cfg.build.bytesOf cfg.memory cfg.enableCompressSize pac

namespace Server

variable {cfg : ServerConfig M} {s t : Server M} {a : ServerAction M} {k : ℕ}

/-- The task that a worker is running and those that wait for it. -/
def jobsAt (s : Server M) (w : ℕ) : List (Job M) := (s.workerTasks w).toList ++ s.workerQueues w

/-- The request waits for a thread, or a thread is running its task. -/
def Working (s : Server M) (job : Job M) : Prop :=
  (∃ w, job ∈ s.jobsAt w) ∨ job ∈ s.poolTasks ++ s.poolQueue

/-- handleMessage hands a request with a handler to one thread, under the next number. -/
theorem handleMessage_cases (cfg : ServerConfig M) (s : Server M) (session : ℕ)
    (pac : Package M) :
    (cfg.handler pac.typeName = none ∧ s.handleMessage cfg session pac = s) ∨
      ((cfg.handler pac.typeName).isSome = true ∧
        (s.handleMessage cfg session pac).decoded =
          s.decoded ++ [⟨s.decoded.length, session, pac⟩] ∧
        (s.handleMessage cfg session pac).outbox = s.outbox ∧
        (s.handleMessage cfg session pac).sessions = s.sessions ∧
        ∀ job, (s.handleMessage cfg session pac).Working job ↔
          s.Working job ∨ job = ⟨s.decoded.length, session, pac⟩) := by
  unfold Server.handleMessage
  cases hhandler : cfg.handler pac.typeName with
  | none => exact Or.inl ⟨rfl, rfl⟩
  | some task =>
    refine Or.inr ⟨rfl, ?_⟩
    cases horder : pac.header.isorder with
    | true =>
      refine ⟨rfl, rfl, rfl, fun job => ?_⟩
      constructor
      · rintro (⟨w, hjob⟩ | hjob)
        · by_cases hw : w = cfg.workId session
          · subst hw
            simp only [jobsAt, if_true, Function.update_self, ← List.append_assoc] at hjob
            rcases List.mem_append.mp hjob with hjob | hjob
            · exact Or.inl (Or.inl ⟨_, hjob⟩)
            · exact Or.inr (List.mem_singleton.mp hjob)
          · simp only [jobsAt, if_true, Function.update_of_ne hw] at hjob
            exact Or.inl (Or.inl ⟨w, hjob⟩)
        · exact Or.inl (Or.inr hjob)
      · rintro ((⟨w, hjob⟩ | hjob) | rfl)
        · refine Or.inl ⟨w, ?_⟩
          by_cases hw : w = cfg.workId session
          · subst hw
            simp only [jobsAt, if_true, Function.update_self, ← List.append_assoc]
            exact List.mem_append_left _ hjob
          · simp only [jobsAt, if_true, Function.update_of_ne hw]
            exact hjob
        · exact Or.inr hjob
        · refine Or.inl ⟨cfg.workId session, ?_⟩
          simp [jobsAt]
    | false =>
      refine ⟨rfl, rfl, rfl, fun job => ?_⟩
      simp only [Working, jobsAt, Bool.false_eq_true, if_false, ← List.append_assoc,
        List.mem_append, List.mem_singleton, or_assoc]

/-- The worker has nothing left of a task that has replied. -/
theorem working_workerReply {w : ℕ} {job : Job M} (htask : s.workerTasks w = some job) :
    s.Working job ∧
      (∀ other, Working { s with workerTasks := Function.update s.workerTasks w none } other →
        s.Working other) ∧
      ∀ other, s.Working other → other = job ∨
        Working { s with workerTasks := Function.update s.workerTasks w none } other := by
  refine ⟨Or.inl ⟨w, by simp [jobsAt, htask]⟩, ?_, ?_⟩
  · rintro other (⟨v, hjob⟩ | hjob)
    · refine Or.inl ⟨v, ?_⟩
      by_cases hv : v = w
      · subst hv
        simp only [jobsAt, Function.update_self, Option.toList_none, List.nil_append] at hjob
        exact List.mem_append_right _ hjob
      · simpa [jobsAt, Function.update_of_ne hv] using hjob
    · exact Or.inr hjob
  · rintro other (⟨v, hjob⟩ | hjob)
    · by_cases hv : v = w
      · subst hv
        rw [jobsAt, htask, Option.toList_some, List.singleton_append, List.mem_cons] at hjob
        refine hjob.imp_right fun hjob => Or.inl ⟨v, ?_⟩
        simpa [jobsAt] using hjob
      · refine Or.inr (Or.inl ⟨v, ?_⟩)
        simpa [jobsAt, Function.update_of_ne hv] using hjob
    · exact Or.inr (Or.inr hjob)

/-- Nor has the pool. -/
theorem working_poolReply {i : ℕ} {job : Job M} (hget : s.poolTasks[i]? = some job) :
    s.Working job ∧
      (∀ other, Working { s with poolTasks := s.poolTasks.eraseIdx i } other → s.Working other) ∧
      ∀ other, s.Working other → other = job ∨
        Working { s with poolTasks := s.poolTasks.eraseIdx i } other := by
  refine ⟨Or.inr (List.mem_append_left _ (List.mem_of_getElem? hget)), ?_, ?_⟩
  · rintro other (hjob | hjob)
    · exact Or.inl hjob
    · rcases List.mem_append.mp hjob with hjob | hjob
      · exact Or.inr (List.mem_append_left _ (List.mem_of_mem_eraseIdx hjob))
      · exact Or.inr (List.mem_append_right _ hjob)
  · rintro other (hjob | hjob)
    · exact Or.inr (Or.inl hjob)
    · rcases List.mem_append.mp hjob with hjob | hjob
      · refine (Pending.eq_or_mem_eraseIdx hget hjob).imp_right fun hjob => ?_
        exact Or.inr (List.mem_append_left _ hjob)
      · exact Or.inr (Or.inr (List.mem_append_right _ hjob))

/-- What a step other than handleMessage does: threads take up their work, a task replies, a
buffer is posted from outside, or io_ works on what is posted. -/
theorem step_cases (hstep : s.step cfg a = some t)
    (hother : ∀ session pac, a ≠ .handleMessage session pac) :
    t.decoded = s.decoded ∧
      (((∀ job, t.Working job ↔ s.Working job) ∧ t.outbox = s.outbox) ∨
        (∃ session buffer, a = .post session buffer ∧ (∀ job, t.Working job ↔ s.Working job) ∧
          t = { s with posts := s.posts ++ [(session, ⟨none, buffer⟩)] }) ∨
        ∃ (u : Server M) (job : Job M), u.outbox = s.outbox ∧ s.Working job ∧
          u.replyMessage cfg job = some t ∧ u.decoded = s.decoded ∧
          (∀ other, t.Working other → s.Working other) ∧
          ∀ other, s.Working other → other = job ∨ t.Working other) := by
  have hreply : ∀ {u : Server M} {job : Job M}, u.replyMessage cfg job = some t →
      t.decoded = u.decoded ∧ ∀ other, t.Working other ↔ u.Working other := by
    intro u job hreply
    rcases replyMessage_eq hreply with rfl | ⟨buffer, rfl⟩
    · exact ⟨rfl, fun _ => Iff.rfl⟩
    · exact ⟨rfl, fun _ => Iff.rfl⟩
  cases a with
  | handleMessage session pac => exact absurd rfl (hother session pac)
  | workerStart w =>
    change s.workerStart w = some t at hstep
    unfold Server.workerStart at hstep
    split at hstep
    · next job rest htask hqueue =>
      obtain rfl := Option.some.inj hstep
      refine ⟨rfl, Or.inl ⟨fun other => ?_, rfl⟩⟩
      -- the front of the queue is now the task of the same worker
      have hsame : ∀ v, jobsAt { s with
          workerQueues := Function.update s.workerQueues w rest
          workerTasks := Function.update s.workerTasks w (some job)
          executed := s.executed ++ [job] } v = s.jobsAt v := by
        intro v
        by_cases hv : v = w
        · subst hv
          simp [jobsAt, htask, hqueue]
        · simp [jobsAt, Function.update_of_ne hv]
      simp only [Working, hsame]
    · simp at hstep
  | workerReply w =>
    obtain ⟨job, htask, hsend⟩ := Option.bind_eq_some_iff.mp hstep
    obtain ⟨hdecoded, hworking⟩ := hreply hsend
    obtain ⟨hjob, hback, hforth⟩ := working_workerReply htask
    exact ⟨hdecoded, Or.inr (Or.inr
      ⟨{ s with workerTasks := Function.update s.workerTasks w none }, job, rfl, hjob, hsend, rfl,
        fun other hother => hback other ((hworking other).mp hother),
        fun other hother => (hforth other hother).imp_right (hworking other).mpr⟩)⟩
  | poolStart =>
    change s.poolStart = some t at hstep
    unfold Server.poolStart at hstep
    split at hstep
    · simp at hstep
    · next job rest hqueue =>
      obtain rfl := Option.some.inj hstep
      refine ⟨rfl, Or.inl ⟨fun other => ?_, rfl⟩⟩
      simp only [Working, jobsAt, hqueue, List.append_assoc, List.singleton_append]
  | poolReply i =>
    obtain ⟨job, hget, hsend⟩ := Option.bind_eq_some_iff.mp hstep
    obtain ⟨hdecoded, hworking⟩ := hreply hsend
    obtain ⟨hjob, hback, hforth⟩ := working_poolReply hget
    exact ⟨hdecoded, Or.inr (Or.inr
      ⟨{ s with poolTasks := s.poolTasks.eraseIdx i }, job, rfl, hjob, hsend, rfl,
        fun other hother => hback other ((hworking other).mp hother),
        fun other hother => (hforth other hother).imp_right (hworking other).mpr⟩)⟩
  | post session buffer =>
    obtain rfl := Option.some.inj hstep
    exact ⟨rfl, Or.inr (Or.inl ⟨session, buffer, rfl, fun _ => Iff.rfl, rfl⟩)⟩
  | runPost =>
    have hout := outbox_runPost hstep
    change s.runPost = some t at hstep
    unfold Server.runPost at hstep
    split at hstep
    · simp at hstep
    · obtain rfl := Option.some.inj hstep
      exact ⟨rfl, Or.inl ⟨fun _ => Iff.rfl, hout⟩⟩
  | doWrite session i success =>
    have hout := outbox_doWrite hstep
    obtain ⟨buf, _, rfl⟩ := Option.map_eq_some_iff.mp hstep
    exact ⟨rfl, Or.inl ⟨fun _ => Iff.rfl, hout⟩⟩

/-- Only writeBuffer and doWrite touch the output of a session. -/
theorem sessions_cases (hstep : s.step cfg a = some t) (k : ℕ) :
    t.sessions k = s.sessions k ∨ (∃ out, t.sessions k = (s.sessions k).writeBuffer out) ∨
      ∃ i success buf, a = .doWrite k i success ∧ (s.sessions k).writes[i]? = some buf ∧
        t.sessions k = (s.sessions k).doWrite i success := by
  have hreply : ∀ {u : Server M} {job : Job M}, u.replyMessage cfg job = some t →
      u.sessions = s.sessions → t.sessions = s.sessions := by
    intro u job hreply hsame
    rcases replyMessage_eq hreply with rfl | ⟨buffer, rfl⟩ <;> exact hsame
  cases a with
  | handleMessage session pac =>
    obtain rfl := Option.some.inj hstep
    left
    rcases handleMessage_cases cfg s session pac with ⟨_, hsame⟩ | ⟨_, _, _, hsame, _⟩ <;>
      rw [hsame]
  | workerStart w =>
    change s.workerStart w = some t at hstep
    unfold Server.workerStart at hstep
    split at hstep
    · obtain rfl := Option.some.inj hstep
      exact Or.inl rfl
    · simp at hstep
  | workerReply w =>
    obtain ⟨job, _, hsend⟩ := Option.bind_eq_some_iff.mp hstep
    exact Or.inl (congrFun (hreply hsend rfl) k)
  | poolStart =>
    change s.poolStart = some t at hstep
    unfold Server.poolStart at hstep
    split at hstep
    · simp at hstep
    · obtain rfl := Option.some.inj hstep
      exact Or.inl rfl
  | poolReply i =>
    obtain ⟨job, _, hsend⟩ := Option.bind_eq_some_iff.mp hstep
    exact Or.inl (congrFun (hreply hsend rfl) k)
  | post session buffer =>
    obtain rfl := Option.some.inj hstep
    exact Or.inl rfl
  | runPost =>
    change s.runPost = some t at hstep
    unfold Server.runPost at hstep
    split at hstep
    · simp at hstep
    · next session out rest hposts =>
      obtain rfl := Option.some.inj hstep
      by_cases hk : k = session
      · subst hk
        exact Or.inr (Or.inl ⟨out, Function.update_self ..⟩)
      · exact Or.inl (Function.update_of_ne hk ..)
  | doWrite session i success =>
    obtain ⟨buf, hget, rfl⟩ := Option.map_eq_some_iff.mp hstep
    by_cases hk : k = session
    · subst hk
      exact Or.inr (Or.inr ⟨i, success, buf, rfl, hget, Function.update_self ..⟩)
    · exact Or.inl (Function.update_of_ne hk ..)

/-- What a session has started stays so. -/
theorem started_initial (hstep : s.step cfg a = some t) (k : ℕ) :
    (s.sessions k).started <+: (t.sessions k).started := by
  rcases sessions_cases hstep k with hsame | ⟨out, hout⟩ | ⟨i, success, _, _, _, hout⟩
  · exact hsame ▸ List.prefix_rfl
  · rw [hout, SessionOut.writeBuffer_eq]
    exact List.prefix_append _ _
  · rw [hout]
    cases success with
    | true =>
      simp only [SessionOut.doWrite, if_true, SessionOut.startWrite_eq]
      exact List.prefix_append _ _
    | false => exact List.prefix_rfl

/-- The buffer holds the reply to the request. -/
structure Answers (cfg : ServerConfig M) (out : Outbound M) (job : Job M) : Prop where
  job_eq : out.job = some job
  buffer_eq : ∃ rsp, cfg.reply job.pac = some rsp ∧ cfg.bytesOf rsp = some out.buffer

/-- A reply is posted to the session of the request, unless encode refuses it. -/
theorem replyMessage_answers {job : Job M} (h : s.replyMessage cfg job = some t) :
    (t = s ∧ ∃ rsp, cfg.reply job.pac = some rsp ∧ cfg.bytesOf rsp = none) ∨
      ∃ out, Answers cfg out job ∧ t = { s with posts := s.posts ++ [(job.session, out)] } := by
  unfold Server.replyMessage at h
  split at h
  · simp at h
  · next task htask =>
    have hrsp : cfg.reply job.pac = some (replyPackage cfg.build job.pac (task job.pac)) := by
      rw [ServerConfig.reply, htask, Option.map_some]
    split at h
    · next sent out henc =>
      exact Or.inr ⟨_, ⟨rfl, _, hrsp, Build.bytesOf_of_frame henc⟩, (Option.some.inj h).symm⟩
    · next henc =>
      exact Or.inl ⟨(Option.some.inj h).symm, _, hrsp,
        by rw [ServerConfig.bytesOf, Build.bytesOf, henc]⟩
    · simp at h

/-- What a step does to the outbox of a session. -/
theorem outbox_step (hstep : s.step cfg a = some t) (k : ℕ) :
    t.outbox k = s.outbox k ∨
      (∃ buffer, a = .post k buffer ∧ t.outbox k = s.outbox k ++ [⟨none, buffer⟩]) ∨
      ∃ out job, s.Working job ∧ job.session = k ∧ Answers cfg out job ∧
        t.outbox k = s.outbox k ++ [out] := by
  by_cases hmessage : ∃ session pac, a = .handleMessage session pac
  · obtain ⟨session, pac, rfl⟩ := hmessage
    obtain rfl := Option.some.inj hstep
    left
    rcases handleMessage_cases cfg s session pac with ⟨_, hsame⟩ | ⟨_, _, hsame, _⟩ <;> rw [hsame]
  · have hother : ∀ session pac, a ≠ .handleMessage session pac := fun session pac ha =>
      hmessage ⟨session, pac, ha⟩
    rcases (step_cases hstep hother).2 with ⟨_, hsame⟩ | ⟨session, buffer, rfl, _, rfl⟩ |
      ⟨u, job, hout, hworking, hreply, _⟩
    · exact Or.inl (congrFun hsame k)
    · rw [outbox_post]
      split
      · next heq => exact Or.inr (Or.inl ⟨buffer, by rw [heq], rfl⟩)
      · exact Or.inl (List.append_nil _)
    · rcases replyMessage_answers hreply with ⟨rfl, _⟩ | ⟨out, hanswers, rfl⟩
      · exact Or.inl (congrFun hout k)
      · rw [outbox_post, congrFun hout k]
        split
        · next heq => exact Or.inr (Or.inr ⟨out, job, hworking, heq, hanswers, rfl⟩)
        · exact Or.inl (List.append_nil _)

/-- The packages of session `k` arrive with plain headers. -/
def PlainFrom (k : ℕ) : ServerAction M → Prop
  | .handleMessage session pac => session = k → Build.Plain pac.header
  | _ => True

structure ReplyInv (cfg : ServerConfig M) (k : ℕ) (s : Server M) : Prop where
  order : Inv cfg s
  working : ∀ job, s.Working job → job ∈ s.decoded
  plain : ∀ job ∈ s.decoded, job.session = k → Build.Plain job.pac.header
  /-- A request of the session waits, is running or has its reply in the outbox. -/
  kept : ∀ job ∈ s.decoded, job.session = k →
    s.Working job ∨ job ∈ (s.outbox k).filterMap Outbound.job
  replies : ∀ out ∈ s.outbox k, ∀ job, out.job = some job →
    job ∈ s.decoded ∧ job.session = k ∧ Answers cfg out job

/-- The reply to a request with a plain header fits, so encode writes it. -/
theorem reply_postable (hfit : cfg.RepliesFit) {pac rsp : Package M}
    (hplain : Build.Plain pac.header) (hrsp : cfg.reply pac = some rsp) :
    cfg.build.Postable cfg.enableCompressSize rsp := by
  obtain ⟨task, htask, rfl⟩ := Option.map_eq_some_iff.mp hrsp
  exact (hfit _ task pac htask).postable hplain

theorem ReplyInv.handleMessage (h : ReplyInv cfg k s) (session : ℕ) (pac : Package M)
    (hplain : session = k → Build.Plain pac.header) :
    ReplyInv cfg k (s.handleMessage cfg session pac) := by
  rcases handleMessage_cases cfg s session pac with
    ⟨_, hsame⟩ | ⟨_, hdecoded, hout, _, hworking⟩
  · rwa [hsame]
  · refine ⟨h.order.handleMessage session pac, ?_, ?_, ?_, ?_⟩
    · intro job hjob
      rw [hdecoded, List.mem_append]
      exact ((hworking job).mp hjob).imp (h.working job) List.mem_singleton.mpr
    · intro job hjob hsession
      rw [hdecoded, List.mem_append, List.mem_singleton] at hjob
      rcases hjob with hjob | rfl
      · exact h.plain job hjob hsession
      · exact hplain hsession
    · intro job hjob hsession
      rw [hout]
      rw [hdecoded, List.mem_append, List.mem_singleton] at hjob
      rcases hjob with hjob | rfl
      · exact (h.kept job hjob hsession).imp_left fun hold => (hworking job).mpr (Or.inl hold)
      · exact Or.inl ((hworking _).mpr (Or.inr rfl))
    · intro out hmem job hjob
      rw [hout] at hmem
      obtain ⟨hold, hanswers⟩ := h.replies out hmem job hjob
      exact ⟨hdecoded ▸ List.mem_append_left _ hold, hanswers⟩

theorem ReplyInv.step (h : ReplyInv cfg k s) (hfit : cfg.RepliesFit)
    (hparse : cfg.build.protobuf.ParseUndoesSerialize)
    (hzlib : cfg.build.zlib.UncompressUndoesCompress) (hok : PlainFrom k a)
    (hstep : s.step cfg a = some t) : ReplyInv cfg k t := by
  by_cases hmessage : ∃ session pac, a = .handleMessage session pac
  · obtain ⟨session, pac, rfl⟩ := hmessage
    obtain rfl := Option.some.inj hstep
    exact h.handleMessage session pac hok
  · have hother : ∀ session pac, a ≠ .handleMessage session pac := fun session pac ha =>
      hmessage ⟨session, pac, ha⟩
    obtain ⟨hdecoded, hcases⟩ := step_cases hstep hother
    refine ⟨h.order.step hstep, ?_, by rw [hdecoded]; exact h.plain, ?_, ?_⟩
    · intro job hjob
      rw [hdecoded]
      rcases hcases with ⟨hworking, _⟩ | ⟨_, _, _, hworking, _⟩ | ⟨_, _, _, _, _, _, hback, _⟩
      · exact h.working job ((hworking job).mp hjob)
      · exact h.working job ((hworking job).mp hjob)
      · exact h.working job (hback job hjob)
    · intro job hjob hsession
      rw [hdecoded] at hjob
      have hold := h.kept job hjob hsession
      rcases hcases with ⟨hworking, hout⟩ | ⟨session, buffer, _, hworking, rfl⟩ |
        ⟨u, done, hout, _, hreply, _, _, hforth⟩
      · rw [congrFun hout k, hworking job]
        exact hold
      · rw [outbox_post, List.filterMap_append, List.mem_append, hworking job]
        exact hold.imp_right Or.inl
      · rcases replyMessage_answers hreply with ⟨rfl, rsp, hrsp, hrefused⟩ | ⟨out, hanswers, rfl⟩
        · -- nothing is posted only for a reply that does not fit, which is of another session
          rw [congrFun hout k]
          rcases hold with hold | hold
          · rcases hforth job hold with rfl | hnow
            · obtain ⟨sent, buffer, f, henc, _⟩ := (reply_postable hfit
                (h.plain job hjob hsession) hrsp).encode_eq hparse hzlib cfg.memory
              rw [ServerConfig.bytesOf, Build.bytesOf_of_frame henc] at hrefused
              simp at hrefused
            · exact Or.inl hnow
          · exact Or.inr hold
        · rw [outbox_post, congrFun hout k, List.filterMap_append, List.mem_append]
          rcases hold with hold | hold
          · refine (hforth job hold).symm.imp_right fun heq => Or.inr ?_
            subst heq
            simp [hsession, hanswers.job_eq]
          · exact Or.inr (Or.inl hold)
    · intro out hmem job hjob
      rw [hdecoded]
      rcases outbox_step hstep k with hout | ⟨buffer, _, hout⟩ |
        ⟨new, done, hworking, hsession, hanswers, hout⟩
      · exact h.replies out (hout ▸ hmem) job hjob
      · rw [hout, List.mem_append, List.mem_singleton] at hmem
        rcases hmem with hmem | rfl
        · exact h.replies out hmem job hjob
        · simp at hjob
      · rw [hout, List.mem_append, List.mem_singleton] at hmem
        rcases hmem with hmem | rfl
        · exact h.replies out hmem job hjob
        · obtain rfl := Option.some.inj (hanswers.job_eq.symm.trans hjob)
          exact ⟨h.working done hworking, hsession, hanswers⟩

theorem replyInv_init (cfg : ServerConfig M) (k : ℕ) : ReplyInv cfg k {} where
  order := inv_reachable .init
  working := by
    rintro job (⟨w, hjob⟩ | hjob) <;> exact nomatch hjob
  plain _ hjob := nomatch hjob
  kept _ hjob := nomatch hjob
  replies _ hout := nomatch hout

end Server

end AsioMsg
