import AsioMsg.ClientQueue

/-!
Requests of the client on their way to an answer. A request that was accepted
and not yet answered is posted, pending behind a write, or armed with a timer,
unless a write failed or its id was used again while it waited: the timer is
armed by the completion of the request's own write and by nothing else.
-/

namespace AsioMsg

variable {M : Type}

namespace AsioClient

variable {cfg : ClientConfig M} {c d : AsioClient M} {a : ClientAction M}

/-- The callback of put `n` has been invoked. -/
def Answered (c : AsioClient M) (n : ℕ) : Prop := ∃ inv ∈ c.invoked, inv.res = n

/-- Every request whose postMessage returned eSuccess has been answered, or its startWrite is
posted, or it is pending while a write is outstanding, or its cache entry has an armed timer. -/
def NoAbandonedRequest (c : AsioClient M) : Prop :=
  ∀ n ∈ c.accepted, c.Answered n ∨
    (∃ p, .startWrite p ∈ c.posted ∧ p.put = some n) ∨
    ((∃ p ∈ c.pendingList, p.put = some n) ∧ c.writes ≠ []) ∨
    ∃ msgid data, c.requestMessage.cache msgid = some data ∧ data.res = n ∧ (msgid, n) ∈ c.timers

/-- The package is on its way to a write. -/
def Carries (c : AsioClient M) (p : PackagePtr M) : Prop :=
  .startWrite p ∈ c.posted ∨ p ∈ c.pendingList

/-- The postMessage of put `n` has returned eSuccess or has not returned yet. -/
def Open (c : AsioClient M) (n : ℕ) : Prop :=
  n ∈ c.accepted ∨ ∃ call ∈ c.calls, call.put = some n

instance (c : AsioClient M) (n : ℕ) : Decidable (c.Open n) :=
  inferInstanceAs (Decidable (_ ∨ _))

structure AnswerInv (c : AsioClient M) : Prop where
  /-- An open request stays cached until it is answered. -/
  cached : ∀ n, c.Open n → ∀ pac, c.puts[n]? = some pac →
    c.Answered n ∨ c.requestMessage.cache pac.header.msgId = some ⟨pac, n⟩
  /-- A package with the number of a put is the one that was put. -/
  numbered : ∀ p, c.Carries p ∨ p ∈ c.calls → ∀ n, p.put = some n → c.puts[n]? = some p.pac
  covered : ∀ n ∈ c.accepted, ∃ pac, c.puts[n]? = some pac ∧
    (c.Answered n ∨ (∃ p, c.Carries p ∧ p.put = some n) ∨ (pac.header.msgId, n) ∈ c.timers)

/-- Steps that neither put, answer nor arm, and lose no package. -/
theorem AnswerInv.frame (h : AnswerInv c) (hputs : d.puts = c.puts)
    (hcache : d.requestMessage = c.requestMessage) (hinvoked : d.invoked = c.invoked)
    (haccepted : d.accepted = c.accepted) (htimers : d.timers = c.timers)
    (hcalls : d.calls = c.calls) (hkept : ∀ p, c.Carries p → d.Carries p)
    (hback : ∀ p, d.Carries p → c.Carries p ∨ p.put = none) : AnswerInv d where
  cached n hopen pac hput := by
    rw [hputs] at hput
    rw [Open, haccepted, hcalls] at hopen
    rw [Answered, hinvoked, hcache]
    exact h.cached n hopen pac hput
  numbered p hp n hn := by
    rw [hputs]
    rw [hcalls] at hp
    rcases hp with hp | hp
    · rcases hback p hp with hold | hnone
      · exact h.numbered p (Or.inl hold) n hn
      · simp [hnone] at hn
    · exact h.numbered p (Or.inr hp) n hn
  covered n hn := by
    rw [haccepted] at hn
    rw [hputs, Answered, hinvoked, htimers]
    obtain ⟨pac, hput, hdone | ⟨p, hp, hnum⟩ | harmed⟩ := h.covered n hn
    · exact ⟨pac, hput, Or.inl hdone⟩
    · exact ⟨pac, hput, Or.inr (Or.inl ⟨p, hkept p hp, hnum⟩)⟩
    · exact ⟨pac, hput, Or.inr (Or.inr harmed)⟩

/-- Posting a package that belongs to no request, or a doClose. -/
theorem AnswerInv.post (h : AnswerInv c) (more : List (Posted M))
    (hmore : ∀ p, .startWrite p ∈ more → p.put = none) :
    AnswerInv { c with posted := c.posted ++ more } := by
  refine h.frame rfl rfl rfl rfl rfl rfl ?_ ?_
  · rintro p (hp | hp)
    · exact Or.inl (List.mem_append_left _ hp)
    · exact Or.inr hp
  · rintro p (hp | hp)
    · rcases List.mem_append.mp hp with hp | hp
      · exact Or.inl (Or.inl hp)
      · exact Or.inr (hmore p hp)
    · exact Or.inl (Or.inr hp)

theorem AnswerInv.postPackage (h : AnswerInv c) (pac : Package M) :
    AnswerInv (c.postPackage ⟨pac, none⟩).2 := by
  rcases postPackage_eq c ⟨pac, none⟩ with heq | heq | heq <;> rw [heq]
  · exact h
  · exact h
  · refine h.post [.startWrite ⟨pac, none⟩] fun p hp => ?_
    rw [List.mem_singleton, Posted.startWrite.injEq] at hp
    rw [hp]

/-- A put under an id that no open request has in the cache. -/
theorem AnswerInv.postMessage (h : AnswerInv c) (b : Build M) (isOrder : Bool) (msg : M)
    (hfree : ∀ data ∈ c.requestMessage.cache c.nextId, ¬ c.Open data.res) :
    AnswerInv (c.postMessage b isOrder msg) where
  cached n hopen pac hput := by
    by_cases hn : n < c.puts.length
    · have hold : c.puts[n]? = some pac := by
        rwa [AsioClient.postMessage, List.getElem?_append_left hn] at hput
      have hopen : c.Open n := by
        refine hopen.imp_right ?_
        rintro ⟨call, hcall, hnum⟩
        rcases List.mem_append.mp hcall with hcall | hcall
        · exact ⟨call, hcall, hnum⟩
        · rw [List.mem_singleton] at hcall
          subst hcall
          exact absurd (Option.some.inj hnum) (Nat.ne_of_gt hn)
      refine (h.cached n hopen pac hold).imp_right fun hcache => ?_
      have hne : pac.header.msgId ≠ c.nextId := by
        intro heq
        rw [heq] at hcache
        exact hfree _ hcache hopen
      exact (RequestMessage.put_cache_of_ne _ _ _ hne).trans hcache
    · obtain ⟨hlt, hpac⟩ := List.getElem?_eq_some_iff.mp hput
      simp only [AsioClient.postMessage, List.length_append, List.length_singleton] at hlt
      obtain rfl : n = c.puts.length := by omega
      simp only [AsioClient.postMessage, List.getElem_concat_length] at hpac
      right
      rw [← hpac]
      exact RequestMessage.put_cache_self ..
  numbered p hp n hn := by
    rcases hp with hp | hp
    · exact Pending.getElem?_of_initial (List.prefix_append _ _) (h.numbered p (Or.inl hp) n hn)
    · rcases List.mem_append.mp hp with hp | hp
      · exact Pending.getElem?_of_initial (List.prefix_append _ _) (h.numbered p (Or.inr hp) n hn)
      · rw [List.mem_singleton] at hp
        subst hp
        obtain rfl := Option.some.inj hn
        simp [AsioClient.postMessage]
  covered n hn := by
    obtain ⟨pac, hput, hcover⟩ := h.covered n hn
    exact ⟨pac, Pending.getElem?_of_initial (List.prefix_append _ _) hput, hcover⟩

theorem AnswerInv.postCall (h : AnswerInv c) {i : ℕ} {call : PackagePtr M}
    (hget : c.calls[i]? = some call) : AnswerInv (c.postCall i call) := by
  have hsub : ∀ p ∈ c.calls.eraseIdx i, p ∈ c.calls := fun p hp => List.mem_of_mem_eraseIdx hp
  have hcall := h.numbered call (Or.inr (List.mem_of_getElem? hget))
  rcases postCall_eq c i call with heq | heq <;> rw [heq]
  · refine ⟨?_, fun p hp => h.numbered p (hp.imp_right (hsub p)), h.covered⟩
    rintro n (hn | ⟨other, hother, hnum⟩)
    · exact h.cached n (Or.inl hn)
    · exact h.cached n (Or.inr ⟨other, hsub other hother, hnum⟩)
  · refine ⟨?_, ?_, ?_⟩
    · rintro n (hn | ⟨other, hother, hnum⟩)
      · rcases List.mem_append.mp hn with hn | hn
        · exact h.cached n (Or.inl hn)
        · exact h.cached n (Or.inr ⟨call, List.mem_of_getElem? hget, Option.mem_toList.mp hn⟩)
      · exact h.cached n (Or.inr ⟨other, hsub other hother, hnum⟩)
    · rintro p ((hp | hp) | hp)
      · rcases List.mem_append.mp hp with hp | hp
        · exact h.numbered p (Or.inl (Or.inl hp))
        · rw [List.mem_singleton, Posted.startWrite.injEq] at hp
          subst hp
          exact hcall
      · exact h.numbered p (Or.inl (Or.inr hp))
      · exact h.numbered p (Or.inr (hsub p hp))
    · intro n hn
      rcases List.mem_append.mp hn with hn | hn
      · obtain ⟨pac, hput, hdone | ⟨p, hp, hnum⟩ | harmed⟩ := h.covered n hn
        · exact ⟨pac, hput, Or.inl hdone⟩
        · exact ⟨pac, hput, Or.inr (Or.inl ⟨p, hp.imp_left (List.mem_append_left _), hnum⟩)⟩
        · exact ⟨pac, hput, Or.inr (Or.inr harmed)⟩
      · have hnum : call.put = some n := Option.mem_toList.mp hn
        refine ⟨call.pac, hcall n hnum, Or.inr (Or.inl ⟨call, Or.inl ?_, hnum⟩)⟩
        exact List.mem_append_right _ (List.mem_singleton.mpr rfl)

/-- A posted startWrite moves its package to the list. -/
theorem AnswerInv.startWrite (h : AnswerInv c) {i : ℕ} {p : PackagePtr M}
    (hget : c.posted[i]? = some (.startWrite p))
    (hrun : { c with posted := c.posted.eraseIdx i }.startWrite cfg p = some d) :
    AnswerInv d := by
  obtain rfl := startWrite_eq hrun
  refine h.frame rfl rfl rfl rfl rfl rfl ?_ ?_
  · rintro q (hq | hq)
    · rcases Pending.eq_or_mem_eraseIdx hget hq with heq | hq
      · rw [Posted.startWrite.injEq] at heq
        subst heq
        exact Or.inr (List.mem_append_right _ (List.mem_singleton.mpr rfl))
      · exact Or.inl hq
    · exact Or.inr (List.mem_append_left _ hq)
  · rintro q (hq | hq)
    · exact Or.inl (Or.inl (List.mem_of_mem_eraseIdx hq))
    · rcases List.mem_append.mp hq with hq | hq
      · exact Or.inl (Or.inr hq)
      · rw [List.mem_singleton] at hq
        subst hq
        exact Or.inl (Or.inl (List.mem_of_getElem? hget))

/-- Running a doClose loses no package. -/
theorem AnswerInv.doClose (h : AnswerInv c) {i : ℕ} (hget : c.posted[i]? = some .doClose) :
    AnswerInv ({ c with posted := c.posted.eraseIdx i }.doClose cfg) := by
  rw [doClose_frame]
  refine h.frame rfl rfl rfl rfl rfl rfl ?_ ?_
  · rintro q (hq | hq)
    · rcases Pending.eq_or_mem_eraseIdx hget hq with heq | hq
      · simp at heq
      · exact Or.inl hq
    · exact Or.inr hq
  · rintro q (hq | hq)
    · exact Or.inl (Or.inl (List.mem_of_mem_eraseIdx hq))
    · exact Or.inl (Or.inr hq)

/-- The completed write of the front arms the timer of its request. -/
theorem AnswerInv.written (h : AnswerInv c) (hflow : Flowing c) {i : ℕ} {p : PackagePtr M}
    (hget : c.writes[i]? = some p) (hdone : c.writeDone cfg i true p = some d) :
    AnswerInv d := by
  rcases writeDone_eq hdone with ⟨hfalse, _⟩ | ⟨_, rfl⟩
  · simp at hfalse
  have hfront : c.pendingList.head? = some p := by
    have hmem := List.mem_of_getElem? hget
    rw [hflow, List.take_one, Option.mem_toList] at hmem
    exact hmem
  have hlist : c.pendingList = p :: c.pendingList.tail := (List.cons_head?_tail hfront).symm
  have hsub : ∀ q, q ∈ c.pendingList.tail → q ∈ c.pendingList := fun q hq =>
    List.mem_of_mem_tail hq
  refine ⟨h.cached, ?_, ?_⟩
  · rintro q ((hq | hq) | hq)
    · exact h.numbered q (Or.inl (Or.inl hq))
    · exact h.numbered q (Or.inl (Or.inr (hsub q hq)))
    · exact h.numbered q (Or.inr hq)
  · intro n hn
    obtain ⟨pac, hput, hans | ⟨q, hq | hq, hnum⟩ | harmed⟩ := h.covered n hn
    · exact ⟨pac, hput, Or.inl hans⟩
    · exact ⟨pac, hput, Or.inr (Or.inl ⟨q, Or.inl hq, hnum⟩)⟩
    · rw [hlist, List.mem_cons] at hq
      rcases hq with rfl | hq
      · -- the front itself: its entry is still cached, so the completion arms its timer
        have hpac := h.numbered q (Or.inl (Or.inr (List.mem_of_mem_head? hfront))) n hnum
        rcases h.cached n (Or.inl hn) q.pac hpac with hans | hcache
        · exact ⟨pac, hput, Or.inl hans⟩
        · refine ⟨q.pac, hpac, Or.inr (Or.inr (List.mem_append_right _ ?_))⟩
          simp [hcache]
      · exact ⟨pac, hput, Or.inr (Or.inl ⟨q, Or.inr hq, hnum⟩)⟩
    · exact ⟨pac, hput, Or.inr (Or.inr (List.mem_append_left _ harmed))⟩

/-- Taking the entry of `msgid` out of the cache answers its request. -/
theorem AnswerInv.pick (h : AnswerInv c) (msgid : BitVec 32)
    (hcache : d.requestMessage = (c.requestMessage.pick msgid).2) (hputs : d.puts = c.puts)
    (haccepted : d.accepted = c.accepted) (hcalls : d.calls = c.calls)
    (hcarries : ∀ p, d.Carries p ↔ c.Carries p)
    (htimers : ∀ wait ∈ c.timers, wait ∈ d.timers ∨ wait.1 = msgid)
    (hkept : ∀ n, c.Answered n → d.Answered n)
    (hpicked : ∀ data, c.requestMessage.cache msgid = some data → d.Answered data.res) :
    AnswerInv d where
  cached n hopen pac hput := by
    rw [hputs] at hput
    rw [Open, haccepted, hcalls] at hopen
    rcases h.cached n hopen pac hput with hans | hentry
    · exact Or.inl (hkept n hans)
    · by_cases heq : pac.header.msgId = msgid
      · exact Or.inl (hpicked ⟨pac, n⟩ (heq ▸ hentry))
      · right
        rw [hcache, RequestMessage.pick_cache_of_ne _ heq]
        exact hentry
  numbered p hp n hn := by
    rw [hcarries, hcalls] at hp
    rw [hputs]
    exact h.numbered p hp n hn
  covered n hn := by
    rw [haccepted] at hn
    rw [hputs]
    obtain ⟨pac, hput, hans | ⟨p, hp, hnum⟩ | harmed⟩ := h.covered n hn
    · exact ⟨pac, hput, Or.inl (hkept n hans)⟩
    · exact ⟨pac, hput, Or.inr (Or.inl ⟨p, (hcarries p).mpr hp, hnum⟩)⟩
    · rcases htimers _ harmed with harmed | heq
      · exact ⟨pac, hput, Or.inr (Or.inr harmed)⟩
      · rcases h.cached n (Or.inl hn) pac hput with hans | hentry
        · exact ⟨pac, hput, Or.inl (hkept n hans)⟩
        · exact ⟨pac, hput, Or.inl (hpicked ⟨pac, n⟩ (heq ▸ hentry))⟩

theorem Answered.append {n : ℕ} (h : c.Answered n) {more : List (Invocation M)}
    (hinvoked : d.invoked = c.invoked ++ more) : d.Answered n := by
  obtain ⟨inv, hinv, hres⟩ := h
  exact ⟨inv, hinvoked ▸ List.mem_append_left _ hinv, hres⟩

theorem AnswerInv.timerExpired (h : AnswerInv c) {i : ℕ} {wait : BitVec 32 × ℕ}
    (hget : c.timers[i]? = some wait) : AnswerInv (c.timerExpired i wait) := by
  refine h.pick wait.1 rfl rfl rfl rfl (fun _ => Iff.rfl) ?_ ?_ ?_
  · intro other hother
    rcases Pending.eq_or_mem_eraseIdx hget hother with rfl | hother
    · exact Or.inr rfl
    · exact Or.inl hother
  · exact fun n hans => hans.append rfl
  · intro data hdata
    refine ⟨⟨data.res, .eTimeout, data.pac, none⟩, ?_, rfl⟩
    rw [timerExpired_invoked, RequestMessage.onTimeout_eq, hdata]
    simp

theorem AnswerInv.timerAborted (h : AnswerInv c) {i : ℕ} {wait : BitVec 32 × ℕ}
    (hget : c.timers[i]? = some wait)
    (hgone : (c.requestMessage.cache wait.1).map RequestData.res ≠ some wait.2) :
    AnswerInv { c with timers := c.timers.eraseIdx i } := by
  refine ⟨h.cached, h.numbered, ?_⟩
  intro n hn
  obtain ⟨pac, hput, hans | hcarried | harmed⟩ := h.covered n hn
  · exact ⟨pac, hput, Or.inl hans⟩
  · exact ⟨pac, hput, Or.inr (Or.inl hcarried)⟩
  · rcases Pending.eq_or_mem_eraseIdx hget harmed with heq | hmem
    · rcases h.cached n (Or.inl hn) pac hput with hans | hentry
      · exact ⟨pac, hput, Or.inl hans⟩
      · rw [← heq] at hgone
        simp [hentry] at hgone
    · exact ⟨pac, hput, Or.inr (Or.inr hmem)⟩

theorem AnswerInv.doResponse (h : AnswerInv c) (pack : Package M) (rest : List (Package M)) :
    AnswerInv (c.doResponse pack rest) := by
  by_cases htype : pack.header.msgType = MsgType.REQREP.code
  · refine h.pick pack.header.msgId ?_ rfl rfl rfl (fun _ => Iff.rfl) (fun _ h => Or.inl h) ?_ ?_
    · rw [AsioClient.doResponse, RequestMessage.doResponse_eq _ htype]
    · exact fun n hans => hans.append rfl
    · intro data hdata
      refine ⟨⟨data.res, .eSuccess, data.pac, some pack⟩, ?_, rfl⟩
      rw [doResponse_invoked, RequestMessage.doResponse_eq _ htype, hdata]
      simp
  · have hnothing : c.doResponse pack rest = { c with responses := rest } := by
      simp [AsioClient.doResponse, RequestMessage.doResponse_other _ htype]
    rw [hnothing]
    exact ⟨h.cached, h.numbered, h.covered⟩

/-- No request is put under an id that an open request still has in the cache. -/
def NoIdWaiting (c : AsioClient M) : ClientAction M → Prop
  | .postMessage _ _ => ∀ data ∈ c.requestMessage.cache c.nextId, ¬ c.Open data.res
  | _ => True

instance (c : AsioClient M) (a : ClientAction M) : Decidable (NoIdWaiting c a) :=
  match a with
  | .postMessage _ _ =>
    inferInstanceAs (Decidable (∀ data ∈ c.requestMessage.cache c.nextId, ¬ c.Open data.res))
  | .postCall .. | .publishMessage .. | .postPackage .. | .stop | .runPosted .. | .doConnect ..
  | .readError | .doRead .. | .writeDone .. | .timerAborted .. | .timerExpired ..
  | .doResponse => inferInstanceAs (Decidable True)

def Undisturbed (cfg : ClientConfig M) (c : AsioClient M) (a : ClientAction M) : Prop :=
  NoWriteFailure cfg c a ∧ NoIdWaiting c a

instance (c : AsioClient M) (a : ClientAction M) : Decidable (Undisturbed cfg c a) :=
  inferInstanceAs (Decidable (_ ∧ _))

theorem AnswerInv.step (h : AnswerInv c) (hflow : Flowing c) (hok : Undisturbed cfg c a)
    (hstep : Steps cfg c a d) : AnswerInv d := by
  cases hstep with
  | postMessage isOrder msg => exact h.postMessage _ _ _ hok.2
  | postCall hget => exact h.postCall hget
  | publishMessage msg =>
    exact AnswerInv.postPackage (c := { c with id := c.id + 1 })
      ⟨h.cached, h.numbered, h.covered⟩ _
  | postPackage pac => exact h.postPackage pac
  | stop =>
    exact AnswerInv.post (c := { c with stopped := true }) ⟨h.cached, h.numbered, h.covered⟩
      [.doClose] (by simp)
  | startWrite hget hrun => exact h.startWrite hget hrun
  | doClose hget => exact h.doClose hget
  | doConnect success _ =>
    rw [doConnect_frame]
    exact ⟨h.cached, h.numbered, h.covered⟩
  | readError _ =>
    exact AnswerInv.post (c := { c with reads := c.reads - 1 })
      ⟨h.cached, h.numbered, h.covered⟩ [.doClose] (by simp)
  | doRead _ hread =>
    obtain ⟨_, hd⟩ := Option.ite_none_left_eq_some.mp hread
    obtain rfl := Option.some.inj hd
    exact ⟨h.cached, h.numbered, h.covered⟩
  | @writeDone i success p _ hget hdone =>
    obtain rfl : success = true := by simpa [writeFails] using hok.1.1
    exact h.written hflow hget hdone
  | timerAborted hget hgone => exact h.timerAborted hget hgone
  | timerExpired hget => exact h.timerExpired hget
  | doResponse _ => exact h.doResponse _ _

theorem answerInv_reachable (h : (machine cfg).ReachableWhen (Undisturbed cfg) c) :
    Flowing c ∧ AnswerInv c := by
  refine Machine.ReachableWhen.invariant (I := fun c => Flowing c ∧ AnswerInv c) ?_ ?_ h
  · refine ⟨rfl, ⟨?_, ?_, fun _ hn => nomatch hn⟩⟩
    · exact fun n _ pac hput => nomatch hput
    · rintro p ((hp | hp) | hp) <;> exact nomatch hp
  · intro c a d ⟨hflow, hinv⟩ hok hstep
    exact ⟨hflow.step hok.1 (.of_step hstep), hinv.step hflow hok (.of_step hstep)⟩

/-- In an undisturbed run every accepted request has something that leads to its callback. -/
theorem noAbandonedRequest_of_undisturbed
    (h : (machine cfg).ReachableWhen (Undisturbed cfg) c) : NoAbandonedRequest c := by
  obtain ⟨hflow, hinv⟩ := answerInv_reachable h
  intro n hn
  obtain ⟨pac, hput, hans | ⟨p, hp | hp, hnum⟩ | harmed⟩ := hinv.covered n hn
  · exact Or.inl hans
  · exact Or.inr (Or.inl ⟨p, hp, hnum⟩)
  · refine Or.inr (Or.inr (Or.inl ⟨⟨p, hp, hnum⟩, ?_⟩))
    rw [hflow]
    simp [List.ne_nil_of_mem hp]
  · rcases hinv.cached n (Or.inl hn) pac hput with hans | hentry
    · exact Or.inl hans
    · exact Or.inr (Or.inr (Or.inr ⟨_, _, hentry, rfl, harmed⟩))

/-- A request written, answered by nobody and timed out. -/
theorem noAbandonedRequest_ping :
    ∃ c : AsioClient PingPong, c.accepted = [0, 1] ∧ c.invoked.map Invocation.res = [0] ∧
      NoAbandonedRequest c := by
  let labels : List (ClientAction PingPong) := [.doConnect true,
    .postMessage false PingPong.blank, .postCall 0, .postMessage false PingPong.blank,
    .postCall 0, .runPosted 0, .runPosted 0, .writeDone 0 true, .timerExpired 0]
  have hrun : ∃ c, (machine pingConfig).run (Undisturbed pingConfig) { connects := 1 } labels =
      some c ∧ c.accepted = [0, 1] ∧ c.invoked.map Invocation.res = [0] := ⟨_, rfl, rfl, rfl⟩
  obtain ⟨c, hc, haccepted, hinvoked⟩ := hrun
  have hreach : (machine pingConfig).ReachableWhen (Undisturbed pingConfig) c :=
    Machine.reachableWhen_of_run labels hc
  exact ⟨c, haccepted, hinvoked, noAbandonedRequest_of_undisturbed hreach⟩

/-- The write of the first of two accepted requests fails; the second waits in the list, with no
write outstanding and no timer. -/
theorem noAbandonedRequest_fails :
    ¬ ∀ c : AsioClient PingPong, (machine pingConfig).Reachable c → NoAbandonedRequest c := by
  intro hall
  have hrun : ∃ c : AsioClient PingPong, (machine pingConfig).run (fun _ _ => True)
      { connects := 1 } [.doConnect true, .postMessage false PingPong.blank, .postCall 0,
        .postMessage false PingPong.blank, .postCall 0, .runPosted 0, .runPosted 0,
        .writeDone 0 false] = some c ∧
      c.accepted = [0, 1] ∧ c.invoked = [] ∧ c.posted = [.doClose] ∧ c.writes = [] ∧
      c.timers = [(1, 0)] :=
    ⟨_, rfl, rfl, rfl, rfl, rfl, rfl⟩
  obtain ⟨c, hc, haccepted, hinvoked, hposted, hwrites, htimers⟩ := hrun
  rcases hall c (Machine.reachableWhen_of_run _ hc) 1 (by simp [haccepted]) with
    ⟨inv, hinv, _⟩ | ⟨p, hp, _⟩ | ⟨_, hbusy⟩ | ⟨_, _, _, _, harmed⟩
  · simp [hinvoked] at hinv
  · simp [hposted] at hp
  · exact hbusy hwrites
  · simp [htimers] at harmed

end AsioClient

end AsioMsg
