import AsioMsg.ClientRequests
import AsioMsg.PackageChannel

/-!
The callbacks of a client. None is invoked twice, whatever ids the client uses.
In an orderly run, where every request has an id of its own, a request is in
the cache until its callback has been invoked and never after.
-/

namespace AsioMsg

variable {M : Type}

namespace AsioClient

variable {cfg : ClientConfig M} {c d : AsioClient M} {a : ClientAction M}

/-- What is posted fits, a request under an id that no earlier one has; packages that are posted
ready-made are no requests; and there is one connection. -/
def Orderly (cfg : ClientConfig M) (c : AsioClient M) : ClientAction M → Prop
  | .postMessage _ msg => cfg.build.Fits cfg.enableCompressSize msg ∧
      c.nextId ∉ c.puts.map fun p => p.header.msgId
  | .publishMessage msg => cfg.build.Fits cfg.enableCompressSize msg
  | .postPackage pac => cfg.build.Postable cfg.enableCompressSize pac ∧
      pac.header.msgType ≠ MsgType.REQREP.code
  | .doConnect success => success = true → c.received = []
  | _ => True

instance (c : AsioClient M) (a : ClientAction M) : Decidable (Orderly cfg c a) :=
  match a with
  | .postMessage _ msg => inferInstanceAs (Decidable (cfg.build.Fits cfg.enableCompressSize msg ∧
      c.nextId ∉ c.puts.map fun p => p.header.msgId))
  | .publishMessage msg =>
    inferInstanceAs (Decidable (cfg.build.Fits cfg.enableCompressSize msg))
  | .postPackage pac =>
    inferInstanceAs (Decidable (cfg.build.Postable cfg.enableCompressSize pac ∧
      pac.header.msgType ≠ MsgType.REQREP.code))
  | .doConnect success => decidable_of_iff (success = true → c.received.isEmpty = true)
      (by rw [List.isEmpty_iff]; rfl)
  | .postCall .. | .stop | .runPosted .. | .readError | .doRead .. | .writeDone ..
  | .timerAborted .. | .timerExpired .. | .doResponse => inferInstanceAs (Decidable True)

/-- The callback of put `n` has been invoked. -/
def CalledBack (c : AsioClient M) (n : ℕ) : Prop := n ∈ c.invoked.map Invocation.res

/-- A step leaves the requests alone and hands on what it reads, or it is one of the three that
deal with requests. -/
theorem Steps.request_cases (h : Steps cfg c a d) :
    (d.requestMessage = c.requestMessage ∧ d.puts = c.puts ∧ d.invoked = c.invoked ∧
      ∃ more, d.handed = c.handed ++ more ∧ d.responses = c.responses ++ more) ∨
    (∃ isOrder msg, a = .postMessage isOrder msg ∧ d = c.postMessage cfg.build isOrder msg) ∨
    (∃ i wait, d = c.timerExpired i wait) ∨
    ∃ pack rest, c.responses = pack :: rest ∧ d = c.doResponse pack rest := by
  have hnone : c.handed = c.handed ++ [] ∧ c.responses = c.responses ++ [] := by simp
  cases h with
  | postMessage isOrder msg => exact Or.inr (Or.inl ⟨isOrder, msg, rfl, rfl⟩)
  | timerExpired _ => exact Or.inr (Or.inr (Or.inl ⟨_, _, rfl⟩))
  | doResponse hresponses => exact Or.inr (Or.inr (Or.inr ⟨_, _, hresponses, rfl⟩))
  | @postCall i call _ =>
    rcases postCall_eq c i call with hd | hd <;> rw [hd] <;>
      exact Or.inl ⟨rfl, rfl, rfl, [], hnone⟩
  | publishMessage msg =>
    rw [publishMessage_frame]
    exact Or.inl ⟨rfl, rfl, rfl, [], hnone⟩
  | postPackage pac =>
    rw [postPackage_frame]
    exact Or.inl ⟨rfl, rfl, rfl, [], hnone⟩
  | startWrite _ hrun =>
    obtain rfl := startWrite_eq hrun
    exact Or.inl ⟨rfl, rfl, rfl, [], hnone⟩
  | doClose _ =>
    rw [doClose_frame]
    exact Or.inl ⟨rfl, rfl, rfl, [], hnone⟩
  | doConnect success _ =>
    rw [doConnect_frame]
    exact Or.inl ⟨rfl, rfl, rfl, [], hnone⟩
  | doRead _ hread =>
    obtain ⟨_, hd⟩ := Option.ite_none_left_eq_some.mp hread
    obtain rfl := Option.some.inj hd
    exact Or.inl ⟨rfl, rfl, rfl, _, rfl, rfl⟩
  | writeDone _ hdone =>
    rcases writeDone_eq hdone with ⟨_, rfl⟩ | ⟨_, rfl⟩ <;>
      exact Or.inl ⟨rfl, rfl, rfl, [], hnone⟩
  | stop | readError _ | timerAborted _ _ => exact Or.inl ⟨rfl, rfl, rfl, [], hnone⟩

/-- A callback in the cache is that of its put and has not been invoked; none is invoked twice.
Ids may repeat: a put under an old id drops the callback that is still there. -/
structure OnceInv (c : AsioClient M) : Prop where
  cached : ∀ msgid data, c.requestMessage.cache msgid = some data →
    c.puts[data.res]? = some data.pac ∧ data.pac.header.msgId = msgid ∧ ¬ c.CalledBack data.res
  request : ∀ inv ∈ c.invoked, c.puts[inv.res]? = some inv.req
  once : (c.invoked.map Invocation.res).Nodup

theorem OnceInv.frame (h : OnceInv c) (hcache : d.requestMessage = c.requestMessage)
    (hputs : d.puts = c.puts) (hinvoked : d.invoked = c.invoked) : OnceInv d := by
  obtain ⟨hcached, hrequest, honce⟩ := h
  unfold CalledBack at hcached
  rw [← hcache, ← hputs, ← hinvoked] at hcached
  rw [← hputs, ← hinvoked] at hrequest
  rw [← hinvoked] at honce
  exact ⟨hcached, hrequest, honce⟩

/-- Only puts that have been made are called back. -/
theorem OnceInv.lt_of_calledBack (h : OnceInv c) {n : ℕ} (hn : c.CalledBack n) :
    n < c.puts.length := by
  obtain ⟨inv, hinv, rfl⟩ := List.mem_map.mp hn
  exact (List.getElem?_eq_some_iff.mp (h.request inv hinv)).1

theorem OnceInv.postMessage (h : OnceInv c) (b : Build M) (isOrder : Bool) (msg : M) :
    OnceInv (c.postMessage b isOrder msg) := by
  refine ⟨?_, ?_, h.once⟩
  · intro msgid data hdata
    by_cases heq : msgid = c.nextId
    · subst heq
      have hself : (c.postMessage b isOrder msg).requestMessage.cache c.nextId =
          some ⟨makePackage b .REQREP isOrder c.nextId msg, c.puts.length⟩ :=
        RequestMessage.put_cache_self ..
      obtain rfl := Option.some.inj (hself.symm.trans hdata)
      exact ⟨by simp [AsioClient.postMessage], rfl,
        fun hcalled => absurd (h.lt_of_calledBack hcalled) (Nat.lt_irrefl _)⟩
    · have hold : c.requestMessage.cache msgid = some data :=
        (RequestMessage.put_cache_of_ne _ _ _ heq).symm.trans hdata
      obtain ⟨hput, hid, hopen⟩ := h.cached msgid data hold
      exact ⟨Pending.getElem?_of_initial (List.prefix_append _ _) hput, hid, hopen⟩
  · intro inv hinv
    exact Pending.getElem?_of_initial (List.prefix_append _ _) (h.request inv hinv)

theorem calledBack_pick {msgid : BitVec 32} {call : RequestData M → Invocation M}
    (hcall : ∀ data, (call data).res = data.res ∧ (call data).req = data.pac)
    (hinvoked : d.invoked = c.invoked ++ ((c.requestMessage.cache msgid).map call).toList)
    (n : ℕ) : d.CalledBack n ↔ c.CalledBack n ∨
      ∃ data, c.requestMessage.cache msgid = some data ∧ data.res = n := by
  rw [CalledBack, hinvoked, List.map_append, List.mem_append, CalledBack]
  cases hdata : c.requestMessage.cache msgid with
  | none => simp
  | some data => simp [(hcall data).1, eq_comm]

/-- The entry of `msgid` is taken out of the cache and its callback invoked. -/
theorem OnceInv.pick (h : OnceInv c) (msgid : BitVec 32) (call : RequestData M → Invocation M)
    (hcall : ∀ data, (call data).res = data.res ∧ (call data).req = data.pac)
    (hcache : d.requestMessage = (c.requestMessage.pick msgid).2) (hputs : d.puts = c.puts)
    (hinvoked : d.invoked =
      c.invoked ++ ((c.requestMessage.cache msgid).map call).toList) : OnceInv d := by
  refine ⟨?_, ?_, ?_⟩
  · intro other data hdata
    rw [hcache] at hdata
    by_cases heq : other = msgid
    · subst heq
      simp at hdata
    · rw [RequestMessage.pick_cache_of_ne _ heq] at hdata
      obtain ⟨hput, hid, hopen⟩ := h.cached other data hdata
      rw [hputs, calledBack_pick hcall hinvoked]
      refine ⟨hput, hid, ?_⟩
      rintro (hdone | ⟨taken, htaken, hres⟩)
      · exact hopen hdone
      · -- one put has one id
        obtain ⟨htput, htid, _⟩ := h.cached msgid taken htaken
        rw [hres, hput, Option.some.injEq] at htput
        exact heq (hid ▸ htid ▸ htput ▸ rfl)
  · intro inv hinv
    rw [hinvoked, List.mem_append] at hinv
    rw [hputs]
    rcases hinv with hinv | hinv
    · exact h.request inv hinv
    · obtain ⟨data, hdata, rfl⟩ := Option.map_eq_some_iff.mp (Option.mem_toList.mp hinv)
      rw [(hcall data).1, (hcall data).2]
      exact (h.cached msgid data hdata).1
  · rw [hinvoked, List.map_append]
    cases hdata : c.requestMessage.cache msgid with
    | none => simpa using h.once
    | some data =>
      refine List.nodup_append.mpr ⟨h.once, by simp, ?_⟩
      intro n hn m hm heq
      simp only [Option.map_some, Option.toList_some, List.map_cons, List.map_nil,
        List.mem_singleton, (hcall data).1] at hm
      exact (h.cached msgid data hdata).2.2 (hm ▸ heq ▸ hn)

/-- A step that takes an entry out of the cache, if it does, invokes its callback. -/
theorem Steps.pick_cases (h : Steps cfg c a d) :
    (d.requestMessage = c.requestMessage ∧ d.puts = c.puts ∧ d.invoked = c.invoked) ∨
    (∃ isOrder msg, a = .postMessage isOrder msg ∧ d = c.postMessage cfg.build isOrder msg) ∨
    ∃ msgid, ∃ call : RequestData M → Invocation M,
      (∀ data, (call data).res = data.res ∧ (call data).req = data.pac) ∧
      d.requestMessage = (c.requestMessage.pick msgid).2 ∧ d.puts = c.puts ∧
      d.invoked = c.invoked ++ ((c.requestMessage.cache msgid).map call).toList := by
  rcases h.request_cases with ⟨hcache, hputs, hinvoked, _⟩ | ⟨isOrder, msg, ha, hd⟩ |
    ⟨i, wait, rfl⟩ | ⟨pack, rest, _, rfl⟩
  · exact Or.inl ⟨hcache, hputs, hinvoked⟩
  · exact Or.inr (Or.inl ⟨isOrder, msg, ha, hd⟩)
  · exact Or.inr (Or.inr ⟨wait.1, fun data => ⟨data.res, .eTimeout, data.pac, none⟩,
      fun _ => ⟨rfl, rfl⟩, rfl, rfl, c.timerExpired_invoked i wait⟩)
  · by_cases htype : pack.header.msgType = MsgType.REQREP.code
    · have heq := c.requestMessage.doResponse_eq htype
      refine Or.inr (Or.inr ⟨pack.header.msgId,
        fun data => ⟨data.res, .eSuccess, data.pac, some pack⟩, fun _ => ⟨rfl, rfl⟩,
        congrArg Prod.snd heq, rfl, ?_⟩)
      rw [c.doResponse_invoked pack rest, heq]
    · have heq := c.requestMessage.doResponse_other htype
      refine Or.inl ⟨congrArg Prod.snd heq, rfl, ?_⟩
      rw [c.doResponse_invoked pack rest, heq]
      exact List.append_nil _

theorem OnceInv.step (h : OnceInv c) (hstep : Steps cfg c a d) : OnceInv d := by
  rcases hstep.pick_cases with ⟨hcache, hputs, hinvoked⟩ | ⟨isOrder, msg, rfl, rfl⟩ |
    ⟨msgid, call, hcall, hcache, hputs, hinvoked⟩
  · exact h.frame hcache hputs hinvoked
  · exact h.postMessage cfg.build isOrder msg
  · exact h.pick msgid call hcall hcache hputs hinvoked

theorem onceInv_init (connects : ℕ) : OnceInv ({ connects := connects } : AsioClient M) :=
  ⟨fun _ _ hdata => (nomatch hdata), fun _ hinv => (nomatch hinv), List.nodup_nil⟩

structure RequestInv (c : AsioClient M) : Prop extends OnceInv c where
  /-- No two requests have the same id. -/
  ids : ∀ (n m : ℕ) (p q : Package M), c.puts[n]? = some p → c.puts[m]? = some q →
    p.header.msgId = q.header.msgId → n = m
  /-- A request is in the cache or has been called back, and not both. -/
  waiting : ∀ n pac, c.puts[n]? = some pac →
    (c.CalledBack n ∧ c.requestMessage.cache pac.header.msgId = none) ∨
      (¬ c.CalledBack n ∧ c.requestMessage.cache pac.header.msgId = some ⟨pac, n⟩)
  reqrep : ∀ pac ∈ c.puts, pac.header.msgType = MsgType.REQREP.code

theorem RequestInv.frame (h : RequestInv c) (hcache : d.requestMessage = c.requestMessage)
    (hputs : d.puts = c.puts) (hinvoked : d.invoked = c.invoked) : RequestInv d := by
  obtain ⟨honce, hids, hwaiting, hreqrep⟩ := h
  unfold CalledBack at hwaiting
  rw [← hcache, ← hputs, ← hinvoked] at hwaiting
  rw [← hputs] at hids hreqrep
  exact ⟨honce.frame hcache hputs hinvoked, hids, hwaiting, hreqrep⟩

/-- A request under a new id. -/
theorem RequestInv.postMessage (h : RequestInv c) (b : Build M) (isOrder : Bool) (msg : M)
    (hfresh : c.nextId ∉ c.puts.map fun p => p.header.msgId) :
    RequestInv (c.postMessage b isOrder msg) := by
  have hnew : ∀ (n : ℕ) (p : Package M), c.puts[n]? = some p → p.header.msgId ≠ c.nextId := by
    intro n p hp heq
    exact hfresh (heq ▸ List.mem_map_of_mem (List.mem_of_getElem? hp))
  have hlast : ∀ (n : ℕ) (p : Package M), (c.postMessage b isOrder msg).puts[n]? = some p →
      c.puts[n]? = some p ∨
        (n = c.puts.length ∧ p = makePackage b .REQREP isOrder c.nextId msg) := by
    intro n p hp
    rcases Nat.lt_or_ge n c.puts.length with hn | hn
    · left
      rwa [AsioClient.postMessage, List.getElem?_append_left hn] at hp
    · right
      rw [AsioClient.postMessage, List.getElem?_append_right hn,
        List.getElem?_singleton] at hp
      split at hp
      · exact ⟨by omega, (Option.some.inj hp).symm⟩
      · simp at hp
  refine ⟨h.toOnceInv.postMessage b isOrder msg, ?_, ?_, ?_⟩
  · intro n m p q hp hq heq
    rcases hlast n p hp with hp | ⟨rfl, rfl⟩ <;> rcases hlast m q hq with hq | ⟨rfl, rfl⟩
    · exact h.ids n m p q hp hq heq
    · exact absurd heq (hnew n p hp)
    · exact absurd heq.symm (hnew m q hq)
    · rfl
  · intro n p hp
    rcases hlast n p hp with hp | ⟨rfl, rfl⟩
    · have hkept : (c.postMessage b isOrder msg).requestMessage.cache p.header.msgId =
          c.requestMessage.cache p.header.msgId :=
        RequestMessage.put_cache_of_ne _ _ _ (hnew n p hp)
      rw [hkept]
      exact h.waiting n p hp
    · exact Or.inr ⟨fun hcalled => absurd (h.lt_of_calledBack hcalled) (Nat.lt_irrefl _),
        RequestMessage.put_cache_self ..⟩
  · intro pac hpac
    rcases List.mem_append.mp hpac with hpac | hpac
    · exact h.reqrep pac hpac
    · rw [List.mem_singleton] at hpac
      rw [hpac]
      rfl

theorem RequestInv.pick (h : RequestInv c) (msgid : BitVec 32) (call : RequestData M → Invocation M)
    (hcall : ∀ data, (call data).res = data.res ∧ (call data).req = data.pac)
    (hcache : d.requestMessage = (c.requestMessage.pick msgid).2) (hputs : d.puts = c.puts)
    (hinvoked : d.invoked =
      c.invoked ++ ((c.requestMessage.cache msgid).map call).toList) : RequestInv d := by
  refine ⟨h.toOnceInv.pick msgid call hcall hcache hputs hinvoked, by rw [hputs]; exact h.ids, ?_,
    by rw [hputs]; exact h.reqrep⟩
  intro n pac hput
  rw [hputs] at hput
  rw [calledBack_pick hcall hinvoked, hcache]
  by_cases heq : pac.header.msgId = msgid
  · subst heq
    refine Or.inl ⟨?_, RequestMessage.pick_cache_self ..⟩
    rcases h.waiting n pac hput with ⟨hdone, _⟩ | ⟨_, hentry⟩
    · exact Or.inl hdone
    · exact Or.inr ⟨_, hentry, rfl⟩
  · rw [RequestMessage.pick_cache_of_ne _ heq]
    refine (h.waiting n pac hput).imp (fun hdone => ⟨Or.inl hdone.1, hdone.2⟩) ?_
    rintro ⟨hopen, hentry⟩
    refine ⟨?_, hentry⟩
    rintro (hdone | ⟨data, hdata, rfl⟩)
    · exact hopen hdone
    · obtain ⟨hdput, hid, _⟩ := h.cached msgid data hdata
      rw [hdput, Option.some.injEq] at hput
      exact heq (hput ▸ hid)

theorem RequestInv.step (h : RequestInv c) (hok : Orderly cfg c a) (hstep : Steps cfg c a d) :
    RequestInv d := by
  rcases hstep.pick_cases with ⟨hcache, hputs, hinvoked⟩ | ⟨isOrder, msg, rfl, rfl⟩ |
    ⟨msgid, call, hcall, hcache, hputs, hinvoked⟩
  · exact h.frame hcache hputs hinvoked
  · exact h.postMessage cfg.build isOrder msg hok.2
  · exact h.pick msgid call hcall hcache hputs hinvoked

theorem requestInv_reachable (h : (machine cfg).ReachableWhen (Orderly cfg) c) :
    RequestInv c := by
  refine Machine.ReachableWhen.invariant (I := RequestInv) ?_
    (fun _ _ _ hc hok hstep => hc.step hok (.of_step hstep)) h
  exact {
    toOnceInv := onceInv_init 1
    ids := fun _ _ _ _ hp => nomatch hp
    waiting := fun _ _ hput => nomatch hput
    reqrep := fun _ hpac => nomatch hpac }

theorem Steps.puts_initial (h : Steps cfg c a d) : c.puts <+: d.puts := by
  rcases h.request_cases with ⟨_, hputs, _⟩ | ⟨isOrder, msg, _, rfl⟩ | ⟨i, wait, rfl⟩ |
    ⟨pack, rest, _, rfl⟩
  · exact hputs ▸ List.prefix_rfl
  · exact List.prefix_append _ _
  · exact List.prefix_rfl
  · exact List.prefix_rfl

end AsioClient

end AsioMsg
