import AsioMsg.Heartbeat
import AsioMsg.RefusedPost

/-!
The heartbeat chains of a client. Each armed wait, each handler of an expired
wait and each request without its callback goes on to be one of the others.
A connect cancels the wait but neither the handler nor the request, and starts
a chain beside them.
-/

namespace AsioMsg

variable {M : Type}

namespace HeartbeatClient

open AsioClient

variable {cfg : HeartbeatConfig M} {s t : HeartbeatClient M} {a : HeartbeatAction M}

/-- The heartbeats on their way. A wait counts until its handler runs, or until it is cancelled. -/
def chains (s : HeartbeatClient M) : ℕ := s.waits + s.expired + s.awaiting

def OneChain (s : HeartbeatClient M) : Prop := s.chains ≤ 1

instance (s : HeartbeatClient M) : Decidable s.OneChain := inferInstanceAs (Decidable (_ ≤ _))

/-- A connect succeeds only while no heartbeat request waits for its callback and no expired wait
for its handler. -/
def ConnectsAlone (s : HeartbeatClient M) (a : HeartbeatAction M) : Prop :=
  connects a = true → s.expired = 0 ∧ s.awaiting = 0

instance (s : HeartbeatClient M) (a : HeartbeatAction M) : Decidable (s.ConnectsAlone a) :=
  inferInstanceAs (Decidable (_ → _))

section Awaits

variable {c d : AsioClient M} {heartbeats : List (BitVec 32 × ℕ)}

/-- No step makes an earlier request wait again. -/
theorem awaits_of_step (h : RequestStep c d) {heartbeat : BitVec 32 × ℕ}
    (hput : heartbeat.2 < c.puts.length) (hd : Awaits d heartbeat) : Awaits c heartbeat := by
  unfold Awaits at hd ⊢
  cases h with
  | same hcache _ _ => rwa [hcache] at hd
  | pick msgid _ hcache _ _ _ =>
    rw [hcache] at hd
    by_cases hid : heartbeat.1 = msgid
    · simp [hid] at hd
    · rwa [RequestMessage.pick_cache_of_ne _ hid] at hd
  | put p hcache _ _ =>
    rw [hcache] at hd
    by_cases hid : heartbeat.1 = p.header.msgId
    · rw [hid, RequestMessage.put_cache_self, Option.map_some, Option.some.injEq] at hd
      exact absurd hd (Nat.ne_of_gt hput)
    · rwa [RequestMessage.put_cache_of_ne _ _ _ hid] at hd

theorem countP_awaits_le (h : RequestStep c d)
    (hput : ∀ heartbeat ∈ heartbeats, heartbeat.2 < c.puts.length) :
    heartbeats.countP (Awaits d) ≤ heartbeats.countP (Awaits c) := by
  refine List.countP_mono_left fun heartbeat hmem hd => ?_
  rw [decide_eq_true_eq] at hd ⊢
  exact awaits_of_step h (hput heartbeat hmem) hd

/-- The request whose entry is taken out waits no more. -/
theorem countP_awaits_pick_lt (h : RequestStep c d)
    (hput : ∀ heartbeat ∈ heartbeats, heartbeat.2 < c.puts.length)
    {msgid : BitVec 32} {data : RequestData M} (hentry : c.requestMessage.cache msgid = some data)
    (hgone : d.requestMessage.cache msgid = none) (hmem : (msgid, data.res) ∈ heartbeats) :
    heartbeats.countP (Awaits d) < heartbeats.countP (Awaits c) := by
  obtain ⟨before, after, rfl⟩ := List.append_of_mem hmem
  have hbefore : before.countP (Awaits d) ≤ before.countP (Awaits c) :=
    countP_awaits_le h fun heartbeat hin => hput heartbeat (List.mem_append_left _ hin)
  have hafter : after.countP (Awaits d) ≤ after.countP (Awaits c) :=
    countP_awaits_le h fun heartbeat hin =>
      hput heartbeat (List.mem_append_right _ (List.mem_cons_of_mem _ hin))
  have hnow : ¬ Awaits d (msgid, data.res) := by simp [Awaits, hgone]
  have hthen : Awaits c (msgid, data.res) := by simp [Awaits, hentry]
  simp only [List.countP_append, List.countP_cons, hnow, hthen, decide_true, decide_false,
    Bool.false_eq_true, if_true, if_false]
  omega

end Awaits

/-- The entries of the cache and the heartbeat requests belong together. -/
structure Filed (c : AsioClient M) (heartbeats : List (BitVec 32 × ℕ)) : Prop where
  entries : c.Numbered
  put : ∀ heartbeat ∈ heartbeats, heartbeat.2 < c.puts.length
  id_eq : ∀ msgid data, c.requestMessage.cache msgid = some data →
    ∀ heartbeat ∈ heartbeats, heartbeat.2 = data.res → heartbeat.1 = msgid

section Filed

variable {c d : AsioClient M} {heartbeats : List (BitVec 32 × ℕ)}

theorem Filed.step (h : Filed c heartbeats) (hstep : RequestStep c d) : Filed d heartbeats := by
  refine ⟨h.entries.step hstep, ?_, ?_⟩
  · intro heartbeat hmem
    have hlt := h.put heartbeat hmem
    cases hstep with
    | same _ hputs _ | pick _ _ _ hputs _ _ => rwa [hputs]
    | put p _ hputs _ =>
      rw [hputs, List.length_append, List.length_singleton]
      exact Nat.lt_succ_of_lt hlt
  · intro msgid data hentry heartbeat hmem hres
    cases hstep with
    | same hcache _ _ =>
      rw [hcache] at hentry
      exact h.id_eq msgid data hentry heartbeat hmem hres
    | pick picked _ hcache _ _ _ =>
      rw [hcache] at hentry
      by_cases hid : msgid = picked
      · simp [hid] at hentry
      · rw [RequestMessage.pick_cache_of_ne _ hid] at hentry
        exact h.id_eq msgid data hentry heartbeat hmem hres
    | put p hcache _ _ =>
      rw [hcache] at hentry
      by_cases hid : msgid = p.header.msgId
      · rw [hid, RequestMessage.put_cache_self, Option.some.injEq] at hentry
        have hlt := h.put heartbeat hmem
        rw [hres, ← hentry] at hlt
        exact absurd hlt (Nat.lt_irrefl _)
      · rw [RequestMessage.put_cache_of_ne _ _ _ hid] at hentry
        exact h.id_eq msgid data hentry heartbeat hmem hres

/-- The put of doHeartbeat. -/
theorem Filed.heartbeat (h : Filed c heartbeats) (b : Build M) (msg : M) :
    Filed (c.postMessage b false msg) (heartbeats ++ [(c.nextId, c.puts.length)]) := by
  have hstep : RequestStep c (c.postMessage b false msg) := .put _ rfl rfl rfl
  have hold := h.step hstep
  refine ⟨hold.entries, ?_, ?_⟩
  · intro heartbeat hmem
    rcases List.mem_append.mp hmem with hmem | hmem
    · exact hold.put heartbeat hmem
    · obtain rfl := List.mem_singleton.mp hmem
      simp [AsioClient.postMessage]
  · intro msgid data hentry heartbeat hmem hres
    rcases List.mem_append.mp hmem with hmem | hmem
    · exact hold.id_eq msgid data hentry heartbeat hmem hres
    · obtain rfl := List.mem_singleton.mp hmem
      -- an entry under another id is older than this put
      by_contra hne
      change (c.requestMessage.put _ c.puts.length).cache msgid = some data at hentry
      rw [RequestMessage.put_cache_of_ne _ _ _ (Ne.symm hne)] at hentry
      have hlt := h.entries msgid data hentry
      rw [← hres] at hlt
      exact Nat.lt_irrefl _ hlt

end Filed

@[simp] theorem waits_rearmed (h : s.heartbeatTimer.isSome) :
    s.cancelWaits.asyncWait.waits = 1 := by
  obtain ⟨waits, hwaits⟩ := Option.isSome_iff_exists.mp h
  simp [cancelWaits, asyncWait, HeartbeatClient.waits, hwaits]

theorem ClientStep.chains_le (h : s.ClientStep t) (hfiled : Filed s.client s.heartbeats) :
    t.chains ≤ s.chains := by
  cases h with
  | @quiet d hstep =>
    have hle : s.heartbeats.countP (Awaits d) ≤ s.awaiting := countP_awaits_le hstep hfiled.put
    exact Nat.add_le_add_left hle _
  | @callback d msgid data hstep hentry hgone hmem htimer =>
    -- the callback starts a wait, in the place of the request that it ends
    have hheartbeat : (msgid, data.res) ∈ s.heartbeats := by
      obtain ⟨heartbeat, hin, hres⟩ := List.mem_map.mp hmem
      obtain rfl := hfiled.id_eq msgid data hentry heartbeat hin hres
      rwa [← hres]
    have hlt : s.heartbeats.countP (Awaits d) < s.awaiting :=
      countP_awaits_pick_lt hstep hfiled.put hentry hgone hheartbeat
    have hwaits : ({ s with client := d } : HeartbeatClient M).cancelWaits.asyncWait.waits = 1 :=
      waits_rearmed htimer
    rw [chains, hwaits, chains]
    change 1 + s.expired + s.heartbeats.countP (Awaits d) ≤ _
    omega

theorem doHeartbeat_chains_le (hfiled : Filed s.client s.heartbeats) (hexpired : 0 < s.expired) :
    ({ s with expired := s.expired - 1 }.doHeartbeat cfg false).chains ≤ s.chains := by
  let asking := s.client.postMessage cfg.build false cfg.heartbeatReq
  let heartbeat := (s.client.nextId, s.client.puts.length)
  have hstep : RequestStep s.client asking := .put _ rfl rfl rfl
  have hle : s.heartbeats.countP (Awaits asking) ≤ s.awaiting := countP_awaits_le hstep hfiled.put
  have hone : [heartbeat].countP (Awaits asking) ≤ 1 := List.countP_le_length
  have hchains : ({ s with expired := s.expired - 1 }.doHeartbeat cfg false).chains =
      s.waits + (s.expired - 1) +
        (s.heartbeats.countP (Awaits asking) + [heartbeat].countP (Awaits asking)) := by
    rw [← List.countP_append]
    rfl
  rw [hchains, chains]
  omega

theorem chains_connect (hseconds : 0 < cfg.heartbeatSeconds) (hconnect : connects a = true)
    (hstep : HeartbeatStep cfg s a t) : t.chains = 1 + s.expired + s.awaiting := by
  cases hstep with
  | @connect d hcache _ =>
    have hawaits : Awaits d = Awaits s.client := by
      funext heartbeat
      rw [Awaits, Awaits, hcache]
    rw [startHeartbeatTimer, if_pos hseconds]
    change 1 + s.expired + s.heartbeats.countP (Awaits d) = _
    simp only [hawaits]
    rfl
  | client hother _ => simp [hother] at hconnect
  | expire | aborted | asks => simp [connects] at hconnect

theorem chains_le (hfiled : Filed s.client s.heartbeats) (hconnect : connects a = false)
    (hstep : HeartbeatStep cfg s a t) : t.chains ≤ s.chains := by
  cases hstep with
  | connect => simp [connects] at hconnect
  | client _ hclient => exact hclient.chains_le hfiled
  | expire _ =>
    have hnone : (s.heartbeatTimer.map fun _ => 0).getD 0 = 0 := by
      cases s.heartbeatTimer <;> rfl
    change (s.heartbeatTimer.map fun _ => 0).getD 0 + (s.expired + s.waits) + s.awaiting ≤
      s.waits + s.expired + s.awaiting
    omega
  | aborted => exact Nat.le_refl s.chains
  | asks hexpired => exact doHeartbeat_chains_le hfiled hexpired

theorem filed_step (h : Filed s.client s.heartbeats) (hstep : HeartbeatStep cfg s a t) :
    Filed t.client t.heartbeats := by
  cases hstep with
  | connect _ hrequests =>
    unfold startHeartbeatTimer
    split
    · exact h.step hrequests
    · exact h.step hrequests
  | client _ hclient =>
    cases hclient with
    | quiet hrequests => exact h.step hrequests
    | callback hrequests _ _ _ _ => exact h.step hrequests
  | expire | aborted => exact h
  | asks _ => exact h.heartbeat cfg.build cfg.heartbeatReq

theorem oneChain_step_iff (hseconds : 0 < cfg.heartbeatSeconds)
    (hfiled : Filed s.client s.heartbeats) (hone : s.OneChain) (hstep : HeartbeatStep cfg s a t) :
    t.OneChain ↔ s.ConnectsAlone a := by
  cases hconnect : connects a with
  | true =>
    rw [OneChain, chains_connect hseconds hconnect hstep, ConnectsAlone,
      forall_prop_of_true hconnect]
    omega
  | false =>
    refine iff_of_true (Nat.le_trans (chains_le hfiled hconnect hstep) hone) ?_
    simp [ConnectsAlone, hconnect]

theorem filed_init : Filed (machine cfg).init.client (machine cfg).init.heartbeats where
  entries := fun _ _ hentry => nomatch hentry
  put := fun _ hmem => nomatch hmem
  id_eq := fun _ _ hentry => nomatch hentry

/-- No state of a run has two chains iff, all along the run, no connect succeeds while a heartbeat
request waits for its callback or an expired wait for its handler. -/
theorem oneChain_iff_connectsAlone (cfg : HeartbeatConfig M) (hseconds : 0 < cfg.heartbeatSeconds)
    (labels : List (HeartbeatAction M)) (s : HeartbeatClient M)
    (hrun : (machine cfg).run (fun _ _ => True) (machine cfg).init labels = some s) :
    (∀ u ∈ (machine cfg).visits (machine cfg).init labels, u.OneChain) ↔
      (machine cfg).run ConnectsAlone (machine cfg).init labels = some s :=
  (machine cfg).always_iff_run ConnectsAlone (I := fun s => Filed s.client s.heartbeats)
    (fun _ _ _ hfiled hstep => filed_step hfiled (.of_step hstep))
    (fun _ _ _ hfiled hone hstep => oneChain_step_iff hseconds hfiled hone (.of_step hstep))
    labels (machine cfg).init s filed_init (Nat.zero_le 1) hrun

def pingHeartbeat : HeartbeatConfig PingPong :=
  { AsioClient.pingConfig with heartbeatSeconds := 10, heartbeatReq := PingPong.blank }

/-- The connection is lost while the callback of the heartbeat request is outstanding; the request
times out before the next connect. -/
def lostAndTimedOut : List (HeartbeatAction PingPong) :=
  [.client (.doConnect true), .expire, .doHeartbeat false, .client (.postCall 0),
    .client (.runPosted 0), .client (.writeDone 0 true), .client .readError,
    .client (.runPosted 0), .client (.timerExpired 0), .client (.doConnect true),
    .doHeartbeat true]

theorem oneChain_iff_connectsAlone_ping :
    ∃ s : HeartbeatClient PingPong, s.waits = 1 ∧
      ∀ u ∈ (machine pingHeartbeat).visits (machine pingHeartbeat).init lostAndTimedOut,
        u.OneChain := by
  have hrun : ((machine pingHeartbeat).run ConnectsAlone (machine pingHeartbeat).init
      lostAndTimedOut).map waits = some 1 := by decide +kernel
  obtain ⟨s, hs, hwaits⟩ := Option.map_eq_some_iff.mp hrun
  have hfree : (machine pingHeartbeat).run (fun _ _ => True) (machine pingHeartbeat).init
      lostAndTimedOut = some s := Machine.run_mono (fun _ _ _ => trivial) lostAndTimedOut _ _ hs
  exact ⟨s, hwaits, (oneChain_iff_connectsAlone pingHeartbeat (by decide) lostAndTimedOut s
    hfree).mpr hs⟩

/-- A connect while the request of the connection before still waits for its callback. No handler of
an expired wait is needed for the second chain. -/
theorem oneChain_fails :
    ¬ ∀ s : HeartbeatClient PingPong, (machine pingHeartbeat).Reachable s →
      s.waits + s.awaiting ≤ 1 := by
  intro h
  have hrun : ((machine pingHeartbeat).run (fun _ _ => True) (machine pingHeartbeat).init
      [.client (.doConnect true), .expire, .doHeartbeat false, .client (.postCall 0),
        .client .readError, .client (.runPosted 1), .client (.doConnect true)]).map
      (fun s => s.waits + s.awaiting) = some 2 := by decide +kernel
  obtain ⟨s, hs, htwo⟩ := Option.map_eq_some_iff.mp hrun
  have hone := h s (Machine.reachableWhen_of_run _ hs)
  rw [htwo] at hone
  exact absurd hone (by decide)

theorem chains_le_of_run (hseconds : 0 < cfg.heartbeatSeconds)
    (labels : List (HeartbeatAction M)) (n : ℕ) (hfiled : Filed s.client s.heartbeats)
    (hn : s.chains ≤ n) (hrun : (machine cfg).run (fun _ _ => True) s labels = some t) :
    t.chains ≤ n + labels.countP connects := by
  induction labels generalizing s n with
  | nil =>
    rw [Machine.run, Option.some.injEq] at hrun
    exact hrun ▸ hn
  | cons a rest ih =>
    rw [Machine.run, if_pos trivial] at hrun
    obtain ⟨u, hu, hrest⟩ := Option.bind_eq_some_iff.mp hrun
    have hstep : HeartbeatStep cfg s a u := .of_step hu
    rw [List.countP_cons]
    cases hconnect : connects a with
    | true =>
      have hmore : u.chains ≤ n + 1 := by
        rw [chains_connect hseconds hconnect hstep]
        unfold chains at hn
        omega
      have hle := ih (n + 1) (filed_step hfiled hstep) hmore hrest
      rw [if_pos rfl]
      omega
    | false =>
      have hless : u.chains ≤ n := Nat.le_trans (chains_le hfiled hconnect hstep) hn
      exact ih n (filed_step hfiled hstep) hless hrest

/-- There are never more chains than connects that have succeeded. -/
theorem chains_le_connects (hseconds : 0 < cfg.heartbeatSeconds)
    (labels : List (HeartbeatAction M))
    (hrun : (machine cfg).run (fun _ _ => True) (machine cfg).init labels = some s) :
    s.chains ≤ labels.countP connects := by
  have hle := chains_le_of_run hseconds labels 0 filed_init (Nat.le_refl 0) hrun
  rwa [Nat.zero_add] at hle

/-- Without a heartbeatTimer_ there has been no wait yet. -/
def NoneBefore (s : HeartbeatClient M) : Prop :=
  s.heartbeatTimer = none → s.expired = 0 ∧ s.heartbeats = []

theorem NoneBefore.step (h : s.NoneBefore) (hstep : HeartbeatStep cfg s a t) : t.NoneBefore := by
  intro htaken
  cases hstep with
  | connect _ _ =>
    unfold startHeartbeatTimer at htaken ⊢
    split at htaken
    · simp [asyncWait] at htaken
    · next hseconds =>
      rw [if_neg hseconds]
      exact h htaken
  | client _ hclient =>
    cases hclient with
    | quiet _ => exact h htaken
    | callback _ _ _ _ htimer =>
      obtain ⟨waits, hwaits⟩ := Option.isSome_iff_exists.mp htimer
      simp [cancelWaits, asyncWait, hwaits] at htaken
  | expire hwaits =>
    rw [waits, Option.map_eq_none_iff.mp htaken] at hwaits
    exact absurd hwaits (Nat.lt_irrefl 0)
  | aborted => exact h htaken
  | asks hexpired =>
    rw [(h htaken).1] at hexpired
    exact absurd hexpired (Nat.lt_irrefl 0)

/-- The callback of a heartbeat request never meets a null heartbeatTimer_. -/
theorem heartbeatCallback_isSome (h : (machine cfg).Reachable s) (hasked : s.heartbeats ≠ []) :
    s.heartbeatCallback.isSome := by
  have hnone : s.NoneBefore := Machine.Reachable.invariant (I := NoneBefore)
    (fun _ => ⟨rfl, rfl⟩) (fun _ _ _ hs hstep => hs.step (.of_step hstep)) h
  rw [heartbeatCallback, Option.isSome_map, ← Option.ne_none_iff_isSome]
  exact fun htaken => hasked (hnone htaken).2

end HeartbeatClient

end AsioMsg
