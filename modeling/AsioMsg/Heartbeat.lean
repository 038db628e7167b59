import AsioMsg.ClientSteps

/-!
The heartbeat of AsioClient. There is one heartbeatTimer_: every successful
connect replaces it and so cancels its wait, and so does every callback of a
heartbeat request, by moving the expiry. The request itself is cancelled by
nobody. The handler of a wait that is over runs in a step of its own.
-/

namespace AsioMsg

variable {M : Type}

/-- heartbeatSeconds_ and the HeartbeatReq with cpu and memory zero. -/
structure HeartbeatConfig (M : Type) extends ClientConfig M where
  heartbeatSeconds : ℤ
  heartbeatReq : M

structure HeartbeatClient (M : Type) where
  client : AsioClient M := { connects := 1 }
  /-- The number of waits at heartbeatTimer_, if there is one. -/
  heartbeatTimer : Option ℕ := none
  /-- Waits that are over and whose doHeartbeat has not run: expired ones and cancelled ones. -/
  expired : ℕ := 0
  cancelled : ℕ := 0
  /-- The heartbeat requests: the id and the number of the put. -/
  heartbeats : List (BitVec 32 × ℕ) := []

inductive HeartbeatAction (M : Type)
  | client (a : ClientAction M)
  | expire
  | doHeartbeat (error : Bool)

namespace HeartbeatClient

/-- The armed waits. -/
def waits (s : HeartbeatClient M) : ℕ := s.heartbeatTimer.getD 0

/-- The entry of the request is in the cache, with its callback. -/
def Awaits (c : AsioClient M) (heartbeat : BitVec 32 × ℕ) : Prop :=
  (c.requestMessage.cache heartbeat.1).map RequestData.res = some heartbeat.2

instance (c : AsioClient M) (heartbeat : BitVec 32 × ℕ) : Decidable (Awaits c heartbeat) :=
  inferInstanceAs (Decidable (_ = _))

/-- The heartbeat requests that wait for their callback. -/
def awaiting (s : HeartbeatClient M) : ℕ := s.heartbeats.countP (Awaits s.client)

/-- Destroying a deadline_timer, or changing its expiry. -/
def cancelWaits (s : HeartbeatClient M) : HeartbeatClient M :=
  { s with
    heartbeatTimer := s.heartbeatTimer.map fun _ => 0
    cancelled := s.cancelled + s.waits }

def asyncWait (s : HeartbeatClient M) : HeartbeatClient M :=
  { s with heartbeatTimer := s.heartbeatTimer.map fun waits => waits + 1 }

def startHeartbeatTimer (cfg : HeartbeatConfig M) (s : HeartbeatClient M) : HeartbeatClient M :=
  if 0 < cfg.heartbeatSeconds then { s.cancelWaits with heartbeatTimer := some 0 }.asyncWait else s

/-- doHeartbeat up to the put of its request. -/
def doHeartbeat (cfg : HeartbeatConfig M) (s : HeartbeatClient M) (error : Bool) :
    HeartbeatClient M :=
  if error then s
  else { s with
    client := s.client.postMessage cfg.build false cfg.heartbeatReq
    heartbeats := s.heartbeats ++ [(s.client.nextId, s.client.puts.length)] }

/-- The callback of a heartbeat request; with a null heartbeatTimer_ it is undefined. -/
def heartbeatCallback (s : HeartbeatClient M) : Option (HeartbeatClient M) :=
  s.heartbeatTimer.map fun _ => s.cancelWaits.asyncWait

/-- A callback that a step of the client invokes. -/
def invoke (s : HeartbeatClient M) (call : Invocation M) : Option (HeartbeatClient M) :=
  if call.res ∈ s.heartbeats.map Prod.snd then s.heartbeatCallback else some s

def clientStep (cfg : HeartbeatConfig M) (s : HeartbeatClient M) (a : ClientAction M) :
    Option (HeartbeatClient M) :=
  (s.client.step cfg.toClientConfig a).bind fun client =>
    (client.invoked.drop s.client.invoked.length).foldlM invoke { s with client := client }

def step (cfg : HeartbeatConfig M) (s : HeartbeatClient M) :
    HeartbeatAction M → Option (HeartbeatClient M)
  | .client (.doConnect true) =>
    (s.clientStep cfg (.doConnect true)).map (startHeartbeatTimer cfg)
  | .client a => s.clientStep cfg a
  | .expire =>
    if 0 < s.waits then some { s with
      heartbeatTimer := s.heartbeatTimer.map fun _ => 0
      expired := s.expired + s.waits }
    else none
  | .doHeartbeat error =>
    if s.client.stopped then none
    else if error then
      if 0 < s.cancelled then some ({ s with cancelled := s.cancelled - 1 }.doHeartbeat cfg true)
      else none
    else if 0 < s.expired then some ({ s with expired := s.expired - 1 }.doHeartbeat cfg false)
    else none

/-- A client on which start has been called. -/
def machine (cfg : HeartbeatConfig M) : Machine (HeartbeatClient M) (HeartbeatAction M) where
  init := {}
  step := step cfg

open AsioClient

variable {cfg : HeartbeatConfig M} {s t : HeartbeatClient M} {a : HeartbeatAction M}

/-- A connect that succeeds. -/
def connects : HeartbeatAction M → Bool
  | .client (.doConnect success) => success
  | _ => false

/-- The client's part of a step. -/
inductive ClientStep (s : HeartbeatClient M) : HeartbeatClient M → Prop
  | quiet {d : AsioClient M} : RequestStep s.client d → ClientStep s { s with client := d }
  | callback {d : AsioClient M} {msgid : BitVec 32} {data : RequestData M} :
      RequestStep s.client d → s.client.requestMessage.cache msgid = some data →
      d.requestMessage.cache msgid = none → data.res ∈ s.heartbeats.map Prod.snd →
      s.heartbeatTimer.isSome →
      ClientStep s { s with client := d }.cancelWaits.asyncWait

theorem ClientStep.of_clientStep {action : ClientAction M}
    (h : s.clientStep cfg action = some t) : s.ClientStep t := by
  obtain ⟨d, hd, hcalls⟩ := Option.bind_eq_some_iff.mp h
  have hstep := (Steps.of_step hd).requests
  cases hstep with
  | same hcache hputs hinvoked =>
    rw [hinvoked, List.drop_length, List.foldlM_nil, Option.pure_def, Option.some.injEq] at hcalls
    exact hcalls ▸ .quiet (.same hcache hputs hinvoked)
  | put p hcache hputs hinvoked =>
    rw [hinvoked, List.drop_length, List.foldlM_nil, Option.pure_def, Option.some.injEq] at hcalls
    exact hcalls ▸ .quiet (.put p hcache hputs hinvoked)
  | pick msgid call hcache hputs hinvoked hres =>
    have hpick : RequestStep s.client d := .pick msgid call hcache hputs hinvoked hres
    rw [hinvoked, List.drop_left] at hcalls
    cases call with
    | none =>
      rw [Option.toList_none, List.foldlM_nil, Option.pure_def, Option.some.injEq] at hcalls
      exact hcalls ▸ .quiet hpick
    | some call =>
      obtain ⟨data, hentry, hdata⟩ := Option.map_eq_some_iff.mp hres.symm
      rw [Option.toList_some, List.foldlM_cons] at hcalls
      obtain ⟨after, hafter, hlast⟩ := Option.bind_eq_some_iff.mp hcalls
      rw [List.foldlM_nil, Option.pure_def, Option.some.injEq] at hlast
      subst hlast
      rw [invoke] at hafter
      split at hafter
      · next hheartbeat =>
        obtain ⟨waits, htimer, rfl⟩ := Option.map_eq_some_iff.mp hafter
        refine .callback hpick hentry (by rw [hcache, RequestMessage.pick_cache_self]) ?_ ?_
        · rw [hdata]
          exact hheartbeat
        · exact Option.isSome_of_eq_some htimer
      · rw [Option.some.injEq] at hafter
        exact hafter ▸ .quiet hpick

theorem clientStep_connect (h : s.clientStep cfg (.doConnect true) = some t) :
    ∃ d, t = { s with client := d } ∧ d.requestMessage = s.client.requestMessage ∧
      RequestStep s.client d := by
  obtain ⟨d, hd, hcalls⟩ := Option.bind_eq_some_iff.mp h
  have hsteps := Steps.of_step hd
  have hrequests := hsteps.requests
  cases hsteps with
  | doConnect _ _ =>
    rw [doConnect_frame] at hcalls hrequests
    rw [List.drop_length, List.foldlM_nil, Option.pure_def, Option.some.injEq] at hcalls
    exact ⟨_, hcalls.symm, rfl, hrequests⟩

/-- What a step does. -/
inductive HeartbeatStep (cfg : HeartbeatConfig M) (s : HeartbeatClient M) :
    HeartbeatAction M → HeartbeatClient M → Prop
  | connect {d : AsioClient M} : d.requestMessage = s.client.requestMessage →
      RequestStep s.client d →
      HeartbeatStep cfg s (.client (.doConnect true))
        (startHeartbeatTimer cfg { s with client := d })
  | client {action : ClientAction M} {t : HeartbeatClient M} :
      connects (.client action : HeartbeatAction M) = false → s.ClientStep t →
      HeartbeatStep cfg s (.client action) t
  | expire : 0 < s.waits →
      HeartbeatStep cfg s .expire { s with
        heartbeatTimer := s.heartbeatTimer.map fun _ => 0
        expired := s.expired + s.waits }
  | aborted : HeartbeatStep cfg s (.doHeartbeat true) { s with cancelled := s.cancelled - 1 }
  | asks : 0 < s.expired →
      HeartbeatStep cfg s (.doHeartbeat false)
        ({ s with expired := s.expired - 1 }.doHeartbeat cfg false)

theorem HeartbeatStep.of_step (h : s.step cfg a = some t) : HeartbeatStep cfg s a t := by
  cases a with
  | client action =>
    cases action with
    | doConnect success =>
      cases success with
      | true =>
        obtain ⟨u, hu, rfl⟩ := Option.map_eq_some_iff.mp h
        obtain ⟨d, rfl, hcache, hrequests⟩ := clientStep_connect hu
        exact .connect hcache hrequests
      | false => exact .client rfl (.of_clientStep h)
    | _ => exact .client rfl (.of_clientStep h)
  | expire =>
    obtain ⟨hwaits, ht⟩ := Option.ite_none_right_eq_some.mp h
    obtain rfl := Option.some.inj ht
    exact .expire hwaits
  | doHeartbeat error =>
    obtain ⟨_, ht⟩ := Option.ite_none_left_eq_some.mp h
    cases error with
    | true =>
      obtain ⟨_, ht⟩ := Option.ite_none_right_eq_some.mp ht
      obtain rfl := Option.some.inj ht
      exact .aborted
    | false =>
      obtain ⟨hexpired, ht⟩ := Option.ite_none_right_eq_some.mp ht
      obtain rfl := Option.some.inj ht
      exact .asks hexpired

end HeartbeatClient

end AsioMsg
