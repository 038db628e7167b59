import AsioMsg.ClientRequests

/-!
Posts that are refused. postMessage puts its request into the cache before
postPackage looks at io_ and isOnline_, and takes nothing back: the entry of a
refused post stays, and a response under its id invokes a Response whose caller
was told that nothing had been sent.
-/

namespace AsioMsg

variable {M : Type}

namespace AsioClient

variable {cfg : ClientConfig M} {c d : AsioClient M} {a : ClientAction M}

/-- postMessage or postOrderMessage with no step of another thread in between: what it returns
and the client that it leaves. -/
def post (b : Build M) (c : AsioClient M) (isOrder : Bool) (msg : M) : ErrorCode × AsioClient M :=
  let call := ⟨makePackage b .REQREP isOrder c.nextId msg, some c.puts.length⟩
  let c' := postMessage b c isOrder msg
  ((c'.postPackage call).1, c'.postCall c.calls.length call)

theorem run_post (cfg : ClientConfig M) (c : AsioClient M) (isOrder : Bool) (msg : M) :
    (machine cfg).run (fun _ _ => True) c [.postMessage isOrder msg, .postCall c.calls.length] =
      some (c.post cfg.build isOrder msg).2 := by
  simp [Machine.run, machine, step, post, postMessage]

/-- Nothing is left of a call: the cache is as it was, and no entry has the Response passed to it,
which is that of the next put. -/
structure NoTrace (c d : AsioClient M) : Prop where
  cache : d.requestMessage.cache = c.requestMessage.cache
  response : ∀ msgid data, d.requestMessage.cache msgid = some data → data.res ≠ c.puts.length

/-- The entries of the cache are of earlier puts. -/
def Numbered (c : AsioClient M) : Prop :=
  ∀ msgid data, c.requestMessage.cache msgid = some data → data.res < c.puts.length

theorem postCall_requestMessage (c : AsioClient M) (i : ℕ) (call : PackagePtr M) :
    (c.postCall i call).requestMessage = c.requestMessage := by
  rcases postCall_eq c i call with h | h <;> rw [h]

theorem post_requestMessage (b : Build M) (c : AsioClient M) (isOrder : Bool) (msg : M) :
    (c.post b isOrder msg).2.requestMessage =
      c.requestMessage.put (makePackage b .REQREP isOrder c.nextId msg) c.puts.length :=
  postCall_requestMessage ..

theorem post_cache_self (b : Build M) (c : AsioClient M) (isOrder : Bool) (msg : M) :
    (c.post b isOrder msg).2.requestMessage.cache c.nextId =
      some ⟨makePackage b .REQREP isOrder c.nextId msg, c.puts.length⟩ := by
  rw [post_requestMessage]
  exact RequestMessage.put_cache_self ..

theorem postPackage_eSuccess_iff (c : AsioClient M) (package : PackagePtr M) :
    (c.postPackage package).1 = .eSuccess ↔ c.stopped = false ∧ c.isOnline = true := by
  unfold postPackage
  by_cases hstopped : c.stopped = true
  · simp [hstopped]
  · by_cases honline : c.isOnline = true <;> simp [hstopped, honline]

theorem post_eSuccess_iff (b : Build M) (c : AsioClient M) (isOrder : Bool) (msg : M) :
    (c.post b isOrder msg).1 = .eSuccess ↔ c.stopped = false ∧ c.isOnline = true :=
  postPackage_eSuccess_iff (c.postMessage b isOrder msg) _

/-- An error of a post leaves no trace only in the states in which posts are not refused. -/
theorem post_noTrace_iff (b : Build M) (c : AsioClient M) (isOrder : Bool) (msg : M) :
    ((c.post b isOrder msg).1 ≠ .eSuccess → c.NoTrace (c.post b isOrder msg).2) ↔
      c.stopped = false ∧ c.isOnline = true := by
  rw [← post_eSuccess_iff b c isOrder msg]
  constructor
  · intro h
    by_contra hrefused
    exact (h hrefused).response _ _ (post_cache_self b c isOrder msg) rfl
  · exact fun haccepted hrefused => absurd haccepted hrefused

theorem Numbered.pick (h : Numbered c) (msgid : BitVec 32)
    (hcache : d.requestMessage = (c.requestMessage.pick msgid).2) (hputs : d.puts = c.puts) :
    Numbered d := by
  intro other data hdata
  rw [hcache] at hdata
  rw [hputs]
  by_cases hid : other = msgid
  · subst hid
    simp at hdata
  · rw [RequestMessage.pick_cache_of_ne _ hid] at hdata
    exact h other data hdata

theorem Numbered.put (h : Numbered c) (p : Package M)
    (hcache : d.requestMessage = c.requestMessage.put p c.puts.length)
    (hputs : d.puts = c.puts ++ [p]) : Numbered d := by
  intro other data hdata
  rw [hcache] at hdata
  rw [hputs, List.length_append, List.length_singleton]
  by_cases hid : other = p.header.msgId
  · rw [hid, RequestMessage.put_cache_self, Option.some.injEq] at hdata
    subst hdata
    exact Nat.lt_succ_self _
  · rw [RequestMessage.put_cache_of_ne _ _ _ hid] at hdata
    exact Nat.lt_succ_of_lt (h other data hdata)

theorem Numbered.frame (h : Numbered c) (hcache : d.requestMessage = c.requestMessage)
    (hputs : d.puts = c.puts) : Numbered d := by
  intro msgid data hdata
  rw [hcache] at hdata
  exact hputs ▸ h msgid data hdata

theorem Numbered.step (h : Numbered c) (hstep : RequestStep c d) : Numbered d := by
  cases hstep with
  | same hcache hputs _ => exact h.frame hcache hputs
  | pick msgid _ hcache hputs _ _ => exact h.pick msgid hcache hputs
  | put p hcache hputs _ => exact h.put p hcache hputs

theorem numbered_reachable (h : (machine cfg).Reachable c) : Numbered c :=
  h.invariant (fun _ _ hdata => nomatch hdata)
    fun _ _ _ hc hstep => hc.step (Steps.of_step hstep).requests

/-- Whatever the cache held, under the same id too, it holds a new entry after a post. -/
theorem post_cache_ne (h : (machine cfg).Reachable c) (b : Build M) (isOrder : Bool) (msg : M) :
    (c.post b isOrder msg).2.requestMessage.cache ≠ c.requestMessage.cache := by
  intro hsame
  have hnew := post_cache_self b c isOrder msg
  rw [hsame] at hnew
  exact Nat.lt_irrefl _ (numbered_reachable h _ _ hnew)

/-- A response under the id of a refused post invokes its Response. -/
theorem doResponse_post (b : Build M) (c : AsioClient M) (isOrder : Bool) (msg : M)
    {pack : Package M} (htype : pack.header.msgType = MsgType.REQREP.code)
    (hid : pack.header.msgId = c.nextId) :
    ((c.post b isOrder msg).2.requestMessage.doResponse pack).1 =
      some ⟨c.puts.length, .eSuccess, makePackage b .REQREP isOrder c.nextId msg, some pack⟩ := by
  rw [RequestMessage.doResponse_eq _ htype, hid, post_cache_self, Option.map_some]

/-- A client that is not yet connected refuses the post and keeps its entry. -/
theorem refused_post_fails :
    ¬ ∀ c : AsioClient PingPong, (machine pingConfig).Reachable c →
      ∀ (isOrder : Bool) (msg : PingPong), (c.post pingConfig.build isOrder msg).1 ≠ .eSuccess →
        (c.post pingConfig.build isOrder msg).2.requestMessage.cache = c.requestMessage.cache := by
  intro h
  exact post_cache_ne .init pingConfig.build false PingPong.blank
    (h _ .init false PingPong.blank (by decide))

end AsioClient

end AsioMsg
