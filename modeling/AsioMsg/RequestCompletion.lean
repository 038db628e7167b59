import AsioMsg.Lib.Pending
import AsioMsg.RequestMessage
import AsioMsg.PingPong

/-!
At most one callback for each request. While an entry is in the cache its
callback has not been taken and no response with its id has been handled since
it was put; taking it out is the only way to its callback.
-/

namespace AsioMsg

variable {M : Type}

/-- The wait for the request of `inv` expired, and since the put no response with its id had been
handled. -/
def TimedOutUnanswered (history : List RequestEvent) (inv : Invocation M) : Prop :=
  ∃ before since after, history =
      before ++ .put inv.res :: since ++ .expired inv.res :: after ∧
    .response inv.req.header.msgId ∉ since

theorem TimedOutUnanswered.append {history : List RequestEvent} {inv : Invocation M}
    (h : TimedOutUnanswered history inv) (later : List RequestEvent) :
    TimedOutUnanswered (history ++ later) inv := by
  obtain ⟨before, since, after, rfl, hno⟩ := h
  exact ⟨before, since, after ++ later, by simp, hno⟩

namespace Requests

/-- A callback that was taken for a reason its arguments tell. -/
structure Justified (s : Requests M) (inv : Invocation M) : Prop where
  put : s.puts[inv.res]? = some inv.req
  gone : s.requestMessage.cache inv.req.header.msgId = none
  error : inv.error = .eSuccess ∨ inv.error = .eTimeout
  success : inv.error = .eSuccess →
    ∃ rsp, inv.rsp = some rsp ∧ rsp.header.msgId = inv.req.header.msgId
  timeout : inv.error = .eTimeout → TimedOutUnanswered s.history inv

/-- An entry under its own id, put and since then unanswered. -/
structure Waiting (s : Requests M) (msgid : BitVec 32) (data : RequestData M) : Prop where
  put : s.puts[data.res]? = some data.pac
  msgId_eq : data.pac.header.msgId = msgid
  unanswered : ∃ before since, s.history = before ++ .put data.res :: since ∧
    .response msgid ∉ since

structure Inv (s : Requests M) : Prop where
  cached : ∀ msgid data, s.requestMessage.cache msgid = some data → s.Waiting msgid data
  taken : ∀ inv ∈ s.picked ++ s.invoked, s.Justified inv
  once : ((s.picked ++ s.invoked).map Invocation.res).Nodup

/-- Steps that only add to what was put and to the history keep the reason of a taken callback,
as long as its entry does not come back. -/
theorem Justified.mono {s t : Requests M} {inv : Invocation M} (h : s.Justified inv)
    (hputs : s.puts <+: t.puts) (hhist : s.history <+: t.history)
    (hgone : t.requestMessage.cache inv.req.header.msgId = none) : t.Justified inv where
  put := Pending.getElem?_of_initial hputs h.put
  gone := hgone
  error := h.error
  success := h.success
  timeout herr := by
    obtain ⟨later, hlater⟩ := hhist
    rw [← hlater]
    exact (h.timeout herr).append later

theorem Waiting.mono {s t : Requests M} {msgid : BitVec 32} {data : RequestData M}
    (h : s.Waiting msgid data) (hputs : s.puts <+: t.puts) (later : List RequestEvent)
    (hhist : t.history = s.history ++ later) (hno : .response msgid ∉ later) :
    t.Waiting msgid data where
  put := Pending.getElem?_of_initial hputs h.put
  msgId_eq := h.msgId_eq
  unanswered := by
    obtain ⟨before, since, hsplit, hsince⟩ := h.unanswered
    refine ⟨before, since ++ later, ?_, ?_⟩
    · rw [hhist, hsplit, List.append_assoc, List.cons_append]
    · rw [List.mem_append]
      exact not_or.mpr ⟨hsince, hno⟩

/-- An entry that is still cached belongs to a callback nobody has taken. -/
theorem Inv.res_fresh {s : Requests M} (h : s.Inv) {msgid : BitVec 32} {data : RequestData M}
    (hdata : s.requestMessage.cache msgid = some data) :
    data.res ∉ (s.picked ++ s.invoked).map Invocation.res := by
  intro hmem
  obtain ⟨inv, hinv, hres⟩ := List.mem_map.mp hmem
  have hjust := h.taken inv hinv
  have hwait := h.cached msgid data hdata
  have hput := hjust.put
  rw [hres, hwait.put, Option.some.injEq] at hput
  have hgone := hjust.gone
  rw [← hput, hwait.msgId_eq, hdata] at hgone
  simp at hgone

/-- A step that neither touches the cache nor takes a callback. -/
theorem Inv.frame {s t : Requests M} (h : s.Inv) (hcache : t.requestMessage = s.requestMessage)
    (hputs : t.puts = s.puts) (hhist : t.history = s.history)
    (htaken : (t.picked ++ t.invoked).Perm (s.picked ++ s.invoked)) : t.Inv where
  cached msgid data hdata := by
    rw [hcache] at hdata
    exact (h.cached msgid data hdata).mono (hputs ▸ List.prefix_rfl) [] (by simp [hhist]) (by simp)
  taken inv hinv := by
    have hjust := h.taken inv (htaken.mem_iff.mp hinv)
    refine hjust.mono (hputs ▸ List.prefix_rfl) (hhist ▸ List.prefix_rfl) ?_
    rw [hcache]
    exact hjust.gone
  once := ((htaken.map Invocation.res).nodup_iff).mpr h.once

theorem Inv.put {s : Requests M} (h : s.Inv) (p : Package M)
    (hfresh : p.header.msgId ∉ s.puts.map fun q => q.header.msgId) : (s.put p).Inv where
  cached msgid data hdata := by
    by_cases heq : msgid = p.header.msgId
    · subst heq
      obtain rfl := Option.some.inj ((s.requestMessage.put_cache_self p _).symm.trans hdata)
      exact ⟨by simp [Requests.put], rfl, s.history, [], rfl, by simp⟩
    · simp only [Requests.put, RequestMessage.put_cache_of_ne _ _ _ heq] at hdata
      exact (h.cached msgid data hdata).mono (List.prefix_append _ _) [.put s.puts.length] rfl
        (by simp)
  taken inv hinv := by
    have hjust := h.taken inv hinv
    refine hjust.mono (List.prefix_append _ _) (List.prefix_append _ _) ?_
    have hne : inv.req.header.msgId ≠ p.header.msgId := by
      intro heq
      refine hfresh (heq ▸ List.mem_map_of_mem ?_)
      exact List.mem_of_getElem? hjust.put
    simp only [Requests.put, RequestMessage.put_cache_of_ne _ _ _ hne]
    exact hjust.gone
  once := h.once

/-- Taking the entry of `msgid` out of the cache, with or without a callback to invoke for it. -/
theorem Inv.pick {s t : Requests M} (h : s.Inv) (msgid : BitVec 32) (call : Option (Invocation M))
    (later : List RequestEvent) (hcache : t.requestMessage = (s.requestMessage.pick msgid).2)
    (hputs : t.puts = s.puts) (hhist : t.history = s.history ++ later)
    (hlater : ∀ other, other ≠ msgid → .response other ∉ later)
    (hpicked : t.picked = s.picked ++ call.toList) (hinvoked : t.invoked = s.invoked)
    (hcall : ∀ inv ∈ call, ∃ data, s.requestMessage.cache msgid = some data ∧
      inv.res = data.res ∧ t.Justified inv) : t.Inv where
  cached other data hdata := by
    by_cases heq : other = msgid
    · subst heq
      simp [hcache] at hdata
    · rw [hcache, RequestMessage.pick_cache_of_ne _ heq] at hdata
      exact (h.cached other data hdata).mono (hputs ▸ List.prefix_rfl) later hhist
        (hlater other heq)
  taken inv hinv := by
    rw [hpicked, hinvoked, List.append_assoc, List.mem_append, List.mem_append] at hinv
    by_cases hnew : inv ∈ call
    · obtain ⟨_, _, _, hjust⟩ := hcall inv hnew
      exact hjust
    · have hold : inv ∈ s.picked ++ s.invoked := by
        rw [List.mem_append]
        rcases hinv with hinv | hinv | hinv
        · exact Or.inl hinv
        · exact absurd (Option.mem_toList.mp hinv) hnew
        · exact Or.inr hinv
      have hjust := h.taken inv hold
      refine hjust.mono (hputs ▸ List.prefix_rfl) (hhist ▸ List.prefix_append _ _) ?_
      rw [hcache]
      by_cases heq : inv.req.header.msgId = msgid
      · rw [heq, RequestMessage.pick_cache_self]
      · rw [RequestMessage.pick_cache_of_ne _ heq]
        exact hjust.gone
  once := by
    rw [hpicked, hinvoked]
    cases call with
    | none => simpa using h.once
    | some inv =>
      obtain ⟨data, hdata, hres, _⟩ := hcall inv rfl
      have hperm : ((s.picked ++ [inv]) ++ s.invoked).Perm (inv :: (s.picked ++ s.invoked)) := by
        rw [List.append_assoc, List.singleton_append]
        exact List.perm_middle
      refine ((hperm.map Invocation.res).nodup_iff).mpr ?_
      rw [List.map_cons, List.nodup_cons, hres]
      exact ⟨h.res_fresh hdata, h.once⟩

theorem Inv.timerExpired {s : Requests M} (h : s.Inv) (i : ℕ) (wait : BitVec 32 × ℕ) :
    (s.timerExpired i wait).Inv := by
  refine h.pick wait.1 ((s.requestMessage.onTimeout wait.1).1)
    ((s.requestMessage.onTimeout wait.1).1.toList.map fun c => .expired c.res) rfl rfl rfl
    (by simp) rfl rfl ?_
  intro inv hinv
  obtain ⟨data, hdata, rfl⟩ := Option.map_eq_some_iff.mp hinv
  have hwait := h.cached wait.1 data hdata
  obtain ⟨before, since, hsplit, hno⟩ := hwait.unanswered
  have hcache : s.requestMessage.cache wait.1 = some data := hdata
  refine ⟨data, hdata, rfl, hwait.put, ?_, Or.inr rfl, by simp, ?_⟩
  · rw [hwait.msgId_eq]
    exact s.requestMessage.pick_cache_self wait.1
  · intro _
    refine ⟨before, since, [], ?_, by rwa [hwait.msgId_eq]⟩
    simp [Requests.timerExpired, RequestMessage.onTimeout_eq, hcache, hsplit]

theorem Inv.doResponse {s : Requests M} (h : s.Inv) (pack : Package M) :
    (s.doResponse pack).Inv := by
  by_cases htype : pack.header.msgType = MsgType.REQREP.code
  · have hresponse := s.requestMessage.doResponse_eq htype
    refine h.pick pack.header.msgId _ [.response pack.header.msgId]
      (by rw [Requests.doResponse, hresponse]) rfl (by rw [Requests.doResponse, if_pos htype])
      (by simp) (by rw [Requests.doResponse, hresponse]) rfl ?_
    intro inv hinv
    obtain ⟨data, hdata, rfl⟩ := Option.map_eq_some_iff.mp hinv
    have hwait := h.cached pack.header.msgId data hdata
    refine ⟨data, hdata, rfl, hwait.put, ?_, Or.inl rfl, ?_, by simp⟩
    · rw [hwait.msgId_eq, Requests.doResponse, hresponse]
      exact s.requestMessage.pick_cache_self _
    · exact fun _ => ⟨pack, rfl, hwait.msgId_eq.symm⟩
  · have hnothing : s.doResponse pack = s := by
      simp [Requests.doResponse, RequestMessage.doResponse_other _ htype, htype]
    rwa [hnothing]

/-- Every step of a client that does not repeat an id keeps the invariant. -/
theorem Inv.step {s t : Requests M} {a : RequestAction M} (h : s.Inv) (hok : s.FreshId a)
    (hstep : s.step a = some t) : t.Inv := by
  cases a with
  | put p =>
    obtain rfl := Option.some.inj hstep
    exact h.put p hok
  | startTimer msgid =>
    obtain rfl := Option.some.inj hstep
    exact h.frame rfl rfl rfl (List.Perm.refl _)
  | asyncWait i =>
    obtain ⟨wait, _, rfl⟩ := Option.map_eq_some_iff.mp hstep
    exact h.frame rfl rfl rfl (List.Perm.refl _)
  | timerAborted i =>
    obtain ⟨wait, _, rfl⟩ := Option.map_eq_some_iff.mp hstep
    exact h.frame rfl rfl rfl (List.Perm.refl _)
  | timerExpired i =>
    obtain ⟨wait, _, rfl⟩ := Option.map_eq_some_iff.mp hstep
    exact h.timerExpired i wait
  | doResponse pack =>
    obtain rfl := Option.some.inj hstep
    exact h.doResponse pack
  | invoke i =>
    obtain ⟨call, hcall, rfl⟩ := Option.map_eq_some_iff.mp hstep
    exact h.frame rfl rfl rfl (Pending.perm_finish hcall)

theorem inv_reachable {s : Requests M} (h : (machine M).ReachableWhen FreshId s) : s.Inv := by
  refine Machine.ReachableWhen.invariant (I := Inv) ?_ ?_ h
  · exact {
      cached := fun _ _ hdata => nomatch hdata
      taken := fun _ hinv => nomatch hinv
      once := List.nodup_nil }
  · exact fun _ _ _ hs hok hstep => hs.step hok hstep

/-- Each callback runs at most once, with the package that was put and, on success, a response
with its id; a timeout means that no response was handled while it waited; and no entry with the
id of an answered request is left. -/
theorem response_at_most_once {s : Requests M} (h : (machine M).ReachableWhen FreshId s) :
    (s.invoked.map Invocation.res).Nodup ∧
      ∀ inv ∈ s.invoked, s.puts[inv.res]? = some inv.req ∧
        s.requestMessage.cache inv.req.header.msgId = none ∧
        (inv.error = .eSuccess ∨ inv.error = .eTimeout) ∧
        (inv.error = .eSuccess →
          ∃ rsp, inv.rsp = some rsp ∧ rsp.header.msgId = inv.req.header.msgId) ∧
        (inv.error = .eTimeout → TimedOutUnanswered s.history inv) := by
  have hinv := inv_reachable h
  refine ⟨?_, ?_⟩
  · have honce := hinv.once
    rw [List.map_append] at honce
    exact (List.nodup_append.mp honce).2.1
  · intro inv hmem
    obtain ⟨hput, hgone, herror, hsuccess, htimeout⟩ :=
      hinv.taken inv (List.mem_append_right _ hmem)
    exact ⟨hput, hgone, herror, hsuccess, htimeout⟩

/-- A response that comes after the timeout finds no callback. -/
theorem response_at_most_once_late :
    ∃ s : Requests PingPong, (machine PingPong).run FreshId {}
        [.put (PingPong.request PingPong.blank 7), .startTimer 7, .asyncWait 0, .timerExpired 0,
          .doResponse (PingPong.request PingPong.blank 7), .invoke 0] = some s ∧
      s.invoked.map Invocation.error = [.eTimeout] ∧
      (s.invoked.map Invocation.res).Nodup ∧
      ∀ inv ∈ s.invoked, s.requestMessage.cache inv.req.header.msgId = none := by
  refine ⟨_, rfl, rfl, ?_⟩
  have honce := response_at_most_once (M := PingPong) (Machine.reachableWhen_of_run
    [.put (PingPong.request PingPong.blank 7), .startTimer 7, .asyncWait 0, .timerExpired 0,
      .doResponse (PingPong.request PingPong.blank 7), .invoke 0] rfl)
  exact ⟨honce.1, fun inv hinv => (honce.2 inv hinv).2.1⟩

end Requests

end AsioMsg
