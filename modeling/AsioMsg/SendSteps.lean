import AsioMsg.ClientCalls
import AsioMsg.SendMessage

/-!
What a step of sendMessage can do, and what its proofs need of the client: which
steps begin and end calls of postMessage, and with what a callback is invoked.
-/

namespace AsioMsg

variable {M : Type}

namespace AsioClient

variable {cfg : ClientConfig M} {c d : AsioClient M} {a : ClientAction M}

/-- The calls of postMessage and what they have returned. -/
theorem Steps.call_cases (h : Steps cfg c a d) :
    (d.calls = c.calls ∧ d.accepted = c.accepted) ∨
    (∃ isOrder msg, d = c.postMessage cfg.build isOrder msg) ∨
    ∃ i call, a = .postCall i ∧ c.calls[i]? = some call ∧ d = c.postCall i call := by
  cases h with
  | postMessage isOrder msg => exact Or.inr (Or.inl ⟨isOrder, msg, rfl⟩)
  | postCall hget => exact Or.inr (Or.inr ⟨_, _, rfl, hget, rfl⟩)
  | publishMessage msg =>
    rw [publishMessage_frame]
    exact Or.inl ⟨rfl, rfl⟩
  | postPackage pac =>
    rw [postPackage_frame]
    exact Or.inl ⟨rfl, rfl⟩
  | startWrite _ hrun =>
    obtain rfl := startWrite_eq hrun
    exact Or.inl ⟨rfl, rfl⟩
  | doClose _ =>
    rw [doClose_frame]
    exact Or.inl ⟨rfl, rfl⟩
  | doConnect success _ =>
    rw [doConnect_frame]
    exact Or.inl ⟨rfl, rfl⟩
  | doRead _ hread =>
    obtain ⟨_, hd⟩ := Option.ite_none_left_eq_some.mp hread
    obtain rfl := Option.some.inj hd
    exact Or.inl ⟨rfl, rfl⟩
  | writeDone _ hdone =>
    rcases writeDone_eq hdone with ⟨_, rfl⟩ | ⟨_, rfl⟩ <;> exact Or.inl ⟨rfl, rfl⟩
  | stop | readError _ | timerAborted _ _ | timerExpired _ | doResponse _ =>
    exact Or.inl ⟨rfl, rfl⟩

theorem Steps.invoked_initial (h : Steps cfg c a d) : c.invoked <+: d.invoked := by
  rcases h.pick_cases with ⟨_, _, hinvoked⟩ | ⟨isOrder, msg, _, rfl⟩ | ⟨_, _, _, _, _, hinvoked⟩
  · exact hinvoked ▸ List.prefix_rfl
  · exact List.prefix_rfl
  · exact hinvoked ▸ List.prefix_append _ _

/-- The code that postPackage returns, and what it leaves behind. -/
theorem postCall_cases (c : AsioClient M) (i : ℕ) (call : PackagePtr M) :
    (((c.postPackage call).1 = .eServiceStopped ∨ (c.postPackage call).1 = .eDisconnect) ∧
      (c.postCall i call).accepted = c.accepted) ∨
    ((c.postPackage call).1 = .eSuccess ∧
      (c.postCall i call).accepted = c.accepted ++ call.put.toList) := by
  unfold postCall postPackage
  dsimp only
  split
  · exact Or.inl ⟨Or.inl rfl, rfl⟩
  · split
    · exact Or.inl ⟨Or.inr rfl, rfl⟩
    · exact Or.inr ⟨rfl, rfl⟩

theorem postCall_frame (c : AsioClient M) (i : ℕ) (call : PackagePtr M) :
    c.postCall i call = { c with
      calls := c.calls.eraseIdx i
      posted := (c.postCall i call).posted
      accepted := (c.postCall i call).accepted } := by
  rcases postCall_eq c i call with h | h <;> rw [h]

/-- A callback that reports success has a package with its id that the client has read. -/
structure ResponseInv (c : AsioClient M) : Prop where
  handed : ∀ pack ∈ c.responses, pack ∈ c.handed
  result : ∀ inv ∈ c.invoked, (inv.error = .eTimeout ∧ inv.rsp = none) ∨
    (inv.error = .eSuccess ∧ ∃ rsp ∈ c.handed, inv.rsp = some rsp ∧
      rsp.header.msgType = MsgType.REQREP.code ∧ rsp.header.msgId = inv.req.header.msgId)

theorem ResponseInv.step (h : ResponseInv c) (honce : OnceInv c) (hstep : Steps cfg c a d) :
    ResponseInv d := by
  rcases hstep.request_cases with ⟨_, _, hinvoked, more, hhanded, hresponses⟩ |
    ⟨isOrder, msg, _, rfl⟩ | ⟨i, wait, rfl⟩ | ⟨pack, rest, hresponses, rfl⟩
  · refine ⟨?_, ?_⟩
    · intro pack hpack
      rw [hresponses, List.mem_append] at hpack
      rw [hhanded, List.mem_append]
      exact hpack.imp_left (h.handed pack)
    · intro inv hinv
      rw [hinvoked] at hinv
      refine (h.result inv hinv).imp_right ?_
      rintro ⟨herror, rsp, hrsp, hrest⟩
      exact ⟨herror, rsp, hhanded ▸ List.mem_append_left _ hrsp, hrest⟩
  · exact ⟨h.handed, h.result⟩
  · refine ⟨h.handed, ?_⟩
    intro inv hinv
    rw [timerExpired_invoked, List.mem_append, RequestMessage.onTimeout_eq] at hinv
    rcases hinv with hinv | hinv
    · exact h.result inv hinv
    · obtain ⟨data, _, rfl⟩ := Option.map_eq_some_iff.mp (Option.mem_toList.mp hinv)
      exact Or.inl ⟨rfl, rfl⟩
  · refine ⟨fun other hother => h.handed other (hresponses ▸ List.mem_cons_of_mem _ hother), ?_⟩
    intro inv hinv
    rw [doResponse_invoked, List.mem_append] at hinv
    rcases hinv with hinv | hinv
    · exact h.result inv hinv
    · by_cases htype : pack.header.msgType = MsgType.REQREP.code
      · rw [RequestMessage.doResponse_eq _ htype] at hinv
        obtain ⟨data, hdata, rfl⟩ := Option.map_eq_some_iff.mp (Option.mem_toList.mp hinv)
        exact Or.inr ⟨rfl, pack, h.handed pack (hresponses ▸ List.mem_cons_self ..), rfl, htype,
          (honce.cached _ data hdata).2.1.symm⟩
      · rw [RequestMessage.doResponse_other _ htype] at hinv
        simp at hinv

end AsioClient

namespace Senders

variable {cfg : ClientConfig M} {s t : Senders M} {a : SendAction M}

inductive Steps (cfg : ClientConfig M) (s : Senders M) : SendAction M → Senders M → Prop
  | client {a : ClientAction M} {c : AsioClient M} : s.isPostReturn a = false →
      AsioClient.Steps cfg s.client a c → Steps cfg s (.client a) (s.setClient c)
  | sendMessage (msg : M) : Steps cfg s (.sendMessage msg) (s.sendMessage cfg.build msg)
  | postReturn {n i : ℕ} {call : SendCall M} {package : PackagePtr M} : s.sends n = some call →
      s.client.calls[i]? = some package → package.put = some n →
      Steps cfg s (.postReturn n i) (s.postReturn n i call package)
  | lock {n : ℕ} {call : SendCall M} : s.sends n = some call → call.phase = .posted →
      Steps cfg s (.lock n) (s.locked n call)
  | resume {w : Woken} {n : ℕ} {cond : CondVar ℕ} {call : SendCall M} :
      s.cond.resume w = some (n, cond) → s.sends n = some call →
      Steps cfg s (.resume w) ({ s with cond := cond }.locked n call)
  | rouse {i : ℕ} {cond : CondVar ℕ} : s.cond.rouse i = some cond →
      Steps cfg s (.rouse i) { s with cond := cond }
  | store {i : ℕ} {callback : SendCallback M} {call : SendCall M} :
      s.callbacks[i]? = some callback → callback.stored = false →
      s.sends callback.inv.res = some call → Steps cfg s (.store i) (s.store i callback call)
  | notify {i : ℕ} {callback : SendCallback M} {call : SendCall M} :
      s.callbacks[i]? = some callback → callback.stored = true →
      s.sends callback.inv.res = some call → Steps cfg s (.notify i) (s.notify i callback call)

theorem Steps.of_step (h : s.step cfg a = some t) : Steps cfg s a t := by
  cases a with
  | client a =>
    obtain ⟨hpost, hmap⟩ := Option.ite_none_left_eq_some.mp h
    obtain ⟨c, hc, rfl⟩ := Option.map_eq_some_iff.mp hmap
    exact .client (by simpa using hpost) (.of_step hc)
  | sendMessage msg =>
    obtain rfl := Option.some.inj h
    exact .sendMessage msg
  | postReturn n i =>
    simp only [step] at h
    split at h
    · next call package hcall hget =>
      obtain ⟨hput, ht⟩ := Option.ite_none_right_eq_some.mp h
      obtain rfl := Option.some.inj ht
      exact .postReturn hcall hget hput
    · simp at h
  | lock n =>
    simp only [step] at h
    split at h
    · next call hcall =>
      split at h
      · next hphase =>
        obtain rfl := Option.some.inj h
        exact .lock hcall hphase
      · simp at h
    · simp at h
  | resume w =>
    obtain ⟨back, hback, hmap⟩ := Option.bind_eq_some_iff.mp h
    obtain ⟨call, hcall, rfl⟩ := Option.map_eq_some_iff.mp hmap
    exact .resume hback hcall
  | rouse i =>
    obtain ⟨cond, hcond, rfl⟩ := Option.map_eq_some_iff.mp h
    exact .rouse hcond
  | store i =>
    obtain ⟨callback, hget, hrest⟩ := Option.bind_eq_some_iff.mp h
    obtain ⟨hstored, hmap⟩ := Option.ite_none_left_eq_some.mp hrest
    obtain ⟨call, hcall, rfl⟩ := Option.map_eq_some_iff.mp hmap
    exact .store hget (by simpa using hstored) hcall
  | notify i =>
    obtain ⟨callback, hget, hrest⟩ := Option.bind_eq_some_iff.mp h
    obtain ⟨hstored, hmap⟩ := Option.ite_none_right_eq_some.mp hrest
    obtain ⟨call, hcall, rfl⟩ := Option.map_eq_some_iff.mp hmap
    exact .notify hget hstored hcall

end Senders

end AsioMsg
