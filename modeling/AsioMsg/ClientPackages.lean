import AsioMsg.ClientCalls

/-!
The packages of an orderly client, from the call that brings them in to the
socket. What the client holds can be written, and a package with the number of
a request is that request.
-/

namespace AsioMsg

variable {M : Type}

/-- What the client writes for a package, nothing if it does not encode. -/
def ClientConfig.bytesOf (cfg : ClientConfig M) (pacPtr : PackagePtr M) : Bytes :=
  (cfg.build.bytesOf cfg.memory cfg.enableCompressSize pacPtr.pac).getD []

namespace AsioClient

variable {cfg : ClientConfig M} {c d : AsioClient M} {a : ClientAction M}

/-- The package is posted or pending, or in a call of postMessage. -/
def Holds (c : AsioClient M) (p : PackagePtr M) : Prop := c.Carries p ∨ p ∈ c.calls

/-- The packages that calls of the client make. -/
inductive Brought (cfg : ClientConfig M) (c : AsioClient M) : ClientAction M → PackagePtr M → Prop
  | request (isOrder : Bool) (msg : M) : Brought cfg c (.postMessage isOrder msg)
      ⟨makePackage cfg.build .REQREP isOrder c.nextId msg, some c.puts.length⟩
  | publish (msg : M) : Brought cfg c (.publishMessage msg)
      ⟨makePackage cfg.build .PUBSUB false c.nextId msg, none⟩
  | ready (pac : Package M) : Brought cfg c (.postPackage pac) ⟨pac, none⟩

theorem holds_of_postPackage {package p : PackagePtr M}
    (h : (c.postPackage package).2.Holds p) : c.Holds p ∨ p = package := by
  rcases postPackage_eq c package with heq | heq | heq <;> rw [heq] at h
  · exact Or.inl h
  · exact Or.inl h
  · rcases h with (hp | hp) | hp
    · rcases List.mem_append.mp hp with hp | hp
      · exact Or.inl (Or.inl (Or.inl hp))
      · rw [List.mem_singleton, Posted.startWrite.injEq] at hp
        exact Or.inr hp
    · exact Or.inl (Or.inl (Or.inr hp))
    · exact Or.inl (Or.inr hp)

/-- A step moves the packages it finds, or it brings one in. -/
theorem Steps.holds (h : Steps cfg c a d) {p : PackagePtr M} (hp : d.Holds p) :
    c.Holds p ∨ Brought cfg c a p := by
  cases h with
  | postMessage isOrder msg =>
    rcases hp with hp | hp
    · exact Or.inl (Or.inl hp)
    · rcases List.mem_append.mp hp with hp | hp
      · exact Or.inl (Or.inr hp)
      · rw [List.mem_singleton.mp hp]
        exact Or.inr (.request isOrder msg)
  | @postCall i call hget =>
    left
    have herase : ∀ q ∈ c.calls.eraseIdx i, q ∈ c.calls := fun q hq => List.mem_of_mem_eraseIdx hq
    rcases postCall_eq c i call with heq | heq <;> rw [heq] at hp
    · exact hp.imp_right (herase p)
    · rcases hp with (hp | hp) | hp
      · rcases List.mem_append.mp hp with hp | hp
        · exact Or.inl (Or.inl hp)
        · rw [List.mem_singleton, Posted.startWrite.injEq] at hp
          exact Or.inr (hp ▸ List.mem_of_getElem? hget)
      · exact Or.inl (Or.inr hp)
      · exact Or.inr (herase p hp)
  | publishMessage msg =>
    rcases holds_of_postPackage (c := { c with id := c.id + 1 }) hp with hp | rfl
    · exact Or.inl hp
    · exact Or.inr (.publish msg)
  | postPackage pac =>
    rcases holds_of_postPackage hp with hp | rfl
    · exact Or.inl hp
    · exact Or.inr (.ready pac)
  | stop | readError _ =>
    left
    rcases hp with (hp | hp) | hp
    · rcases List.mem_append.mp hp with hp | hp
      · exact Or.inl (Or.inl hp)
      · simp at hp
    · exact Or.inl (Or.inr hp)
    · exact Or.inr hp
  | @startWrite i q _ hget hrun =>
    left
    obtain rfl := startWrite_eq hrun
    rcases hp with (hp | hp) | hp
    · exact Or.inl (Or.inl (List.mem_of_mem_eraseIdx hp))
    · rcases List.mem_append.mp hp with hp | hp
      · exact Or.inl (Or.inr hp)
      · rw [List.mem_singleton.mp hp]
        exact Or.inl (Or.inl (List.mem_of_getElem? hget))
    · exact Or.inr hp
  | doClose _ =>
    left
    rw [doClose_frame] at hp
    rcases hp with (hp | hp) | hp
    · exact Or.inl (Or.inl (List.mem_of_mem_eraseIdx hp))
    · exact Or.inl (Or.inr hp)
    · exact Or.inr hp
  | doConnect success _ =>
    rw [doConnect_frame] at hp
    exact Or.inl hp
  | doRead _ hread =>
    obtain ⟨_, hd⟩ := Option.ite_none_left_eq_some.mp hread
    obtain rfl := Option.some.inj hd
    exact Or.inl hp
  | writeDone _ hdone =>
    left
    rcases writeDone_eq hdone with ⟨_, rfl⟩ | ⟨_, rfl⟩
    · rcases hp with (hp | hp) | hp
      · rcases List.mem_append.mp hp with hp | hp
        · exact Or.inl (Or.inl hp)
        · simp at hp
      · exact Or.inl (Or.inr hp)
      · exact Or.inr hp
    · rcases hp with (hp | hp) | hp
      · exact Or.inl (Or.inl hp)
      · exact Or.inl (Or.inr (List.mem_of_mem_tail hp))
      · exact Or.inr hp
  | timerAborted _ _ | timerExpired _ | doResponse _ => exact Or.inl hp

/-- A package leaves the list only when its own write has completed. -/
theorem Steps.carries (h : Steps cfg c a d) (hqueue : Flowing c ∨ Blocked c) {p : PackagePtr M}
    (hp : c.Carries p) : d.Carries p ∨ p ∈ c.writes := by
  cases h with
  | postMessage isOrder msg => exact Or.inl hp
  | @postCall i call _ =>
    left
    rcases postCall_eq c i call with heq | heq <;> rw [heq]
    · exact hp
    · exact hp.imp_left (List.mem_append_left _)
  | publishMessage msg =>
    left
    rcases postPackage_eq { c with id := c.id + 1 }
      ⟨makePackage cfg.build .PUBSUB false c.nextId msg, none⟩ with heq | heq | heq <;>
      rw [AsioClient.publishMessage, heq]
    · exact hp
    · exact hp
    · exact hp.imp_left (List.mem_append_left _)
  | postPackage pac =>
    left
    rcases postPackage_eq c ⟨pac, none⟩ with heq | heq | heq <;> rw [heq]
    · exact hp
    · exact hp
    · exact hp.imp_left (List.mem_append_left _)
  | stop | readError _ => exact Or.inl (hp.imp_left (List.mem_append_left _))
  | @startWrite i q _ hget hrun =>
    left
    obtain rfl := startWrite_eq hrun
    rcases hp with hp | hp
    · rcases Pending.eq_or_mem_eraseIdx hget hp with heq | hp
      · rw [Posted.startWrite.injEq] at heq
        exact Or.inr (List.mem_append_right _ (List.mem_singleton.mpr heq))
      · exact Or.inl hp
    · exact Or.inr (List.mem_append_left _ hp)
  | doClose hget =>
    left
    rw [doClose_frame]
    rcases hp with hp | hp
    · rcases Pending.eq_or_mem_eraseIdx hget hp with heq | hp
      · simp at heq
      · exact Or.inl hp
    · exact Or.inr hp
  | doConnect success _ =>
    rw [doConnect_frame]
    exact Or.inl hp
  | doRead _ hread =>
    obtain ⟨_, hd⟩ := Option.ite_none_left_eq_some.mp hread
    obtain rfl := Option.some.inj hd
    exact Or.inl hp
  | @writeDone i success q _ hget hdone =>
    rcases writeDone_eq hdone with ⟨_, rfl⟩ | ⟨_, rfl⟩
    · exact Or.inl (hp.imp_left (List.mem_append_left _))
    · rcases hp with hp | hp
      · exact Or.inl (Or.inl hp)
      · cases hlist : c.pendingList with
        | nil => simp [hlist] at hp
        | cons front rest =>
          rw [hlist, List.mem_cons] at hp
          rcases hp with rfl | hp
          · -- the write that completes is that of the front
            rcases hqueue with hflow | hblocked
            · right
              rw [hflow, hlist]
              exact List.mem_singleton.mpr rfl
            · rw [hblocked.2] at hget
              simp at hget
          · left
            right
            simp only [List.tail_cons]
            exact hp
  | timerAborted _ _ | timerExpired _ | doResponse _ => exact Or.inl hp

/-- postMessage returns eSuccess with its package posted. -/
theorem Steps.accepted (h : Steps cfg c a d) {n : ℕ} (hn : n ∈ d.accepted) :
    n ∈ c.accepted ∨ ∃ p, d.Carries p ∧ p.put = some n := by
  cases h with
  | @postCall i call _ =>
    rcases postCall_eq c i call with heq | heq <;> rw [heq] at hn ⊢
    · exact Or.inl hn
    · rcases List.mem_append.mp hn with hn | hn
      · exact Or.inl hn
      · exact Or.inr ⟨call, Or.inl (List.mem_append_right _ (List.mem_singleton.mpr rfl)),
          Option.mem_toList.mp hn⟩
  | publishMessage msg =>
    rw [publishMessage_frame] at hn
    exact Or.inl hn
  | postPackage pac =>
    rw [postPackage_frame] at hn
    exact Or.inl hn
  | startWrite _ hrun =>
    obtain rfl := startWrite_eq hrun
    exact Or.inl hn
  | doClose _ =>
    rw [doClose_frame] at hn
    exact Or.inl hn
  | doConnect success _ =>
    rw [doConnect_frame] at hn
    exact Or.inl hn
  | doRead _ hread =>
    obtain ⟨_, hd⟩ := Option.ite_none_left_eq_some.mp hread
    obtain rfl := Option.some.inj hd
    exact Or.inl hn
  | writeDone _ hdone => rcases writeDone_eq hdone with ⟨_, rfl⟩ | ⟨_, rfl⟩ <;> exact Or.inl hn
  | postMessage _ _ | stop | readError _ | timerAborted _ _ | timerExpired _ | doResponse _ =>
    exact Or.inl hn

/-- The package to write next is one that the client carries. -/
theorem carries_nextWrite {p : PackagePtr M} (h : c.nextWrite a = some p) : c.Carries p := by
  unfold nextWrite at h
  split at h
  · split at h
    · next i q hget =>
      obtain ⟨_, heq⟩ := Option.ite_none_right_eq_some.mp h
      obtain rfl := Option.some.inj heq
      exact Or.inl (List.mem_of_getElem? hget)
    · simp at h
  · exact Or.inr (List.mem_of_mem_tail (List.mem_of_mem_head? h))
  · simp at h

/-- A write that is outstanding after a step was so before it, or the step has started it. -/
theorem Steps.writes (h : Steps cfg c a d) {p : PackagePtr M} (hp : p ∈ d.writes) :
    p ∈ c.writes ∨ c.nextWrite a = some p := by
  have hstarted : ∀ l : List (PackagePtr M), p ∈ cfg.started l → l.head? = some p := by
    intro l hl
    unfold ClientConfig.started at hl
    split at hl
    · simp at hl
    · split at hl
      · rw [List.mem_singleton.mp hl]
        rfl
      · simp at hl
  rcases h.queue with ⟨_, _, _, hwrites⟩ | ⟨q, _, hnext, _, hwrites⟩ | ⟨i, q, _, _, _, hwrites⟩ |
    ⟨i, q, _, hnext, _, _, hwrites⟩
  · exact Or.inl (hwrites ▸ hp)
  · rw [hwrites, List.mem_append] at hp
    refine hp.imp_right fun hp => ?_
    rw [hnext]
    split at hp
    · next hnil =>
      rw [if_pos hnil]
      exact hstarted [q] hp
    · simp at hp
  · rw [hwrites] at hp
    exact Or.inl (List.mem_of_mem_eraseIdx hp)
  · rw [hwrites, List.mem_append] at hp
    refine hp.imp List.mem_of_mem_eraseIdx fun hp => ?_
    rw [hnext]
    exact hstarted _ hp

/-- What the client holds can be written, and has the number of the request that it is. -/
structure PackageInv (cfg : ClientConfig M) (c : AsioClient M) : Prop where
  queue : Flowing c ∨ Blocked c
  postable : ∀ p, c.Holds p → cfg.build.Postable cfg.enableCompressSize p.pac
  numbered : ∀ p, c.Holds p → ∀ n, p.put = some n → c.puts[n]? = some p.pac
  reqrep : ∀ p, c.Holds p → p.pac.header.msgType = MsgType.REQREP.code → ∃ n, p.put = some n

theorem PackageInv.step (h : PackageInv cfg c) (hok : Orderly cfg c a)
    (hstep : Steps cfg c a d) : PackageInv cfg d := by
  refine ⟨?_, ?_, ?_, ?_⟩
  · by_cases hwrite : NoWriteFailure cfg c a
    · exact h.queue.imp (fun hflow => hflow.step hwrite hstep) fun hblocked => hblocked.step hstep
    · exact Or.inr (h.queue.elim (fun hflow => hflow.blocked hwrite hstep) fun hblocked =>
        hblocked.step hstep)
  · intro p hp
    rcases hstep.holds hp with hp | hnew
    · exact h.postable p hp
    · cases hnew with
      | request isOrder msg => exact hok.1.postable (Build.plain_makePackage ..)
      | publish msg => exact Build.Fits.postable hok (Build.plain_makePackage ..)
      | ready pac => exact hok.1
  · intro p hp n hn
    rcases hstep.holds hp with hp | hnew
    · exact Pending.getElem?_of_initial hstep.puts_initial (h.numbered p hp n hn)
    · cases hnew with
      | request isOrder msg =>
        obtain rfl := Option.some.inj hn
        cases hstep
        simp [AsioClient.postMessage]
      | publish msg => simp at hn
      | ready pac => simp at hn
  · intro p hp htype
    rcases hstep.holds hp with hp | hnew
    · exact h.reqrep p hp htype
    · cases hnew with
      | request isOrder msg => exact ⟨_, rfl⟩
      | publish msg => exact absurd htype (show MsgType.PUBSUB.code ≠ MsgType.REQREP.code by decide)
      | ready pac => exact absurd htype hok.2

theorem packageInv_reachable (h : (machine cfg).ReachableWhen (Orderly cfg) c) :
    PackageInv cfg c := by
  refine Machine.ReachableWhen.invariant (I := PackageInv cfg) ?_
    (fun _ _ _ hc hok hstep => hc.step hok (.of_step hstep)) h
  refine ⟨Or.inl rfl, ?_, ?_, ?_⟩ <;> rintro p ((hp | hp) | hp) <;> exact nomatch hp

end AsioClient

end AsioMsg
