import AsioMsg.ClientPackages
import AsioMsg.SendWaits

/-!
What sendMessage returns, and that it returns. A posted call that has been called
back is never more than three steps of its own from its return, and no step
of any other thread sets it back.
-/

namespace AsioMsg

variable {M : Type}

namespace Senders

variable {cfg : ClientConfig M} {s t : Senders M} {a : SendAction M} {n : ℕ} {call : SendCall M}

/-- A call of sendMessage that has returned. If its request was refused, it returns why. If not,
its request has been called back: it returns eTimeout, with rspPtr as it was, or eSuccess, with
the message of a package that the client has read under the id of the request; and no callback
writes to its frame any more. -/
theorem sendMessage_result (h : (machine cfg).Reachable s) (hcall : s.sends n = some call)
    {code : ErrorCode} {rspPtr : Option M} (hphase : call.phase = .returned code rspPtr) :
    (n ∉ s.client.accepted ∧ (code = .eServiceStopped ∨ code = .eDisconnect)) ∨
    (n ∈ s.client.accepted ∧ n ∉ s.late ∧ s.client.CalledBack n ∧
      ((code = .eTimeout ∧ rspPtr = none) ∨
        (code = .eSuccess ∧ ∃ req, s.client.puts[n]? = some req ∧ ∃ rsp ∈ s.client.handed,
          rspPtr = rsp.msgPtr ∧ rsp.header.msgType = MsgType.REQREP.code ∧
          rsp.header.msgId = req.header.msgId))) := by
  have hinv := sendInv_reachable h
  have hplaced := hinv.posts.placed n call hcall
  simp only [Placed, hphase] at hplaced
  refine hplaced.symm.imp_right ?_
  rintro ⟨hacc, hwait, rfl, rfl⟩
  refine ⟨hacc, fun hlate => (hinv.late n hlate).1 hacc, ?_⟩
  cases hinv.callbacks.stage n call hcall with
  | asked hasked _ _ => simp [hwait] at hasked
  | running _ _ _ hrunning _ => simp [hwait] at hrunning
  | done inv hmem hres _ _ herr hrsp =>
    refine ⟨hres ▸ List.mem_map_of_mem hmem, ?_⟩
    rw [herr, hrsp, Invocation.result]
    rcases hinv.responses.result inv hmem with ⟨herror, _⟩ | ⟨herror, rsp, hhanded, hsome, hrsp⟩
    · exact Or.inl ⟨herror, by simp [herror]⟩
    · refine Or.inr ⟨herror, inv.req, hres ▸ hinv.once.request inv hmem, rsp, hhanded, ?_, hrsp⟩
      simp [herror, hsome]

/-- A sendMessage that sleeps until its answer comes; the answer is its own request, sent back. -/
def pingSend : List (SendAction PingPong) :=
  [.client (.doConnect true), .sendMessage PingPong.blank, .postReturn 0 0, .lock 0,
    .client (.runPosted 0), .client (.writeDone 0 true),
    .client (.doRead (AsioClient.pingConfig.bytesOf ⟨PingPong.request PingPong.blank 1, none⟩)),
    .client .doResponse]

theorem sendMessage_result_ping :
    ∃ (s : Senders PingPong) (call : SendCall PingPong), s.sends 0 = some call ∧
      call.phase = .returned .eSuccess (some PingPong.blank) ∧ s.client.CalledBack 0 ∧
      0 ∉ s.late := by
  have hrun : ((machine AsioClient.pingConfig).run (fun _ _ => True)
      (machine AsioClient.pingConfig).init (pingSend ++ [.store 0, .notify 0,
        .resume (.notified 0)])).map (fun s => (s.client.accepted, s.sends 0)) =
      some ([0], some ⟨.returned .eSuccess (some PingPong.blank), false, .eSuccess,
        some PingPong.blank⟩) := by
    decide +kernel
  obtain ⟨s, hs, hstate⟩ := Option.map_eq_some_iff.mp hrun
  obtain ⟨hacc, hcall⟩ := Prod.mk.inj hstate
  rcases sendMessage_result (Machine.reachableWhen_of_run _ hs) hcall rfl with ⟨hno, _⟩ |
    ⟨_, hlate, hcalled, _⟩
  · simp [hacc] at hno
  · exact ⟨s, _, hcall, rfl, hcalled, hlate⟩

/-- The callback of the call has stored its result. -/
def hasStored (s : Senders M) (n : ℕ) : Bool :=
  s.callbacks.any fun callback => decide (callback.inv.res = n) && callback.stored

/-- The steps that the caller and the callback have left, given whether the latter has stored its
result. -/
def SendCall.due (call : SendCall M) (stored : Bool) : ℕ :=
  if call.hasReturned then 0 else if !call.isWait then 1 else if stored then 2 else 3

/-- How many steps of its own a call that has been called back is from its return. -/
def due (s : Senders M) (n : ℕ) : ℕ :=
  ((s.sends n).map fun call => SendCall.due call (s.hasStored n)).getD 0

theorem due_eq (hcall : s.sends n = some call) : s.due n = SendCall.due call (s.hasStored n) := by
  rw [due, hcall]
  rfl

/-- A frame stays until its call has returned, and after. -/
theorem Steps.sends_isSome (h : Steps cfg s a t) (hcall : s.sends n = some call) :
    (t.sends n).isSome = true := by
  have hupdate : ∀ m (other : SendCall M),
      (Function.update s.sends m (some other) n).isSome = true := by
    intro m other
    by_cases heq : n = m
    · rw [heq, Function.update_self]
      rfl
    · rw [Function.update_of_ne heq, hcall]
      rfl
  have hsame : (s.sends n).isSome = true := by
    rw [hcall]
    rfl
  cases h with
  | client _ _ | rouse _ => exact hsame
  | sendMessage _ | postReturn _ _ _ | store _ _ _ | notify _ _ _ => exact hupdate _ _
  | lock _ _ | resume _ _ =>
    unfold locked
    split <;> exact hupdate _ _

/-- A step of another thread leaves the frame of a call and its callback alone. -/
theorem Steps.frame_cases (h : Steps cfg s a t) (hinv : SendInv s) (hcall : s.sends n = some call)
    (hacc : n ∈ s.client.accepted) :
    (t.sends n = some call ∧ (s.hasStored n = true → t.hasStored n = true)) ∨
    (call.hasReturned = false ∧ ∃ cond, t = { s with cond := cond }.locked n call) ∨
    (∃ i callback, s.callbacks[i]? = some callback ∧ callback.inv.res = n ∧
      t = s.store i callback call) ∨
    ∃ i callback, s.callbacks[i]? = some callback ∧ callback.inv.res = n ∧
      callback.stored = true ∧ t = s.notify i callback call := by
  cases h with
  | client _ _ =>
    refine Or.inl ⟨hcall, fun hstored => ?_⟩
    simp only [hasStored, setClient, List.any_append, Bool.or_eq_true]
    exact Or.inl hstored
  | sendMessage msg =>
    refine Or.inl ⟨(Function.update_of_ne ?_ ..).trans hcall, id⟩
    exact Nat.ne_of_lt (hinv.posts.sent n call hcall)
  | @postReturn m i _ p _ hget hput =>
    refine Or.inl ⟨(Function.update_of_ne ?_ ..).trans hcall, id⟩
    rintro rfl
    exact (hinv.posts.posting p (List.mem_of_getElem? hget) n hput).2.1 hacc
  | @lock m other hother hphase =>
    by_cases heq : n = m
    · subst heq
      obtain rfl := Option.some.inj (hcall.symm.trans hother)
      exact Or.inr (Or.inl ⟨by simp [SendCall.hasReturned, hphase], s.cond, rfl⟩)
    · refine Or.inl ⟨?_, ?_⟩
      · unfold locked
        split <;> exact (Function.update_of_ne heq ..).trans hcall
      · unfold locked
        split <;> exact id
  | @resume w m cond other hback hother =>
    by_cases heq : n = m
    · subst heq
      obtain rfl := Option.some.inj (hcall.symm.trans hother)
      have hphase := (hinv.waits.mem_threads_iff hcall).mp
        ((CondVar.perm_resume hback).mem_iff.mpr (List.mem_cons_self ..))
      exact Or.inr (Or.inl ⟨by simp [SendCall.hasReturned, hphase], cond, rfl⟩)
    · refine Or.inl ⟨?_, ?_⟩
      · unfold locked
        split <;> exact (Function.update_of_ne heq ..).trans hcall
      · unfold locked
        split <;> exact id
  | rouse _ => exact Or.inl ⟨hcall, id⟩
  | @store i callback other hget hstored hother =>
    by_cases heq : n = callback.inv.res
    · subst heq
      obtain rfl := Option.some.inj (hcall.symm.trans hother)
      exact Or.inr (Or.inr (Or.inl ⟨i, callback, hget, rfl, rfl⟩))
    · refine Or.inl ⟨(Function.update_of_ne heq ..).trans hcall, fun hdone => ?_⟩
      obtain ⟨done, hmem, hdone⟩ := List.any_eq_true.mp hdone
      refine List.any_eq_true.mpr ⟨done, ?_, hdone⟩
      rcases Pending.mem_set_or_eq hget hmem with hmem | rfl
      · exact hmem
      · simp [hstored] at hdone
  | @notify i callback other hget hstored hother =>
    by_cases heq : n = callback.inv.res
    · subst heq
      obtain rfl := Option.some.inj (hcall.symm.trans hother)
      exact Or.inr (Or.inr (Or.inr ⟨i, callback, hget, rfl, hstored, rfl⟩))
    · refine Or.inl ⟨(Function.update_of_ne heq ..).trans hcall, fun hdone => ?_⟩
      obtain ⟨done, hmem, hdone⟩ := List.any_eq_true.mp hdone
      refine List.any_eq_true.mpr ⟨done, ?_, hdone⟩
      rcases Pending.eq_or_mem_eraseIdx hget hmem with rfl | hmem
      · simp [Ne.symm heq] at hdone
      · exact hmem

theorem SendCall.due_le (call : SendCall M) (stored : Bool) : due call stored ≤ 3 := by
  unfold due
  repeat' split
  all_goals omega

theorem due_le (s : Senders M) (n : ℕ) : s.due n ≤ 3 := by
  cases hcall : s.sends n with
  | none => simp [due, hcall]
  | some call => exact due_eq hcall ▸ SendCall.due_le call _

theorem SendCall.due_returned (h : call.hasReturned = true) (stored : Bool) :
    due call stored = 0 :=
  if_pos h

theorem SendCall.due_done (h : call.hasReturned = false) (hwait : call.isWait = false)
    (stored : Bool) : due call stored = 1 := by
  simp [due, h, hwait]

theorem SendCall.due_waiting (h : call.hasReturned = false) (hwait : call.isWait = true)
    (stored : Bool) : due call stored = if stored then 2 else 3 := by
  simp [due, h, hwait]

theorem SendCall.due_notified (h : call.hasReturned = false) (stored : Bool) :
    due { call with isWait := false } stored = 1 := by
  have hopen : SendCall.hasReturned { call with isWait := false } = false := h
  exact due_done hopen rfl stored

theorem SendCall.due_mono (call : SendCall M) {stored stored' : Bool}
    (h : stored = true → stored' = true) : due call stored' ≤ due call stored := by
  cases hreturned : call.hasReturned with
  | true => exact Nat.le_of_eq ((due_returned hreturned _).trans (due_returned hreturned _).symm)
  | false =>
    cases hwait : call.isWait with
    | true =>
      rw [due_waiting hreturned hwait, due_waiting hreturned hwait]
      cases stored with
      | true => exact Nat.le_of_eq (by rw [h rfl])
      | false => cases stored' <;> decide
    | false =>
      exact Nat.le_of_eq ((due_done hreturned hwait _).trans (due_done hreturned hwait _).symm)

theorem hasStored_store {i : ℕ} {callback : SendCallback M}
    (hget : s.callbacks[i]? = some callback) (call : SendCall M) :
    (s.store i callback call).hasStored callback.inv.res = true := by
  have hi := (List.getElem?_eq_some_iff.mp hget).1
  exact List.any_eq_true.mpr ⟨_, List.mem_set hi _, by simp⟩

/-- No step of any thread takes a posted call further from its return. -/
theorem due_step (hinv : SendInv s) (hcall : s.sends n = some call)
    (hacc : n ∈ s.client.accepted) (hstep : s.step cfg a = some t) : t.due n ≤ s.due n := by
  rw [due_eq hcall]
  rcases (Steps.of_step hstep).frame_cases hinv hcall hacc with ⟨hsame, hstored⟩ |
    ⟨hreturned, cond, rfl⟩ | ⟨i, callback, hget, rfl, rfl⟩ | ⟨i, callback, hget, rfl, hstored, rfl⟩
  · rw [due_eq hsame]
    exact SendCall.due_mono call hstored
  · unfold locked
    split
    · next hwait =>
      rw [due_eq (Function.update_self ..)]
      refine Nat.le_of_eq ?_
      simp only [SendCall.due, hreturned]
      rfl
    · rw [due_eq (Function.update_self ..)]
      exact Nat.zero_le _
  · rw [due_eq (Function.update_self ..), hasStored_store hget]
    exact SendCall.due_mono call fun _ => rfl
  · have hwait := (hinv.callbacks.running (List.mem_of_getElem? hget) hcall).1
    rw [due_eq (Function.update_self ..)]
    cases hreturned : call.hasReturned with
    | true =>
      have hafter : SendCall.hasReturned { call with isWait := false } = true := hreturned
      exact Nat.le_trans (Nat.le_of_eq (SendCall.due_returned hafter _)) (Nat.zero_le _)
    | false =>
      rw [SendCall.due_notified hreturned, SendCall.due_waiting hreturned hwait]
      split <;> omega

/-- The call of sendMessage whose caller or whose callback takes the step. -/
def actor (s : Senders M) : SendAction M → Option ℕ
  | .lock n => some n
  | .resume w => (s.cond.resume w).map Prod.fst
  | .store i | .notify i => (s.callbacks[i]?).map fun callback => callback.inv.res
  | _ => none

/-- The caller or the callback can take a step that brings the call closer to its return. -/
theorem due_progress (cfg : ClientConfig M) (hinv : SendInv s) (hcall : s.sends n = some call)
    (hacc : n ∈ s.client.accepted) (hcalled : s.client.CalledBack n) (hdue : s.due n ≠ 0) :
    ∃ a t, s.actor a = some n ∧ s.step cfg a = some t ∧ t.client = s.client ∧
      t.due n < s.due n := by
  have hopen : call.hasReturned = false := by
    by_contra hreturned
    rw [Bool.not_eq_false] at hreturned
    exact hdue (by rw [due_eq hcall, SendCall.due, if_pos hreturned])
  cases hinv.callbacks.stage n call hcall with
  | asked _ _ hasked => exact absurd hcalled hasked
  | running callback hmem hres hwait _ =>
    obtain ⟨i, hget⟩ := List.getElem?_of_mem hmem
    obtain rfl : callback.inv.res = n := hres
    cases hstored : callback.stored with
    | false =>
      refine ⟨.store i, s.store i callback call, by simp [actor, hget], ?_, rfl, ?_⟩
      · simp [step, hget, hstored, hcall]
      · have hnot : s.hasStored callback.inv.res = false := by
          refine List.any_eq_false.mpr fun other hother => ?_
          rw [Bool.and_eq_true, decide_eq_true_eq]
          rintro ⟨heq, hdone⟩
          obtain rfl := hinv.callbacks.eq_of_res hother hmem heq
          simp [hstored] at hdone
        have hbefore := SendCall.due_waiting hopen hwait false
        have hafter : SendCall.due (call.store callback.inv) true = _ :=
          SendCall.due_waiting hopen hwait true
        rw [due_eq hcall, due_eq (Function.update_self ..), hasStored_store hget, hnot, hbefore,
          hafter]
        decide
    | true =>
      refine ⟨.notify i, s.notify i callback call, by simp [actor, hget], ?_, rfl, ?_⟩
      · simp [step, hget, hstored, hcall]
      · rw [due_eq hcall, due_eq (Function.update_self ..), SendCall.due_waiting hopen hwait,
          SendCall.due_notified hopen]
        split <;> omega
  | done inv _ _ _ hwait _ _ =>
    have hdrop : ∀ cond, ({ s with cond := cond }.locked n call).due n < s.due n := by
      intro cond
      rw [due_eq hcall, SendCall.due_done hopen hwait, locked, if_neg (by simp [hwait]),
        due_eq (Function.update_self ..)]
      exact Nat.zero_lt_one
    have hclient : ∀ cond, ({ s with cond := cond }.locked n call).client = s.client := by
      intro cond
      rw [locked, if_neg (by simp [hwait])]
    have hplaced := hinv.posts.placed n call hcall
    unfold Placed at hplaced
    split at hplaced
    · next hphase =>
      obtain ⟨p, hp, hput⟩ := hplaced
      exact absurd hacc (hinv.posts.posting p hp n hput).2.1
    · next hphase =>
      exact ⟨.lock n, _, rfl, by simp [step, hcall, hphase], hclient s.cond, hdrop s.cond⟩
    · next hphase =>
      -- a sleeper still waits for its callback, so this one has been woken
      have hthread := (hinv.waits.mem_threads_iff hcall).mpr hphase
      have hawake : n ∉ s.cond.waiting := by
        intro hsleeps
        obtain ⟨other, hother, hwaits⟩ := hinv.waits.asleep n hsleeps
        obtain rfl := Option.some.inj (hcall.symm.trans hother)
        simp [hwait] at hwaits
      obtain ⟨w, cond, hback⟩ := s.cond.exists_resume hthread hawake
      exact ⟨.resume w, _, by simp [actor, hback], by simp [step, hback, hcall], hclient cond,
        hdrop cond⟩
    · next hphase => simp [SendCall.hasReturned, hphase] at hopen

/-- From a state with the invariant the steps that are left lead to the return. -/
theorem exists_return (cfg : ClientConfig M) (k : ℕ) (hinv : SendInv s)
    (hcall : s.sends n = some call) (hacc : n ∈ s.client.accepted)
    (hcalled : s.client.CalledBack n) (hdue : s.due n ≤ k) :
    ∃ labels t, labels.length ≤ k ∧
      (machine cfg).run (fun s a => s.actor a = some n) s labels = some t ∧
      ∃ call code rspPtr, t.sends n = some call ∧ call.phase = .returned code rspPtr := by
  induction k generalizing s call with
  | zero =>
    refine ⟨[], s, Nat.le_refl _, rfl, call, ?_⟩
    rw [due_eq hcall] at hdue
    cases hreturned : call.hasReturned with
    | true =>
      unfold SendCall.hasReturned at hreturned
      split at hreturned
      · next code rspPtr hphase => exact ⟨code, rspPtr, hcall, hphase⟩
      · simp at hreturned
    | false =>
      cases hwait : call.isWait with
      | true =>
        rw [SendCall.due_waiting hreturned hwait] at hdue
        split at hdue <;> omega
      | false =>
        rw [SendCall.due_done hreturned hwait] at hdue
        omega
  | succ k ih =>
    by_cases hzero : s.due n = 0
    · obtain ⟨labels, t, hlen, hrest⟩ := ih hinv hcall hacc hcalled (by omega)
      exact ⟨labels, t, Nat.le_succ_of_le hlen, hrest⟩
    · obtain ⟨a, u, hown, hstep, hclient, hlt⟩ := due_progress cfg hinv hcall hacc hcalled hzero
      have hsent := (Steps.of_step hstep).sends_isSome hcall
      obtain ⟨call', hcall'⟩ := Option.isSome_iff_exists.mp hsent
      obtain ⟨labels, t, hlen, hrun, hreturn⟩ := ih (hinv.step (.of_step hstep)) hcall'
        (hclient ▸ hacc) (hclient ▸ hcalled) (by omega)
      refine ⟨a :: labels, t, Nat.succ_le_succ hlen, ?_, hreturn⟩
      rw [Machine.run, if_pos hown]
      exact Option.bind_eq_some_iff.mpr ⟨u, hstep, hrun⟩

/-- In every reachable state, a posted sendMessage that has been called back is at most three
steps of its caller and its callback from its return, whatever else goes on: no step of any thread
sets it back, and no step of the client or of another call is needed. -/
theorem sendMessage_returns (h : (machine cfg).Reachable s) (hcall : s.sends n = some call)
    (hacc : n ∈ s.client.accepted) (hcalled : s.client.CalledBack n) :
    (∀ a t, s.step cfg a = some t → t.due n ≤ s.due n) ∧
      ∃ labels t, labels.length ≤ 3 ∧
        (machine cfg).run (fun s a => s.actor a = some n) s labels = some t ∧
        ∃ call code rspPtr, t.sends n = some call ∧ call.phase = .returned code rspPtr := by
  have hinv := sendInv_reachable h
  refine ⟨fun a t hstep => due_step hinv hcall hacc hstep, ?_⟩
  exact exists_return cfg 3 hinv hcall hacc hcalled (s.due_le n)

theorem sendMessage_returns_ping :
    ∃ s : Senders PingPong, s.due 0 = 3 ∧ s.cond.waiting = [0] ∧ ∃ labels t,
      labels.length ≤ 3 ∧
      (machine AsioClient.pingConfig).run (fun s a => s.actor a = some 0) s labels = some t ∧
      t.due 0 ≤ s.due 0 := by
  have hrun : ((machine AsioClient.pingConfig).run (fun _ _ => True)
      (machine AsioClient.pingConfig).init pingSend).map
      (fun s => (s.client.accepted, s.cond.waiting, s.due 0,
        s.client.invoked.map Invocation.res, (s.sends 0).isSome)) =
      some ([0], [0], 3, [0], true) := by
    decide +kernel
  obtain ⟨s, hs, hstate⟩ := Option.map_eq_some_iff.mp hrun
  simp only [Prod.mk.injEq] at hstate
  obtain ⟨hacc, hwaiting, hdue, hinvoked, hsome⟩ := hstate
  obtain ⟨call, hcall⟩ := Option.isSome_iff_exists.mp hsome
  obtain ⟨_, labels, t, hlen, hrun, _⟩ := sendMessage_returns
    (Machine.reachableWhen_of_run _ hs) hcall (by simp [hacc])
    (by simp [AsioClient.CalledBack, hinvoked])
  refine ⟨s, hdue, hwaiting, labels, t, hlen, hrun, ?_⟩
  rw [hdue]
  exact due_le t 0

end Senders

end AsioMsg
