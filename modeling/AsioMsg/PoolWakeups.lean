import AsioMsg.ThreadPool

/-!
No lost wakeup in a ThreadPool. A queued task is work for a worker and a free
slot is work for a caller of run; as long as one of them sleeps, at least as
many have been notified as there is work. A worker that never slept may take
the task of a notified one, but then it has taken the work as well.
-/

namespace AsioMsg

namespace ThreadPool

variable {T : Type} {cfg : PoolConfig} {s t : ThreadPool T}

structure WakeInv (cfg : PoolConfig) (s : ThreadPool T) : Prop where
  workers : s.notEmpty.Covers s.queue.length
  callers : s.notFull.Covers (cfg.maxQueueSize - s.queue.length)
  unbounded : cfg.maxQueueSize = 0 → s.notFull.waiting = []
  stopped : s.running = false → s.notEmpty.waiting = [] ∧ s.notFull.waiting = []

/-- A caller of run may come back from its wait, and with it goes the notification of a slot. -/
theorem WakeInv.runLocked (hworkers : s.notEmpty.Covers s.queue.length)
    (hcallers : s.notFull.Covers (cfg.maxQueueSize - s.queue.length - 1))
    (hunbounded : cfg.maxQueueSize = 0 → s.notFull.waiting = [])
    (hstopped : s.running = false → s.notEmpty.waiting = [] ∧ s.notFull.waiting = [])
    (task : T) (wake : ℕ) : (s.runLocked cfg task wake).WakeInv cfg := by
  have hcases := s.runLocked_cases cfg task wake
  generalize s.runLocked cfg task wake = t at hcases
  cases hcases with
  | wait hfull hrunning =>
    simp only [isFull, Bool.and_eq_true, decide_eq_true_eq] at hfull
    refine ⟨hworkers, ?_, fun hzero => by omega, fun hno => by simp [hrunning] at hno⟩
    rw [Nat.sub_eq_zero_of_le hfull.2]
    exact CondVar.covers_zero _
  | refuse hno => exact ⟨hworkers, Or.inl (hstopped hno).2, hunbounded, hstopped⟩
  | accept _ hrunning =>
    refine ⟨?_, ?_, hunbounded, fun hno => by simp [hrunning] at hno⟩
    · simpa using hworkers.notifyOne wake
    · refine hcallers.mono ?_
      simp only [List.length_append, List.length_singleton]
      omega

/-- Likewise a worker and the notification of a task. -/
theorem WakeInv.takeLocked (hworkers : s.notEmpty.Covers (s.queue.length - 1))
    (hcallers : s.notFull.Covers (cfg.maxQueueSize - s.queue.length))
    (hunbounded : cfg.maxQueueSize = 0 → s.notFull.waiting = [])
    (hstopped : s.running = false → s.notEmpty.waiting = [] ∧ s.notFull.waiting = [])
    (worker wake : ℕ) : (s.takeLocked cfg worker wake).WakeInv cfg := by
  have hcases := s.takeLocked_cases cfg worker wake
  generalize s.takeLocked cfg worker wake = t at hcases
  cases hcases with
  | wait hqueue hrunning =>
    refine ⟨?_, hcallers, hunbounded, fun hno => by simp [hrunning] at hno⟩
    rw [hqueue]
    exact CondVar.covers_zero _
  | none hqueue hno =>
    refine ⟨?_, hcallers, hunbounded, hstopped⟩
    rw [hqueue]
    exact CondVar.covers_zero _
  | @take task rest hqueue =>
    rw [hqueue, List.length_cons] at hworkers hcallers
    refine ⟨hworkers, ?_, ?_, ?_⟩
    · by_cases hmax : 0 < cfg.maxQueueSize
      · rw [if_pos hmax]
        refine (hcallers.notifyOne wake).mono ?_
        change cfg.maxQueueSize - rest.length ≤ cfg.maxQueueSize - (rest.length + 1) + 1
        omega
      · rw [if_neg hmax]
        refine hcallers.mono ?_
        change cfg.maxQueueSize - rest.length ≤ cfg.maxQueueSize - (rest.length + 1)
        omega
    · intro hzero
      rw [if_neg (by omega)]
      exact hunbounded hzero
    · intro hno
      obtain ⟨hempty, hfull⟩ := hstopped hno
      refine ⟨hempty, ?_⟩
      split
      · exact CondVar.waiting_notifyOne wake hfull
      · exact hfull

theorem WakeInv.step (h : s.WakeInv cfg) {a : ThreadPoolAction T}
    (hstep : s.step cfg a = some t) : t.WakeInv cfg := by
  cases a with
  | run task =>
    obtain rfl := Option.some.inj hstep
    unfold ThreadPool.run
    split
    · exact ⟨h.workers, h.callers, h.unbounded, h.stopped⟩
    · exact ⟨h.workers, h.callers, h.unbounded, h.stopped⟩
  | enterRun i wake =>
    obtain ⟨task, _, rfl⟩ := Option.map_eq_some_iff.mp hstep
    exact WakeInv.runLocked (s := { s with calls := s.calls.eraseIdx i }) h.workers
      (h.callers.mono (Nat.sub_le _ 1)) h.unbounded h.stopped task wake
  | resumeRun w wake =>
    obtain ⟨back, hback, rfl⟩ := Option.map_eq_some_iff.mp hstep
    have hwaiting := CondVar.waiting_resume hback
    refine WakeInv.runLocked (s := { s with notFull := back.2 }) h.workers
      (h.callers.resume hback) ?_ ?_ back.1 wake
    · exact fun hzero => hwaiting.trans (h.unbounded hzero)
    · exact fun hno => (h.stopped hno).imp_right hwaiting.trans
  | enterTake i wake =>
    obtain ⟨worker, _, rfl⟩ := Option.map_eq_some_iff.mp hstep
    exact WakeInv.takeLocked (s := { s with taking := s.taking.eraseIdx i })
      (h.workers.mono (Nat.sub_le _ 1)) h.callers h.unbounded h.stopped worker wake
  | resumeTake w wake =>
    obtain ⟨back, hback, rfl⟩ := Option.map_eq_some_iff.mp hstep
    have hwaiting := CondVar.waiting_resume hback
    refine WakeInv.takeLocked (s := { s with notEmpty := back.2 }) (h.workers.resume hback)
      h.callers h.unbounded ?_ back.1 wake
    exact fun hno => (h.stopped hno).imp_left hwaiting.trans
  | loop | finish =>
    obtain ⟨_, _, rfl⟩ := Option.map_eq_some_iff.mp hstep
    exact ⟨h.workers, h.callers, h.unbounded, h.stopped⟩
  | stop =>
    obtain rfl := Option.some.inj hstep
    exact ⟨CondVar.covers_notifyAll _ _, CondVar.covers_notifyAll _ _, fun _ => rfl,
      fun _ => ⟨rfl, rfl⟩⟩
  | rouseWorker i =>
    obtain ⟨cv, hcv, rfl⟩ := Option.map_eq_some_iff.mp hstep
    exact ⟨h.workers.rouse hcv, h.callers, h.unbounded,
      fun hno => (h.stopped hno).imp_left (CondVar.waiting_rouse hcv)⟩
  | rouseCaller i =>
    obtain ⟨cv, hcv, rfl⟩ := Option.map_eq_some_iff.mp hstep
    exact ⟨h.workers, h.callers.rouse hcv,
      fun hzero => CondVar.waiting_rouse hcv (h.unbounded hzero),
      fun hno => (h.stopped hno).imp_right (CondVar.waiting_rouse hcv)⟩

theorem wakeInv_reachable (h : (machine cfg T).Reachable s) : s.WakeInv cfg := by
  refine Machine.Reachable.invariant (I := WakeInv cfg) ?_ (fun _ _ _ hs ht => hs.step ht) h
  exact ⟨Or.inl rfl, Or.inl rfl, fun _ => rfl, fun _ => ⟨rfl, rfl⟩⟩

/-- In no state does a worker sleep while more tasks are queued than workers are notified, or a
caller of run while more slots are free than callers are notified; so beside queued work and a
sleeping worker there is a notified one. Without a bound no caller ever sleeps, and after stop
nobody does. -/
theorem no_lost_wakeup (h : (machine cfg T).Reachable s) :
    ¬ (s.notEmpty.notified.length < s.queue.length ∧ s.notEmpty.waiting ≠ []) ∧
      (s.queue ≠ [] → s.notEmpty.waiting ≠ [] → s.notEmpty.notified ≠ []) ∧
      ¬ (s.notFull.notified.length < cfg.maxQueueSize - s.queue.length ∧
        s.notFull.waiting ≠ []) ∧
      (cfg.maxQueueSize = 0 → s.notFull.waiting = []) ∧
      (s.running = false → s.notEmpty.waiting = [] ∧ s.notFull.waiting = []) := by
  have hinv := wakeInv_reachable h
  refine ⟨?_, ?_, ?_, hinv.unbounded, hinv.stopped⟩
  · rintro ⟨hlt, hsleep⟩
    exact absurd (hinv.workers.resolve_left hsleep) (Nat.not_le_of_lt hlt)
  · intro hwork hsleep
    have hle := hinv.workers.resolve_left hsleep
    exact List.ne_nil_of_length_pos (Nat.lt_of_lt_of_le (List.length_pos_iff.mpr hwork) hle)
  · rintro ⟨hlt, hsleep⟩
    exact absurd (hinv.callers.resolve_left hsleep) (Nat.not_le_of_lt hlt)

/-- Two workers sleep; a task comes, and a third worker takes it before the notified one. -/
def stolenTask : List (ThreadPoolAction ℕ) :=
  [.loop 0, .loop 0, .loop 0, .enterTake 0 0, .enterTake 0 0, .run 7, .run 8, .enterRun 0 0,
    .enterTake 0 0, .enterRun 0 0]

theorem no_lost_wakeup_stolen :
    ∃ s : ThreadPool ℕ, s.queue = [8] ∧ s.notEmpty.notified.length = 2 ∧
      ¬ (s.notEmpty.notified.length < s.queue.length ∧ s.notEmpty.waiting ≠ []) := by
  have hrun : ∃ s : ThreadPool ℕ, (machine ⟨3, 0⟩ ℕ).run (fun _ _ => True)
      (machine ⟨3, 0⟩ ℕ).init stolenTask = some s ∧ s.queue = [8] ∧
        s.notEmpty.notified.length = 2 := ⟨_, rfl, rfl, rfl⟩
  obtain ⟨s, hs, hqueue, hnotified⟩ := hrun
  exact ⟨s, hqueue, hnotified, (no_lost_wakeup (Machine.reachableWhen_of_run stolenTask hs)).1⟩

end ThreadPool

end AsioMsg
