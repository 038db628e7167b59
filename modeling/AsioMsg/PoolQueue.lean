import AsioMsg.ThreadPool

/-!
The queue of a ThreadPool. Between the tasks that run accepts and those that
take hands out there is nothing but the queue, in one order, and what holds
of a queue under its bound is kept by every critical section.
-/

namespace AsioMsg

namespace ThreadPool

variable {T : Type} {cfg : PoolConfig} {s t : ThreadPool T}

structure QueueInv (cfg : PoolConfig) (s : ThreadPool T) : Prop where
  accepted_eq : s.accepted = s.handed ++ s.queue
  bounded : 0 < cfg.maxQueueSize → s.queue.length ≤ cfg.maxQueueSize
  asserted : s.assertFailed = false

/-- What threads do outside the queue. -/
structure SameQueue (s t : ThreadPool T) : Prop where
  running : t.running = s.running
  queue : t.queue = s.queue
  accepted : t.accepted = s.accepted
  handed : t.handed = s.handed
  assertFailed : t.assertFailed = s.assertFailed

/-- A step as the queue sees it: a critical section after changes elsewhere, or only these. -/
inductive QueueStep (cfg : PoolConfig) (s : ThreadPool T) : ThreadPool T → Prop
  | outside {u : ThreadPool T} : SameQueue s u → QueueStep cfg s u
  | run {u : ThreadPool T} (task : T) (wake : ℕ) :
      SameQueue s u → QueueStep cfg s (u.runLocked cfg task wake)
  | take {u : ThreadPool T} (worker wake : ℕ) :
      SameQueue s u → QueueStep cfg s (u.takeLocked cfg worker wake)
  | stop : QueueStep cfg s s.stop

theorem QueueStep.of_step {a : ThreadPoolAction T} (hstep : s.step cfg a = some t) :
    s.QueueStep cfg t := by
  cases a with
  | run task =>
    obtain rfl := Option.some.inj hstep
    unfold ThreadPool.run
    split
    · exact .outside ⟨rfl, rfl, rfl, rfl, rfl⟩
    · exact .outside ⟨rfl, rfl, rfl, rfl, rfl⟩
  | enterRun i wake =>
    obtain ⟨task, _, rfl⟩ := Option.map_eq_some_iff.mp hstep
    exact .run task wake ⟨rfl, rfl, rfl, rfl, rfl⟩
  | resumeRun w wake =>
    obtain ⟨back, _, rfl⟩ := Option.map_eq_some_iff.mp hstep
    exact .run back.1 wake ⟨rfl, rfl, rfl, rfl, rfl⟩
  | enterTake i wake =>
    obtain ⟨worker, _, rfl⟩ := Option.map_eq_some_iff.mp hstep
    exact .take worker wake ⟨rfl, rfl, rfl, rfl, rfl⟩
  | resumeTake w wake =>
    obtain ⟨back, _, rfl⟩ := Option.map_eq_some_iff.mp hstep
    exact .take back.1 wake ⟨rfl, rfl, rfl, rfl, rfl⟩
  | stop =>
    obtain rfl := Option.some.inj hstep
    exact .stop
  | loop | finish | rouseWorker | rouseCaller =>
    obtain ⟨_, _, rfl⟩ := Option.map_eq_some_iff.mp hstep
    exact .outside ⟨rfl, rfl, rfl, rfl, rfl⟩

theorem QueueInv.outside (h : s.QueueInv cfg) (hsame : SameQueue s t) : t.QueueInv cfg where
  accepted_eq := by rw [hsame.accepted, hsame.handed, hsame.queue, h.accepted_eq]
  bounded hmax := by
    rw [hsame.queue]
    exact h.bounded hmax
  asserted := hsame.assertFailed.trans h.asserted

theorem QueueInv.runLocked (h : s.QueueInv cfg) (task : T) (wake : ℕ) :
    (s.runLocked cfg task wake).QueueInv cfg := by
  have hcases := s.runLocked_cases cfg task wake
  generalize s.runLocked cfg task wake = t at hcases
  cases hcases with
  | wait _ _ => exact h.outside ⟨rfl, rfl, rfl, rfl, rfl⟩
  | refuse _ => exact h
  | accept hfull _ =>
    refine ⟨?_, ?_, h.asserted⟩
    · simp only [h.accepted_eq, List.append_assoc]
    · intro hmax
      simp only [isFull, hmax, decide_true, Bool.true_and, decide_eq_false_iff_not] at hfull
      simp only [List.length_append, List.length_singleton]
      omega

theorem QueueInv.takeLocked (h : s.QueueInv cfg) (worker wake : ℕ) :
    (s.takeLocked cfg worker wake).QueueInv cfg := by
  have hcases := s.takeLocked_cases cfg worker wake
  generalize s.takeLocked cfg worker wake = t at hcases
  cases hcases with
  | wait _ _ | none _ _ => exact h.outside ⟨rfl, rfl, rfl, rfl, rfl⟩
  | @take task rest hqueue =>
    have haccepted := h.accepted_eq
    have hbound := h.bounded
    rw [hqueue] at haccepted hbound
    refine ⟨?_, ?_, h.asserted⟩
    · simp only [haccepted, List.append_assoc, List.singleton_append]
    · intro hmax
      have hle := hbound hmax
      rw [List.length_cons] at hle
      exact Nat.le_of_succ_le hle

theorem QueueInv.step (h : s.QueueInv cfg) (hstep : s.QueueStep cfg t) : t.QueueInv cfg := by
  cases hstep with
  | outside hsame => exact h.outside hsame
  | run task wake hsame => exact (h.outside hsame).runLocked task wake
  | take worker wake hsame => exact (h.outside hsame).takeLocked worker wake
  | stop => exact ⟨h.accepted_eq, h.bounded, h.asserted⟩

theorem runLocked_stopped (hstopped : s.running = false) (task : T) (wake : ℕ) :
    (s.runLocked cfg task wake).running = false ∧
      (s.runLocked cfg task wake).accepted = s.accepted := by
  simp [runLocked, hstopped]

theorem takeLocked_stopped (hstopped : s.running = false) (worker wake : ℕ) :
    (s.takeLocked cfg worker wake).running = false ∧
      (s.takeLocked cfg worker wake).accepted = s.accepted := by
  have hcases := s.takeLocked_cases cfg worker wake
  generalize s.takeLocked cfg worker wake = t at hcases
  cases hcases with
  | wait | none | take => exact ⟨hstopped, rfl⟩

/-- A stopped pool stays stopped and accepts nothing. -/
theorem stopped_step (hstopped : s.running = false) (hstep : s.QueueStep cfg t) :
    t.running = false ∧ t.accepted = s.accepted := by
  cases hstep with
  | outside hsame => exact ⟨hsame.running.trans hstopped, hsame.accepted⟩
  | run task wake hsame =>
    rw [← hsame.accepted]
    exact runLocked_stopped (hsame.running.trans hstopped) task wake
  | take worker wake hsame =>
    rw [← hsame.accepted]
    exact takeLocked_stopped (hsame.running.trans hstopped) worker wake
  | stop => exact ⟨rfl, rfl⟩

theorem queueInv_reachable (h : (machine cfg T).Reachable s) : s.QueueInv cfg := by
  refine Machine.Reachable.invariant (I := QueueInv cfg) ?_
    (fun _ _ _ hs hstep => hs.step (.of_step hstep)) h
  exact ⟨rfl, fun _ => Nat.zero_le _, rfl⟩

/-- Whatever the threads do: the tasks handed out are the first of those accepted, the queue keeps
its bound, the assertion of run does not fail, and a stopped pool never accepts a task again. -/
theorem queue_discipline (h : (machine cfg T).Reachable s) :
    s.handed <+: s.accepted ∧ s.accepted = s.handed ++ s.queue ∧
      (0 < cfg.maxQueueSize → s.queue.length ≤ cfg.maxQueueSize) ∧
      s.assertFailed = false ∧
      (s.running = false → ∀ (labels : List (ThreadPoolAction T)) (t : ThreadPool T),
        (machine cfg T).run (fun _ _ => True) s labels = some t →
          t.running = false ∧ t.accepted = s.accepted) := by
  have hinv := queueInv_reachable h
  refine ⟨?_, hinv.accepted_eq, hinv.bounded, hinv.asserted, ?_⟩
  · rw [hinv.accepted_eq]
    exact List.prefix_append _ _
  · intro hstopped labels t hrun
    refine Machine.run_invariant
      (I := fun u => u.running = false ∧ u.accepted = s.accepted) ?_ labels s t ⟨hstopped, rfl⟩ hrun
    rintro u a v ⟨hu, haccepted⟩ _ hstep
    obtain ⟨hv, hkept⟩ := stopped_step hu (.of_step hstep)
    exact ⟨hv, hkept.trans haccepted⟩

/-- A worker and a queue of one: the second call waits until the first task has been taken. -/
def boundedRun : List (ThreadPoolAction ℕ) :=
  [.loop 0, .run 7, .run 8, .enterRun 0 0, .enterRun 0 0, .enterTake 0 0,
    .resumeRun (.notified 0) 0, .stop]

theorem queue_discipline_bounded :
    ∃ s : ThreadPool ℕ, s.handed = [7] ∧ s.accepted = [7, 8] ∧ s.handed <+: s.accepted ∧
      s.queue.length ≤ 1 := by
  have hrun : ∃ s : ThreadPool ℕ, (machine ⟨1, 1⟩ ℕ).run (fun _ _ => True)
      (machine ⟨1, 1⟩ ℕ).init boundedRun = some s ∧ s.handed = [7] ∧ s.accepted = [7, 8] :=
    ⟨_, rfl, rfl, rfl⟩
  obtain ⟨s, hs, hhanded, haccepted⟩ := hrun
  obtain ⟨hfirst, _, hbound, _⟩ := queue_discipline (Machine.reachableWhen_of_run boundedRun hs)
  exact ⟨s, hhanded, haccepted, hfirst, hbound Nat.one_pos⟩

end ThreadPool

end AsioMsg
