import AsioMsg.PoolQueue
import AsioMsg.PoolWakeups

/-!
The end of a ThreadPool. After stop has notified everybody nobody sleeps again,
and each worker has at most three steps left: back from its wait or into take, the
end of its task, and the test of the loop. So the joins of stop come to an end
when the tasks do, and a worker runs at most one of the tasks that are queued.
-/

namespace AsioMsg

/-- The steps of the threads that stop joins. -/
def ThreadPoolAction.ofWorker {T : Type} : ThreadPoolAction T → Bool
  | .loop _ | .enterTake .. | .resumeTake .. | .finish _ => true
  | _ => false

namespace ThreadPool

variable {T : Type} {cfg : PoolConfig} {s t : ThreadPool T} {a : ThreadPoolAction T}

/-- The workers in take, and all that have not left threadFunc. -/
def takers (s : ThreadPool T) : ℕ := s.taking.length + s.notEmpty.threads.length

def crew (s : ThreadPool T) : ℕ := s.looping.length + s.takers + s.executing.length

/-- The steps that the workers of a stopped pool have left. -/
def stepsLeft (s : ThreadPool T) : ℕ := s.looping.length + 2 * s.executing.length + 3 * s.takers

theorem stepsLeft_le (s : ThreadPool T) : s.stepsLeft ≤ 3 * s.crew := by
  unfold stepsLeft crew
  omega

/-- What changes at a worker's critical section in a pool that has stopped. -/
theorem takeLocked_counts (cfg : PoolConfig) (s : ThreadPool T) (hstopped : s.running = false)
    (worker wake : ℕ) :
    (s.takeLocked cfg worker wake).takers = s.takers ∧
      ((s.takeLocked cfg worker wake).handed = s.handed ∧
        (s.takeLocked cfg worker wake).stepsLeft = s.stepsLeft + 1 ∨
      (s.takeLocked cfg worker wake).handed.length = s.handed.length + 1 ∧
        (s.takeLocked cfg worker wake).stepsLeft = s.stepsLeft + 2) := by
  have hcases := s.takeLocked_cases cfg worker wake
  generalize s.takeLocked cfg worker wake = t at hcases
  cases hcases with
  | wait _ hrunning => simp [hstopped] at hrunning
  | none _ _ =>
    refine ⟨rfl, Or.inl ⟨rfl, ?_⟩⟩
    simp only [stepsLeft, takers, List.length_append, List.length_singleton]
    omega
  | take _ =>
    refine ⟨rfl, Or.inr ⟨by simp, ?_⟩⟩
    simp only [stepsLeft, takers, List.length_append, List.length_singleton]
    omega

theorem takeLocked_crew (s : ThreadPool T) (worker wake : ℕ) :
    (s.takeLocked cfg worker wake).crew = s.crew + 1 := by
  have hcases := s.takeLocked_cases cfg worker wake
  generalize s.takeLocked cfg worker wake = t at hcases
  cases hcases with
  | wait _ _ =>
    simp only [crew, takers, (s.notEmpty.perm_wait worker).length_eq, List.length_cons]
    omega
  | none _ _ =>
    simp only [crew, takers, List.length_append, List.length_singleton]
    omega
  | take _ =>
    simp only [crew, takers, List.length_append, List.length_singleton]
    omega

theorem runLocked_crew (s : ThreadPool T) (task : T) (wake : ℕ) :
    (s.runLocked cfg task wake).crew = s.crew := by
  have hcases := s.runLocked_cases cfg task wake
  generalize s.runLocked cfg task wake = t at hcases
  cases hcases with
  | wait _ _ => rfl
  | refuse _ => rfl
  | accept _ _ => simp only [crew, takers, (s.notEmpty.perm_notifyOne wake).length_eq]

/-- No worker is created by a step. -/
theorem crew_step (hstep : s.step cfg a = some t) : t.crew ≤ s.crew := by
  cases a with
  | run task =>
    obtain rfl := Option.some.inj hstep
    unfold ThreadPool.run
    split <;> exact Nat.le_refl _
  | enterRun i wake =>
    obtain ⟨task, _, rfl⟩ := Option.map_eq_some_iff.mp hstep
    exact Nat.le_of_eq (runLocked_crew _ task wake)
  | resumeRun w wake =>
    obtain ⟨back, _, rfl⟩ := Option.map_eq_some_iff.mp hstep
    exact Nat.le_of_eq (runLocked_crew _ back.1 wake)
  | loop i =>
    obtain ⟨worker, hget, rfl⟩ := Option.map_eq_some_iff.mp hstep
    have hlen := (Pending.perm_eraseIdx hget).length_eq
    simp only [List.length_cons] at hlen
    simp only [crew, takers, loop]
    split
    · simp only [List.length_append, List.length_singleton]
      omega
    · omega
  | enterTake i wake =>
    obtain ⟨worker, hget, rfl⟩ := Option.map_eq_some_iff.mp hstep
    have hlen := (Pending.perm_eraseIdx hget).length_eq
    rw [takeLocked_crew]
    simp only [List.length_cons] at hlen
    simp only [crew, takers]
    omega
  | resumeTake w wake =>
    obtain ⟨back, hback, rfl⟩ := Option.map_eq_some_iff.mp hstep
    have hlen := (CondVar.perm_resume hback).length_eq
    rw [takeLocked_crew]
    simp only [List.length_cons] at hlen
    simp only [crew, takers]
    omega
  | finish i =>
    obtain ⟨job, hget, rfl⟩ := Option.map_eq_some_iff.mp hstep
    have hlen := (Pending.perm_eraseIdx hget).length_eq
    simp only [List.length_cons] at hlen
    simp only [crew, takers, List.length_append, List.length_singleton]
    omega
  | stop =>
    obtain rfl := Option.some.inj hstep
    simp only [crew, takers, stop, s.notEmpty.perm_notifyAll.length_eq]
    exact Nat.le_refl _
  | rouseWorker i =>
    obtain ⟨cv, hcv, rfl⟩ := Option.map_eq_some_iff.mp hstep
    simp only [crew, takers, (CondVar.perm_rouse hcv).length_eq]
    exact Nat.le_refl _
  | rouseCaller i =>
    obtain ⟨cv, _, rfl⟩ := Option.map_eq_some_iff.mp hstep
    exact Nat.le_refl _

theorem crew_reachable (h : (machine cfg T).Reachable s) : s.crew ≤ cfg.num := by
  refine Machine.Reachable.invariant (I := fun s => s.crew ≤ cfg.num) ?_
    (fun _ _ _ hs hstep => Nat.le_trans (crew_step hstep) hs) h
  simp [machine, crew, takers, CondVar.threads]

/-- A worker that is at a critical section of take has one or two steps less left after it. -/
theorem takeLocked_stopped_counts {u : ThreadPool T} (hstopped : u.running = false)
    (hhanded : u.handed = s.handed) (htakers : u.takers + 1 = s.takers)
    (hleft : u.stepsLeft + 3 = s.stepsLeft) (worker wake : ℕ) :
    (u.takeLocked cfg worker wake).stepsLeft + 1 ≤ s.stepsLeft ∧
      s.handed.length ≤ (u.takeLocked cfg worker wake).handed.length ∧
      (u.takeLocked cfg worker wake).handed.length + (u.takeLocked cfg worker wake).takers ≤
        s.handed.length + s.takers := by
  obtain ⟨htake, ⟨hsame, hsteps⟩ | ⟨hmore, hsteps⟩⟩ :=
    takeLocked_counts cfg u hstopped worker wake
  · rw [hsame, hhanded]
    omega
  · rw [hhanded] at hmore
    omega

/-- A step of a stopped pool. -/
theorem stopped_counts (hstopped : s.running = false) (hstep : s.step cfg a = some t) :
    t.stepsLeft + (if a.ofWorker then 1 else 0) ≤ s.stepsLeft ∧
      s.handed.length ≤ t.handed.length ∧
      t.handed.length + t.takers ≤ s.handed.length + s.takers := by
  have hnothing : s.stepsLeft + 0 ≤ s.stepsLeft ∧ s.handed.length ≤ s.handed.length ∧
      s.handed.length + s.takers ≤ s.handed.length + s.takers :=
    ⟨Nat.le_refl _, Nat.le_refl _, Nat.le_refl _⟩
  cases a with
  | run task =>
    obtain rfl := Option.some.inj hstep
    unfold ThreadPool.run
    split <;> exact hnothing
  | enterRun i wake =>
    obtain ⟨task, _, rfl⟩ := Option.map_eq_some_iff.mp hstep
    simp only [runLocked, hstopped, Bool.and_false, Bool.false_eq_true, if_false, Bool.not_false,
      if_true]
    exact hnothing
  | resumeRun w wake =>
    obtain ⟨back, _, rfl⟩ := Option.map_eq_some_iff.mp hstep
    simp only [runLocked, hstopped, Bool.and_false, Bool.false_eq_true, if_false, Bool.not_false,
      if_true]
    exact hnothing
  | loop i =>
    obtain ⟨worker, hget, rfl⟩ := Option.map_eq_some_iff.mp hstep
    have hlen := (Pending.perm_eraseIdx hget).length_eq
    simp only [List.length_cons] at hlen
    simp only [stepsLeft, takers, loop, hstopped, ThreadPoolAction.ofWorker, Bool.false_eq_true,
      if_false, if_true]
    omega
  | enterTake i wake =>
    obtain ⟨worker, hget, rfl⟩ := Option.map_eq_some_iff.mp hstep
    have hlen := (Pending.perm_eraseIdx hget).length_eq
    simp only [List.length_cons] at hlen
    refine takeLocked_stopped_counts (s := s) (u := { s with taking := s.taking.eraseIdx i })
      hstopped rfl ?_ ?_ worker wake
    · simp only [takers]
      omega
    · simp only [stepsLeft, takers]
      omega
  | resumeTake w wake =>
    obtain ⟨back, hback, rfl⟩ := Option.map_eq_some_iff.mp hstep
    have hlen := (CondVar.perm_resume hback).length_eq
    simp only [List.length_cons] at hlen
    refine takeLocked_stopped_counts (s := s) (u := { s with notEmpty := back.2 }) hstopped rfl
      ?_ ?_ back.1 wake
    · simp only [takers]
      omega
    · simp only [stepsLeft, takers]
      omega
  | finish i =>
    obtain ⟨job, hget, rfl⟩ := Option.map_eq_some_iff.mp hstep
    have hlen := (Pending.perm_eraseIdx hget).length_eq
    simp only [List.length_cons] at hlen
    simp only [stepsLeft, takers, ThreadPoolAction.ofWorker, List.length_append,
      List.length_singleton, if_true]
    omega
  | stop =>
    obtain rfl := Option.some.inj hstep
    simp only [stepsLeft, takers, stop, s.notEmpty.perm_notifyAll.length_eq]
    exact hnothing
  | rouseWorker i =>
    obtain ⟨cv, hcv, rfl⟩ := Option.map_eq_some_iff.mp hstep
    simp only [stepsLeft, takers, (CondVar.perm_rouse hcv).length_eq]
    exact hnothing
  | rouseCaller i =>
    obtain ⟨cv, _, rfl⟩ := Option.map_eq_some_iff.mp hstep
    exact hnothing

/-- As long as a worker is left, one of them can take a step. -/
theorem worker_enabled (cfg : PoolConfig) (hwaiting : s.notEmpty.waiting = [])
    (hcrew : s.crew ≠ 0) :
    ∃ a t, ThreadPoolAction.ofWorker a = true ∧ s.step cfg a = some t := by
  have hsome : ∀ {α : Type} (l : List α), l.length ≠ 0 → ∃ x, l[0]? = some x := by
    intro α l hl
    exact ⟨_, List.getElem?_eq_getElem (Nat.pos_of_ne_zero hl)⟩
  by_cases hlooping : s.looping.length = 0
  · by_cases htaking : s.taking.length = 0
    · by_cases hexecuting : s.executing.length = 0
      · have hthreads : s.notEmpty.threads.length ≠ 0 := by
          intro hzero
          exact hcrew (by simp only [crew, takers, hlooping, htaking, hexecuting, hzero])
        obtain ⟨worker, hget⟩ := hsome _ hthreads
        obtain ⟨w, cv, hback⟩ := s.notEmpty.exists_resume (List.mem_of_getElem? hget)
          (by simp [hwaiting])
        exact ⟨.resumeTake w 0, _, rfl, by rw [step, hback]; rfl⟩
      · obtain ⟨job, hget⟩ := hsome _ hexecuting
        exact ⟨.finish 0, _, rfl, by rw [step, hget]; rfl⟩
    · obtain ⟨worker, hget⟩ := hsome _ htaking
      exact ⟨.enterTake 0 0, _, rfl, by rw [step, hget]; rfl⟩
  · obtain ⟨worker, hget⟩ := hsome _ hlooping
    exact ⟨.loop 0, _, rfl, by rw [step, hget]; rfl⟩

/-- What a run does to the counts of a stopped pool. -/
theorem stopped_run (labels : List (ThreadPoolAction T)) (hstopped : s.running = false)
    (hrun : (machine cfg T).run (fun _ _ => True) s labels = some t) :
    t.stepsLeft + labels.countP ThreadPoolAction.ofWorker ≤ s.stepsLeft ∧
      s.handed.length ≤ t.handed.length ∧
      t.handed.length + t.takers ≤ s.handed.length + s.takers := by
  induction labels generalizing s with
  | nil =>
    rw [Machine.run, Option.some.injEq] at hrun
    subst hrun
    exact ⟨Nat.le_refl _, Nat.le_refl _, Nat.le_refl _⟩
  | cons a rest ih =>
    rw [Machine.run, if_pos trivial] at hrun
    obtain ⟨u, hu, hrest⟩ := Option.bind_eq_some_iff.mp hrun
    obtain ⟨hleft, hhanded, htakers⟩ := stopped_counts hstopped hu
    obtain ⟨hleft', hhanded', htakers'⟩ := ih (stopped_step hstopped (.of_step hu)).1 hrest
    rw [List.countP_cons]
    exact ⟨by omega, by omega, by omega⟩

/-- Every run of a stopped pool: nobody sleeps, the workers take at most three steps each in all,
and as long as one of them is left some worker can take a step, so that stop ends if the tasks do.
Of the tasks queued at stop at most one for each worker is still handed out, the first ones in
their order; the others never are. -/
theorem stop_ends (h : (machine cfg T).Reachable s) (hstopped : s.running = false)
    (labels : List (ThreadPoolAction T)) (t : ThreadPool T)
    (hrun : (machine cfg T).run (fun _ _ => True) s labels = some t) :
    t.notEmpty.waiting = [] ∧ t.notFull.waiting = [] ∧
      labels.countP ThreadPoolAction.ofWorker ≤ 3 * cfg.num ∧
      (t.crew ≠ 0 → ∃ a u, ThreadPoolAction.ofWorker a = true ∧ t.step cfg a = some u) ∧
      ∃ k ≤ cfg.num, t.handed = s.handed ++ s.queue.take k ∧ t.queue = s.queue.drop k := by
  have hreach := Machine.reachableWhen_of_run_from _ _ labels s t h hrun
  have hkept : t.running = false ∧ t.accepted = s.accepted := by
    refine Machine.run_invariant
      (I := fun u => u.running = false ∧ u.accepted = s.accepted) ?_ labels s t ⟨hstopped, rfl⟩ hrun
    rintro u a v ⟨hu, haccepted⟩ _ hstep
    obtain ⟨hv, hsame⟩ := stopped_step hu (.of_step hstep)
    exact ⟨hv, hsame.trans haccepted⟩
  have hasleep := (wakeInv_reachable hreach).stopped hkept.1
  have hcrew := crew_reachable h
  obtain ⟨hleft, hmore, htakers⟩ := stopped_run labels hstopped hrun
  have hle := s.stepsLeft_le
  refine ⟨hasleep.1, hasleep.2, by omega, worker_enabled cfg hasleep.1,
    t.handed.length - s.handed.length, ?_, ?_⟩
  · unfold crew at hcrew
    omega
  · have hqueue : t.handed ++ t.queue = s.handed ++ s.queue := by
      rw [← (queueInv_reachable hreach).accepted_eq, hkept.2, (queueInv_reachable h).accepted_eq]
    have hhanded : t.handed = (s.handed ++ s.queue).take t.handed.length := by
      rw [← hqueue, List.take_left]
    have hrest : t.queue = (s.handed ++ s.queue).drop t.handed.length := by
      rw [← hqueue, List.drop_left]
    rw [List.take_append, List.take_of_length_le hmore] at hhanded
    rw [List.drop_append, List.drop_eq_nil_of_le hmore, List.nil_append] at hrest
    exact ⟨hhanded, hrest⟩

/-- Two workers and three tasks: stop finds one worker running its task and the other before the
lock of take, which still hands it one. -/
def stoppedRun : List (ThreadPoolAction ℕ) :=
  [.run 7, .run 8, .run 9, .enterRun 0 0, .enterRun 0 0, .enterRun 0 0, .loop 0, .loop 0,
    .enterTake 0 0, .stop]

theorem stop_ends_two :
    ∃ s t : ThreadPool ℕ, s.queue = [8, 9] ∧ t.crew = 0 ∧
      (machine ⟨2, 0⟩ ℕ).run (fun _ _ => True) s
        [.enterTake 0 0, .finish 0, .finish 0, .loop 0, .loop 0] = some t ∧
      ∃ k ≤ 2, t.handed = s.handed ++ s.queue.take k ∧ t.queue = s.queue.drop k := by
  have hrun : ∃ s : ThreadPool ℕ, (machine ⟨2, 0⟩ ℕ).run (fun _ _ => True)
      (machine ⟨2, 0⟩ ℕ).init stoppedRun = some s ∧ s.queue = [8, 9] ∧ s.running = false ∧
        ∃ t, (machine ⟨2, 0⟩ ℕ).run (fun _ _ => True) s
          [.enterTake 0 0, .finish 0, .finish 0, .loop 0, .loop 0] = some t ∧ t.crew = 0 :=
    ⟨_, rfl, rfl, rfl, _, rfl, rfl⟩
  obtain ⟨s, hs, hqueue, hstopped, t, ht, hcrew⟩ := hrun
  obtain ⟨_, _, _, _, hhanded⟩ :=
    stop_ends (Machine.reachableWhen_of_run stoppedRun hs) hstopped _ t ht
  exact ⟨s, t, hqueue, hcrew, ht, hhanded⟩

end ThreadPool

end AsioMsg
