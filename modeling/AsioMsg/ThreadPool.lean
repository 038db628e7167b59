import AsioMsg.Lib.CondVar
import AsioMsg.Lib.Machine

/-!
ThreadPool between start and the end of the program. Every critical section
under mutex_ is one step: from the lock, or from the return of a wait, up to
the next wait or the unlock. Outside the mutex threadFunc reads running_ and
runs its task. Any number of threads may be inside run at any time.
-/

namespace AsioMsg

/-- The number of threads and maxQueueSize_, both fixed before start; zero means unbounded. -/
structure PoolConfig where
  num : ℕ
  maxQueueSize : ℕ := 0

structure ThreadPool (T : Type) where
  running : Bool := true
  queue : List T := []
  /-- The workers at notEmpty_, and the callers of run at notFull_ with their tasks. -/
  notEmpty : CondVar ℕ := {}
  notFull : CondVar T := {}
  /-- Workers before the test of the loop, and before the lock of take. -/
  looping : List ℕ := []
  taking : List ℕ := []
  executing : List (ℕ × T) := []
  /-- Calls of run before their lock. -/
  calls : List T := []
  /-- The tasks that run has queued, and those that take has handed out. -/
  accepted : List T := []
  handed : List T := []
  /-- The tasks that run has called itself, in a pool without threads. -/
  inPlace : List T := []
  /-- assert(!isFull()) in run has failed. -/
  assertFailed : Bool := false

inductive ThreadPoolAction (T : Type)
  | run (t : T)
  | enterRun (i wake : ℕ)
  | resumeRun (w : Woken) (wake : ℕ)
  | loop (i : ℕ)
  | enterTake (i wake : ℕ)
  | resumeTake (w : Woken) (wake : ℕ)
  | finish (i : ℕ)
  | stop
  | rouseWorker (i : ℕ)
  | rouseCaller (i : ℕ)

namespace ThreadPool

variable {T : Type}

def isFull (cfg : PoolConfig) (s : ThreadPool T) : Bool :=
  decide (0 < cfg.maxQueueSize) && decide (cfg.maxQueueSize ≤ s.queue.length)

/-- run under the mutex; `wake` is the worker that notify_one finds. -/
def runLocked (cfg : PoolConfig) (s : ThreadPool T) (t : T) (wake : ℕ) : ThreadPool T :=
  if s.isFull cfg && s.running then { s with notFull := s.notFull.wait t }
  else if !s.running then s
  else if s.isFull cfg then { s with assertFailed := true }
  else { s with
    queue := s.queue ++ [t]
    accepted := s.accepted ++ [t]
    notEmpty := s.notEmpty.notifyOne wake }

/-- take under the mutex; without a task it returns an empty one. -/
def takeLocked (cfg : PoolConfig) (s : ThreadPool T) (worker wake : ℕ) : ThreadPool T :=
  if s.queue.isEmpty && s.running then { s with notEmpty := s.notEmpty.wait worker }
  else
    match s.queue with
    | [] => { s with looping := s.looping ++ [worker] }
    | task :: rest => { s with
        queue := rest
        handed := s.handed ++ [task]
        executing := s.executing ++ [(worker, task)]
        notFull := if 0 < cfg.maxQueueSize then s.notFull.notifyOne wake else s.notFull }

/-- Without threads run calls its task. -/
def run (cfg : PoolConfig) (s : ThreadPool T) (t : T) : ThreadPool T :=
  if cfg.num = 0 then { s with inPlace := s.inPlace ++ [t] } else { s with calls := s.calls ++ [t] }

/-- while (running_) of threadFunc; a worker that leaves the loop is gone. -/
def loop (s : ThreadPool T) (i worker : ℕ) : ThreadPool T :=
  { s with
    looping := s.looping.eraseIdx i
    taking := if s.running then s.taking ++ [worker] else s.taking }

def stop (s : ThreadPool T) : ThreadPool T :=
  { s with
    running := false
    notEmpty := s.notEmpty.notifyAll
    notFull := s.notFull.notifyAll }

def step (cfg : PoolConfig) (s : ThreadPool T) : ThreadPoolAction T → Option (ThreadPool T)
  | .run t => some (s.run cfg t)
  | .enterRun i wake => (s.calls[i]?).map fun t =>
      { s with calls := s.calls.eraseIdx i }.runLocked cfg t wake
  | .resumeRun w wake => (s.notFull.resume w).map fun back =>
      { s with notFull := back.2 }.runLocked cfg back.1 wake
  | .loop i => (s.looping[i]?).map (s.loop i)
  | .enterTake i wake => (s.taking[i]?).map fun worker =>
      { s with taking := s.taking.eraseIdx i }.takeLocked cfg worker wake
  | .resumeTake w wake => (s.notEmpty.resume w).map fun back =>
      { s with notEmpty := back.2 }.takeLocked cfg back.1 wake
  | .finish i => (s.executing[i]?).map fun job =>
      { s with executing := s.executing.eraseIdx i, looping := s.looping ++ [job.1] }
  | .stop => some s.stop
  | .rouseWorker i => (s.notEmpty.rouse i).map fun cv => { s with notEmpty := cv }
  | .rouseCaller i => (s.notFull.rouse i).map fun cv => { s with notFull := cv }

/-- start has returned. -/
def machine (cfg : PoolConfig) (T : Type) : Machine (ThreadPool T) (ThreadPoolAction T) where
  init := { looping := List.range cfg.num }
  step := step cfg

/-- What the mutex has changed after a critical section of run. -/
inductive RunLocked (cfg : PoolConfig) (s : ThreadPool T) (t : T) (wake : ℕ) :
    ThreadPool T → Prop
  | wait : s.isFull cfg = true → s.running = true →
      RunLocked cfg s t wake { s with notFull := s.notFull.wait t }
  | refuse : s.running = false → RunLocked cfg s t wake s
  | accept : s.isFull cfg = false → s.running = true →
      RunLocked cfg s t wake { s with
        queue := s.queue ++ [t]
        accepted := s.accepted ++ [t]
        notEmpty := s.notEmpty.notifyOne wake }

theorem runLocked_cases (cfg : PoolConfig) (s : ThreadPool T) (t : T) (wake : ℕ) :
    s.RunLocked cfg t wake (s.runLocked cfg t wake) := by
  unfold runLocked
  by_cases hrunning : s.running = true
  · by_cases hfull : s.isFull cfg = true
    · rw [if_pos (by simp [hfull, hrunning])]
      exact .wait hfull hrunning
    · rw [if_neg (by simp [hfull]), if_neg (by simp [hrunning]), if_neg hfull]
      exact .accept (Bool.eq_false_iff.mpr hfull) hrunning
  · rw [if_neg (by simp [hrunning]), if_pos (by simp [hrunning])]
    exact .refuse (Bool.eq_false_iff.mpr hrunning)

/-- What the mutex has changed after a critical section of take. -/
inductive TakeLocked (cfg : PoolConfig) (s : ThreadPool T) (worker wake : ℕ) :
    ThreadPool T → Prop
  | wait : s.queue = [] → s.running = true →
      TakeLocked cfg s worker wake { s with notEmpty := s.notEmpty.wait worker }
  | none : s.queue = [] → s.running = false →
      TakeLocked cfg s worker wake { s with looping := s.looping ++ [worker] }
  | take {task : T} {rest : List T} : s.queue = task :: rest →
      TakeLocked cfg s worker wake { s with
        queue := rest
        handed := s.handed ++ [task]
        executing := s.executing ++ [(worker, task)]
        notFull := if 0 < cfg.maxQueueSize then s.notFull.notifyOne wake else s.notFull }

theorem takeLocked_cases (cfg : PoolConfig) (s : ThreadPool T) (worker wake : ℕ) :
    s.TakeLocked cfg worker wake (s.takeLocked cfg worker wake) := by
  unfold takeLocked
  by_cases hwait : s.queue = [] ∧ s.running = true
  · rw [if_pos (by simp [hwait])]
    exact .wait hwait.1 hwait.2
  · rw [if_neg (by simpa using hwait)]
    split
    · next hqueue =>
      have hstopped : s.running ≠ true := fun hrunning => hwait ⟨hqueue, hrunning⟩
      exact .none hqueue (Bool.eq_false_iff.mpr hstopped)
    · next hqueue => exact .take hqueue

end ThreadPool

end AsioMsg
