import AsioMsg.Lib.Machine
import AsioMsg.Session

/-!
The output of a session over time. Calls of writeBuffer and completions of
writes come in any order; until a write fails the deque and the one outstanding
write account for every buffer, and after that nothing is written any more.
-/

namespace AsioMsg

variable {β : Type}

/-- A session with the buffers that were written completely, and whether a write has failed. -/
structure SessionRun (β : Type) where
  out : SessionOut β := {}
  written : List β := []
  failed : Bool := false

inductive SessionAction (β : Type)
  | writeBuffer (buffer : β)
  | doWrite (i : ℕ) (success : Bool)

namespace SessionRun

def writeDone (s : SessionRun β) (i : ℕ) (success : Bool) (buf : β) : SessionRun β where
  out := s.out.doWrite i success
  written := if success then s.written ++ [buf] else s.written
  failed := s.failed || !success

def step (s : SessionRun β) : SessionAction β → Option (SessionRun β)
  | .writeBuffer buffer => some { s with out := s.out.writeBuffer buffer }
  | .doWrite i success => (s.out.writes[i]?).map (s.writeDone i success)

def machine (β : Type) : Machine (SessionRun β) (SessionAction β) where
  init := {}
  step := step

/-- Before an error every buffer is written or waiting; after one nothing is being written. -/
structure Inv (s : SessionRun β) : Prop where
  flowing : s.failed = false → s.out.Flowing ∧ s.out.calls = s.written ++ s.out.writeDeque
  failed : s.failed = true → s.out.Failed

variable {s t : SessionRun β}

/-- Only a session that has not failed has a write to complete. -/
theorem Inv.flowing_of_write (h : s.Inv) {i : ℕ} {buf : β} (hget : s.out.writes[i]? = some buf) :
    s.failed = false := by
  cases hfailed : s.failed with
  | false => rfl
  | true => simp [(h.failed hfailed).writes_eq] at hget

theorem Inv.step (h : s.Inv) {a : SessionAction β} (hstep : s.step a = some t) : t.Inv := by
  cases a with
  | writeBuffer buffer =>
    obtain rfl := Option.some.inj hstep
    refine ⟨fun hfailed => ?_, fun hfailed => (h.failed hfailed).writeBuffer buffer⟩
    obtain ⟨hflow, hcalls⟩ := h.flowing hfailed
    refine ⟨hflow.writeBuffer buffer, ?_⟩
    rw [SessionOut.writeBuffer_eq, hcalls, List.append_assoc]
  | doWrite i success =>
    obtain ⟨buf, hget, rfl⟩ := Option.map_eq_some_iff.mp hstep
    have hfailed := h.flowing_of_write hget
    obtain ⟨hflow, hcalls⟩ := h.flowing hfailed
    obtain ⟨herase, rest, hdeque⟩ := hflow.of_write hget
    cases success with
    | true =>
      obtain ⟨heq, hflow'⟩ := hflow.doWrite_success herase hdeque
      refine ⟨fun _ => ⟨hflow', ?_⟩, fun hno => ?_⟩
      · simp only [writeDone, if_true]
        rw [heq, hcalls, hdeque, List.append_assoc, List.singleton_append]
      · simp [writeDone, hfailed] at hno
    | false =>
      refine ⟨fun hno => ?_, fun _ => (hflow.doWrite_error herase hdeque).2⟩
      simp [writeDone] at hno

theorem inv_reachable (h : (machine β).Reachable s) : s.Inv := by
  refine Machine.Reachable.invariant (I := Inv) ?_ (fun _ _ _ hs hstep => hs.step hstep) h
  exact ⟨fun _ => ⟨⟨rfl, [], rfl, rfl⟩, rfl⟩, fun hno => nomatch hno⟩

/-- After an error no step starts a write. -/
theorem Inv.started_step (h : s.Inv) (hfailed : s.failed = true) {a : SessionAction β}
    (hstep : s.step a = some t) : t.failed = true ∧ t.out.started = s.out.started := by
  cases a with
  | writeBuffer buffer =>
    obtain rfl := Option.some.inj hstep
    exact ⟨hfailed, by rw [(h.failed hfailed).writeBuffer_eq]⟩
  | doWrite i success =>
    obtain ⟨buf, hget, rfl⟩ := Option.map_eq_some_iff.mp hstep
    simp [h.flowing_of_write hget] at hfailed

theorem Inv.started_run (h : s.Inv) (hfailed : s.failed = true)
    (later : List (SessionAction β))
    (hrun : (machine β).run (fun _ _ => True) s later = some t) :
    t.out.started = s.out.started := by
  refine (Machine.run_invariant (m := machine β)
    (I := fun u => u.Inv ∧ u.failed = true ∧ u.out.started = s.out.started) ?_ later s t
    ⟨h, hfailed, rfl⟩ hrun).2.2
  rintro u a v ⟨hu, hufailed, heq⟩ _ hstep
  obtain ⟨hvfailed, hsame⟩ := hu.started_step hufailed hstep
  exact ⟨hu.step hstep, hvfailed, hsame.trans heq⟩

/-- Until a write fails the deque is non-empty iff exactly one write is outstanding, which is that
of its front, and what was written together with the deque is what writeBuffer was called with;
after that no write is ever started; and what was handed to the socket is always a first part of
what writeBuffer was called with. -/
theorem output_exact_fifo (h : (machine β).Reachable s) :
    (s.failed = false →
      (s.out.writeDeque ≠ [] ↔ s.out.writes.length = 1) ∧
        s.out.writes = s.out.writeDeque.take 1 ∧
        s.written ++ s.out.writeDeque = s.out.calls) ∧
    (s.failed = true → s.out.writes = [] ∧
      ∀ later t, (machine β).run (fun _ _ => True) s later = some t →
        t.out.started = s.out.started) ∧
    s.out.started <+: s.out.calls := by
  have hinv := inv_reachable h
  refine ⟨?_, ?_, ?_⟩
  · intro hfailed
    obtain ⟨hflow, hcalls⟩ := hinv.flowing hfailed
    refine ⟨?_, hflow.writes_eq, hcalls.symm⟩
    rw [hflow.writes_eq]
    cases s.out.writeDeque <;> simp
  · intro hfailed
    exact ⟨(hinv.failed hfailed).writes_eq, fun later t hrun =>
      hinv.started_run hfailed later hrun⟩
  · cases hfailed : s.failed with
    | false => exact (hinv.flowing hfailed).1.started_initial
    | true => exact (hinv.failed hfailed).started_initial

/-- Three buffers, of which the second fails to be written. -/
def failingWrite : List (SessionAction ℕ) :=
  [.writeBuffer 1, .writeBuffer 2, .doWrite 0 true, .writeBuffer 3, .doWrite 0 false]

theorem output_exact_fifo_failing :
    ∃ s : SessionRun ℕ, (machine ℕ).run (fun _ _ => True) {} failingWrite = some s ∧
      s.out.started = [1, 2] ∧ s.out.started <+: s.out.calls ∧
      ∀ later t, (machine ℕ).run (fun _ _ => True) s later = some t → t.out.started = [1, 2] := by
  have hrun : ∃ s : SessionRun ℕ, (machine ℕ).run (fun _ _ => True) {} failingWrite = some s ∧
      s.out.started = [1, 2] ∧ s.failed = true := ⟨_, rfl, rfl, rfl⟩
  obtain ⟨s, hs, hstarted, hfailed⟩ := hrun
  obtain ⟨_, hafter, hinitial⟩ :=
    output_exact_fifo (Machine.reachableWhen_of_run failingWrite hs)
  exact ⟨s, hs, hstarted, hinitial, fun later t hlater =>
    ((hafter hfailed).2 later t hlater).trans hstarted⟩

end SessionRun

end AsioMsg
