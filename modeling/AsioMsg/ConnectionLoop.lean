import AsioMsg.ClientQueue

/-!
The connection loop of a client that reconnects. An asynchronous operation
completes at one time and its handler runs at a later one; in between the
socket may be closed and connected again. The loop goes on in one place: in a
connect, in a read or in a posted doClose. A write error posts a doClose of its
own and starts a second loop beside the first.
-/

namespace AsioMsg

variable {M : Type}

def Posted.isDoClose : Posted M → Bool
  | .startWrite _ => false
  | .doClose => true

namespace ClientAction

/-- The steps that run the handler of a connect, of a read and of a write. -/
def isConnect : ClientAction M → Bool
  | .doConnect _ => true
  | _ => false

def isRead : ClientAction M → Bool
  | .readError | .doRead _ => true
  | _ => false

def isWrite : ClientAction M → Bool
  | .writeDone _ _ => true
  | _ => false

end ClientAction

namespace AsioClient

variable {cfg : ClientConfig M} {c d : AsioClient M} {a : ClientAction M}

/-- The posted doClose handlers. -/
def closes (c : AsioClient M) : ℕ := c.posted.countP Posted.isDoClose

/-- The places in which the connection loop may go on. -/
def loops (c : AsioClient M) : ℕ := c.connects + c.reads + c.closes

theorem closes_postPackage (c : AsioClient M) (package : PackagePtr M) :
    (c.postPackage package).2.closes = c.closes := by
  rcases postPackage_eq c package with h | h | h <;> rw [h]
  simp [closes, Posted.isDoClose]

theorem countP_eraseIdx {posted : List (Posted M)} {i : ℕ} {handler : Posted M}
    (hget : posted[i]? = some handler) :
    (posted.eraseIdx i).countP Posted.isDoClose + (if handler.isDoClose then 1 else 0) =
      posted.countP Posted.isDoClose := by
  rw [← (Pending.perm_eraseIdx hget).countP_eq, List.countP_cons]

/-- What a step does to the loop: it stops the client, it leaves the loop alone unless a write
fails, it runs a doClose, a handler of a connect or a handler of a read. -/
theorem Steps.loop (h : Steps cfg c a d) :
    (a = .stop ∧ d = c.stop) ∨ d.stopped = c.stopped ∧
      ((a.isConnect = false ∧ a.isRead = false ∧ d.connects = c.connects ∧ d.reads = c.reads ∧
          d.closes = c.closes + (writeFails a).toNat) ∨
        (a.isConnect = false ∧ a.isRead = false ∧ c.connects ≤ d.connects ∧
          d.connects ≤ c.connects + 1 ∧ d.reads = c.reads ∧ d.closes + 1 = c.closes) ∨
        (a.isConnect = true ∧ a.isRead = false ∧ c.connects ≤ d.connects + 1 ∧
          c.reads ≤ d.reads ∧ d.connects + d.reads ≤ c.connects + c.reads ∧
          d.closes = c.closes) ∨
        (a.isConnect = false ∧ a.isRead = true ∧ d.connects = c.connects ∧
          c.reads ≤ d.reads + 1 ∧ d.reads + d.closes ≤ c.reads + c.closes)) := by
  cases h with
  | postMessage isOrder msg => exact Or.inr ⟨rfl, Or.inl ⟨rfl, rfl, rfl, rfl, rfl⟩⟩
  | @postCall i call _ =>
    rcases postCall_eq c i call with h | h
    · rw [h]
      exact Or.inr ⟨rfl, Or.inl ⟨rfl, rfl, rfl, rfl, rfl⟩⟩
    · rw [h]
      exact Or.inr ⟨rfl, Or.inl ⟨rfl, rfl, rfl, rfl, by
        simp [closes, Posted.isDoClose, writeFails]⟩⟩
  | publishMessage msg =>
    have hcloses : (c.publishMessage cfg.build msg).closes = c.closes := closes_postPackage ..
    rw [publishMessage_frame] at hcloses ⊢
    exact Or.inr ⟨rfl, Or.inl ⟨rfl, rfl, rfl, rfl, hcloses⟩⟩
  | postPackage pac =>
    have hcloses := closes_postPackage c ⟨pac, none⟩
    rw [postPackage_frame] at hcloses ⊢
    exact Or.inr ⟨rfl, Or.inl ⟨rfl, rfl, rfl, rfl, hcloses⟩⟩
  | stop => exact Or.inl ⟨rfl, rfl⟩
  | startWrite hget hrun =>
    obtain rfl := startWrite_eq hrun
    exact Or.inr ⟨rfl, Or.inl ⟨rfl, rfl, rfl, rfl, countP_eraseIdx hget⟩⟩
  | doClose hget =>
    have hcount := countP_eraseIdx hget
    rw [doClose_frame]
    refine Or.inr ⟨rfl, Or.inr (Or.inl ⟨rfl, rfl, ?_, ?_, rfl, hcount⟩)⟩ <;>
      simp only [AsioClient.doClose, connect] <;> split <;> simp
  | doConnect success hpos =>
    rw [doConnect_frame]
    refine Or.inr ⟨rfl, Or.inr (Or.inr (Or.inl ⟨rfl, rfl, ?_, ?_, ?_, rfl⟩))⟩ <;>
      simp only [AsioClient.doConnect, connect, startRead] <;> split
    · simp only
      omega
    · split <;> simp only <;> omega
    · exact Nat.le_succ _
    · split <;> exact Nat.le_refl _
    · simp only
      omega
    · split <;> simp only <;> omega
  | readError hpos =>
    refine Or.inr ⟨rfl, Or.inr (Or.inr (Or.inr ⟨rfl, rfl, rfl, ?_, ?_⟩))⟩
    · exact Nat.le_add_of_sub_le (Nat.le_refl _)
    · simp only [AsioClient.readError, close, closes, List.countP_append, List.countP_singleton,
        Posted.isDoClose, if_true]
      omega
  | doRead hpos hread =>
    obtain ⟨_, hd⟩ := Option.ite_none_left_eq_some.mp hread
    obtain rfl := Option.some.inj hd
    refine Or.inr ⟨rfl, Or.inr (Or.inr (Or.inr ⟨rfl, rfl, rfl, ?_, ?_⟩))⟩ <;>
      simp only [startRead, closes] <;> omega
  | writeDone _ hdone =>
    rcases writeDone_eq hdone with ⟨rfl, rfl⟩ | ⟨rfl, rfl⟩
    · refine Or.inr ⟨rfl, Or.inl ⟨rfl, rfl, rfl, rfl, ?_⟩⟩
      simp [close, startTimer, closes, Posted.isDoClose, writeFails]
    · exact Or.inr ⟨rfl, Or.inl ⟨rfl, rfl, rfl, rfl, rfl⟩⟩
  | timerAborted _ _ => exact Or.inr ⟨rfl, Or.inl ⟨rfl, rfl, rfl, rfl, rfl⟩⟩
  | timerExpired _ => exact Or.inr ⟨rfl, Or.inl ⟨rfl, rfl, rfl, rfl, rfl⟩⟩
  | doResponse _ => exact Or.inr ⟨rfl, Or.inl ⟨rfl, rfl, rfl, rfl, rfl⟩⟩

/-- Unless a write fails, a step that does not stop the client passes a loop on. -/
theorem Steps.loops_le (h : Steps cfg c a d) (hok : writeFails a = false) (hgoes : a ≠ .stop) :
    d.stopped = c.stopped ∧ d.loops ≤ c.loops := by
  obtain ⟨hstopped, hloop⟩ := h.loop.resolve_left fun hstop => hgoes hstop.1
  refine ⟨hstopped, ?_⟩
  rw [hok, Bool.toNat_false] at hloop
  unfold loops
  omega

theorem Steps.writes_le (h : Steps cfg c a d) :
    c.writes.length ≤ d.writes.length + a.isWrite.toNat := by
  have herase : ∀ i, c.writes.length ≤ (c.writes.eraseIdx i).length + 1 := by
    intro i
    rw [List.length_eraseIdx]
    split <;> omega
  rcases h.queue with ⟨_, _, _, hwrites⟩ | ⟨p, _, _, _, hwrites⟩ | ⟨i, p, rfl, _, _, hwrites⟩ |
    ⟨i, p, rfl, _, _, _, hwrites⟩
  · rw [hwrites]
    exact Nat.le_add_right _ _
  · rw [hwrites, List.length_append]
    exact Nat.le_add_right_of_le (Nat.le_add_right _ _)
  · rw [hwrites]
    exact herase i
  · rw [hwrites, List.length_append]
    exact Nat.le_trans (herase i) (Nat.succ_le_succ (Nat.le_add_right _ _))

/-- A step takes no operation away but the one whose handler it runs. -/
theorem Steps.operations_le (h : Steps cfg c a d) :
    c.connects ≤ d.connects + a.isConnect.toNat ∧ c.reads ≤ d.reads + a.isRead.toNat ∧
      c.writes.length ≤ d.writes.length + a.isWrite.toNat := by
  have hwrites := h.writes_le
  rcases h.loop with ⟨rfl, rfl⟩ | ⟨_, hloop⟩
  · exact ⟨Nat.le_refl _, Nat.le_refl _, hwrites⟩
  · rcases hloop with ⟨hconnect, hread, _⟩ | ⟨hconnect, hread, _⟩ | ⟨hconnect, hread, _⟩ |
      ⟨hconnect, hread, _⟩ <;> rw [hconnect, hread] <;>
      simp only [Bool.toNat_false, Bool.toNat_true] <;> omega

/-- A stopped client runs no handler, so it starts no operation. -/
theorem operations_of_stopped (hstopped : c.stopped = true) (h : c.step cfg a = some d) :
    d.stopped = true ∧ d.connects = c.connects ∧ d.reads = c.reads := by
  cases a with
  | postMessage isOrder msg =>
    obtain rfl := Option.some.inj h
    exact ⟨hstopped, rfl, rfl⟩
  | postCall i =>
    obtain ⟨call, _, rfl⟩ := Option.map_eq_some_iff.mp h
    rcases postCall_eq c i call with h | h <;> rw [h] <;> exact ⟨hstopped, rfl, rfl⟩
  | publishMessage msg =>
    obtain rfl := Option.some.inj h
    rw [publishMessage_frame]
    exact ⟨hstopped, rfl, rfl⟩
  | postPackage pac =>
    obtain rfl := Option.some.inj h
    rw [postPackage_frame]
    exact ⟨hstopped, rfl, rfl⟩
  | stop =>
    obtain rfl := Option.some.inj h
    exact ⟨rfl, rfl, rfl⟩
  | runPosted | doConnect | readError | doRead | writeDone | timerAborted | timerExpired
  | doResponse => exact absurd hstopped (Option.ite_none_left_eq_some.mp h).1

/-- One loop at most. What a stopped client has posted does not count: it never runs. -/
structure OneLoop (c : AsioClient M) : Prop where
  operations : c.connects + c.reads ≤ 1
  running : c.stopped = false → c.loops ≤ 1

theorem OneLoop.step (hloop : OneLoop c) (hok : writeFails a = false)
    (h : c.step cfg a = some d) : OneLoop d := by
  cases hstopped : c.stopped with
  | true =>
    obtain ⟨hstopped, hconnects, hreads⟩ := operations_of_stopped hstopped h
    refine ⟨?_, fun hrunning => by simp [hstopped] at hrunning⟩
    rw [hconnects, hreads]
    exact hloop.operations
  | false =>
    by_cases hstop : a = .stop
    · subst hstop
      obtain rfl := Option.some.inj h
      exact ⟨hloop.operations, fun hrunning => nomatch hrunning⟩
    · have hle : d.loops ≤ 1 := Nat.le_trans ((Steps.of_step h).loops_le hok hstop).2
        (hloop.running hstopped)
      exact ⟨Nat.le_trans (Nat.le_add_right _ _) hle, fun _ => hle⟩

end AsioClient

/-- A client with its asynchronous operations: none until one finishes, then its outcome until its
handler runs. The outcome of a read is the bytes, or none for an error. -/
structure ConnectionRun (M : Type) where
  client : AsioClient M := { connects := 1 }
  connects : List (Option Bool) := [none]
  reads : List (Option (Option Bytes)) := []
  writes : List (Option Bool) := []

inductive ConnectionAction (M : Type)
  | finishConnect (i : ℕ) (success : Bool)
  | finishRead (i : ℕ) (outcome : Option Bytes)
  | finishWrite (i : ℕ) (success : Bool)
  | doConnect (i : ℕ)
  | doRead (i : ℕ)
  | writeDone (i : ℕ)
  | other (a : ClientAction M)

namespace ConnectionRun

/-- An operation finishes once. -/
def finish {α : Type} (operations : List (Option α)) (i : ℕ) (outcome : α) :
    Option (List (Option α)) :=
  match operations[i]? with
  | some none => some (operations.set i (some outcome))
  | _ => none

def readAction : Option Bytes → ClientAction M
  | none => .readError
  | some chunk => .doRead chunk

/-- The step of the client that runs the handler of a finished operation, and the operations
without this one. -/
def handler (r : ConnectionRun M) : ConnectionAction M → Option (ClientAction M × ConnectionRun M)
  | .doConnect i => r.connects[i]?.join.map fun success =>
      (.doConnect success, { r with connects := r.connects.eraseIdx i })
  | .doRead i => r.reads[i]?.join.map fun outcome =>
      (readAction outcome, { r with reads := r.reads.eraseIdx i })
  | .writeDone i => r.writes[i]?.join.map fun success =>
      (.writeDone i success, { r with writes := r.writes.eraseIdx i })
  | .other a => if a.isConnect || a.isRead || a.isWrite then none else some (a, r)
  | _ => none

/-- Closing the socket finishes the outstanding operations with an error. -/
def closeSocket (r : ConnectionRun M) : ConnectionRun M :=
  { r with
    connects := r.connects.map fun outcome => some (outcome.getD false)
    reads := r.reads.map fun outcome => some (outcome.getD none)
    writes := r.writes.map fun outcome => some (outcome.getD false) }

def runsDoClose (c : AsioClient M) : ClientAction M → Bool
  | .runPosted i => c.posted[i]?.any Posted.isDoClose
  | _ => false

/-- The operations after a handler: doClose closes the socket, as does an async_connect on an open
one, and what the handler has started has not finished. -/
def resume (r : ConnectionRun M) (closes : Bool) (d : AsioClient M) : ConnectionRun M :=
  let r := if closes || decide (r.connects.length < d.connects) then r.closeSocket else r
  { client := d
    connects := r.connects ++ List.replicate (d.connects - r.connects.length) none
    reads := r.reads ++ List.replicate (d.reads - r.reads.length) none
    writes := r.writes ++ List.replicate (d.writes.length - r.writes.length) none }

def step (cfg : ClientConfig M) (r : ConnectionRun M) :
    ConnectionAction M → Option (ConnectionRun M)
  | .finishConnect i success =>
    (finish r.connects i success).map fun connects => { r with connects := connects }
  | .finishRead i outcome =>
    (finish r.reads i outcome).map fun reads => { r with reads := reads }
  | .finishWrite i success =>
    (finish r.writes i success).map fun writes => { r with writes := writes }
  | a =>
    (r.handler a).bind fun (b, s) =>
      (r.client.step cfg b).map (s.resume (runsDoClose r.client b))

/-- A client on which start has been called, with the life of its operations. -/
def machine (cfg : ClientConfig M) : Machine (ConnectionRun M) (ConnectionAction M) where
  init := {}
  step := step cfg

/-- At most one async_connect and at most one async_read_some have not finished. -/
def SingleLoop (r : ConnectionRun M) : Prop :=
  r.connects.countP Option.isNone ≤ 1 ∧ r.reads.countP Option.isNone ≤ 1

/-- The operations are those that the client counts. -/
structure Aligned (r : ConnectionRun M) : Prop where
  connects : r.connects.length = r.client.connects
  reads : r.reads.length = r.client.reads
  writes : r.writes.length = r.client.writes.length

/-- The handler of an async_write does not run with an error. -/
def NoWriteError (r : ConnectionRun M) : ConnectionAction M → Prop
  | .writeDone i => r.writes[i]?.join ≠ some false
  | _ => True

instance (r : ConnectionRun M) (a : ConnectionAction M) : Decidable (NoWriteError r a) :=
  match a with
  | .writeDone i => inferInstanceAs (Decidable (r.writes[i]?.join ≠ some false))
  | .finishConnect .. | .finishRead .. | .finishWrite .. | .doConnect .. | .doRead ..
  | .other .. => inferInstanceAs (Decidable True)

variable {cfg : ClientConfig M} {r s t : ConnectionRun M} {a : ConnectionAction M}
  {b : ClientAction M} {d : AsioClient M}

theorem length_finish {α : Type} {operations finished : List (Option α)} {i : ℕ} {outcome : α}
    (h : finish operations i outcome = some finished) :
    finished.length = operations.length := by
  unfold finish at h
  split at h
  · obtain rfl := Option.some.inj h
    exact List.length_set
  · simp at h

/-- A step finishes an operation or runs a handler. -/
theorem step_cases (h : step cfg r a = some t) :
    (t.client = r.client ∧ t.connects.length = r.connects.length ∧
      t.reads.length = r.reads.length ∧ t.writes.length = r.writes.length) ∨
    ∃ b s d, r.handler a = some (b, s) ∧ r.client.step cfg b = some d ∧
      t = s.resume (runsDoClose r.client b) d := by
  cases a with
  | finishConnect i success =>
    obtain ⟨connects, hfinish, rfl⟩ := Option.map_eq_some_iff.mp h
    exact Or.inl ⟨rfl, length_finish hfinish, rfl, rfl⟩
  | finishRead i outcome =>
    obtain ⟨reads, hfinish, rfl⟩ := Option.map_eq_some_iff.mp h
    exact Or.inl ⟨rfl, rfl, length_finish hfinish, rfl⟩
  | finishWrite i success =>
    obtain ⟨writes, hfinish, rfl⟩ := Option.map_eq_some_iff.mp h
    exact Or.inl ⟨rfl, rfl, rfl, length_finish hfinish⟩
  | doConnect | doRead | writeDone | other =>
    obtain ⟨⟨b, s⟩, hhandler, hstep⟩ := Option.bind_eq_some_iff.mp h
    obtain ⟨d, hd, rfl⟩ := Option.map_eq_some_iff.mp hstep
    exact Or.inr ⟨b, s, d, hhandler, hd, rfl⟩

theorem length_eraseIdx_of_join {α : Type} {operations : List (Option α)} {i : ℕ} {outcome : α}
    (h : operations[i]?.join = some outcome) :
    (operations.eraseIdx i).length + 1 = operations.length := by
  obtain ⟨hi, _⟩ := List.getElem?_eq_some_iff.mp (Option.join_eq_some_iff.mp h)
  exact List.length_eraseIdx_add_one hi

/-- A handler takes its own operation away. -/
theorem length_handler (h : r.handler a = some (b, s)) :
    s.connects.length + b.isConnect.toNat = r.connects.length ∧
      s.reads.length + b.isRead.toNat = r.reads.length ∧
      s.writes.length + b.isWrite.toNat = r.writes.length := by
  cases a with
  | doConnect i =>
    obtain ⟨success, hget, heq⟩ := Option.map_eq_some_iff.mp h
    obtain ⟨rfl, rfl⟩ := Prod.mk.inj heq
    exact ⟨length_eraseIdx_of_join hget, rfl, rfl⟩
  | doRead i =>
    obtain ⟨outcome, hget, heq⟩ := Option.map_eq_some_iff.mp h
    obtain ⟨rfl, rfl⟩ := Prod.mk.inj heq
    cases outcome with
    | none => exact ⟨rfl, length_eraseIdx_of_join hget, rfl⟩
    | some chunk => exact ⟨rfl, length_eraseIdx_of_join hget, rfl⟩
  | writeDone i =>
    obtain ⟨success, hget, heq⟩ := Option.map_eq_some_iff.mp h
    obtain ⟨rfl, rfl⟩ := Prod.mk.inj heq
    exact ⟨rfl, rfl, length_eraseIdx_of_join hget⟩
  | other c =>
    obtain ⟨hother, heq⟩ := Option.ite_none_left_eq_some.mp h
    obtain ⟨rfl, rfl⟩ := Prod.mk.inj (Option.some.inj heq)
    simp only [Bool.or_eq_true, not_or, Bool.not_eq_true] at hother
    obtain ⟨⟨hconnect, hread⟩, hwrite⟩ := hother
    rw [hconnect, hread, hwrite]
    exact ⟨rfl, rfl, rfl⟩
  | finishConnect | finishRead | finishWrite => simp [handler] at h

theorem writeFails_handler (hok : NoWriteError r a) (h : r.handler a = some (b, s)) :
    AsioClient.writeFails b = false := by
  cases a with
  | doConnect i =>
    obtain ⟨success, _, heq⟩ := Option.map_eq_some_iff.mp h
    obtain ⟨rfl, _⟩ := Prod.mk.inj heq
    rfl
  | doRead i =>
    obtain ⟨outcome, _, heq⟩ := Option.map_eq_some_iff.mp h
    obtain ⟨rfl, _⟩ := Prod.mk.inj heq
    cases outcome <;> rfl
  | writeDone i =>
    obtain ⟨success, hget, heq⟩ := Option.map_eq_some_iff.mp h
    obtain ⟨rfl, _⟩ := Prod.mk.inj heq
    cases success with
    | true => rfl
    | false => exact absurd hget hok
  | other c =>
    obtain ⟨hother, heq⟩ := Option.ite_none_left_eq_some.mp h
    obtain ⟨rfl, _⟩ := Prod.mk.inj (Option.some.inj heq)
    cases c with
    | writeDone i success => simp [ClientAction.isWrite] at hother
    | _ => rfl
  | finishConnect | finishRead | finishWrite => simp [handler] at h

theorem Aligned.resume {closes : Bool} (hconnects : s.connects.length ≤ d.connects)
    (hreads : s.reads.length ≤ d.reads) (hwrites : s.writes.length ≤ d.writes.length) :
    Aligned (s.resume closes d) := by
  simp only [ConnectionRun.resume]
  split
  · refine ⟨?_, ?_, ?_⟩ <;>
      simp only [closeSocket, List.length_append, List.length_map, List.length_replicate] <;> omega
  · refine ⟨?_, ?_, ?_⟩ <;> simp only [List.length_append, List.length_replicate] <;> omega

theorem Aligned.step (hr : Aligned r) (h : step cfg r a = some t) : Aligned t := by
  rcases step_cases h with ⟨hclient, hconnects, hreads, hwrites⟩ | ⟨b, s, d, hhandler, hd, rfl⟩
  · exact ⟨by rw [hconnects, hclient, hr.connects], by rw [hreads, hclient, hr.reads],
      by rw [hwrites, hclient, hr.writes]⟩
  · obtain ⟨hconnects, hreads, hwrites⟩ := length_handler hhandler
    obtain ⟨hconnects', hreads', hwrites'⟩ := (AsioClient.Steps.of_step hd).operations_le
    rw [hr.connects] at hconnects
    rw [hr.reads] at hreads
    rw [hr.writes] at hwrites
    exact Aligned.resume (by omega) (by omega) (by omega)

/-- In a run in which no async_write completes with an error there is at most one connect and at
most one read, and never both, even if those whose handler is still to run are counted. -/
theorem singleLoop_of_noWriteError (h : (machine cfg).ReachableWhen NoWriteError r) :
    r.SingleLoop ∧ r.connects.length + r.reads.length ≤ 1 := by
  have hinv : Aligned r ∧ AsioClient.OneLoop r.client := by
    refine Machine.ReachableWhen.invariant (I := fun r => Aligned r ∧ AsioClient.OneLoop r.client)
      ?_ ?_ h
    · exact ⟨⟨rfl, rfl, rfl⟩, ⟨Nat.le_refl _, fun _ => Nat.le_refl _⟩⟩
    · rintro r a t ⟨haligned, hloop⟩ hok hstep
      refine ⟨haligned.step hstep, ?_⟩
      rcases step_cases hstep with ⟨hclient, _⟩ | ⟨b, s, d, hhandler, hd, rfl⟩
      · rwa [hclient]
      · exact hloop.step (writeFails_handler hok hhandler) hd
  obtain ⟨haligned, hloop⟩ := hinv
  have hle : r.connects.length + r.reads.length ≤ 1 := by
    rw [haligned.connects, haligned.reads]
    exact hloop.operations
  have hconnects := List.countP_le_length (p := Option.isNone) (l := r.connects)
  have hreads := List.countP_le_length (p := Option.isNone) (l := r.reads)
  exact ⟨⟨by omega, by omega⟩, hle⟩

/-- The connection breaks, and the client connects again. -/
def pingReconnect : List (ConnectionAction PingPong) :=
  [.finishConnect 0 true, .doConnect 0, .finishRead 0 (some []), .doRead 0, .finishRead 0 none,
    .doRead 0, .other (.runPosted 0), .finishConnect 0 true, .doConnect 0]

theorem singleLoop_ping :
    ∃ r : ConnectionRun PingPong, r.reads.length = 1 ∧ r.SingleLoop ∧
      r.connects.length + r.reads.length ≤ 1 := by
  have hrun : ((machine AsioClient.pingConfig).run NoWriteError {} pingReconnect).map
      (fun r => r.reads.length) = some 1 := by decide +kernel
  obtain ⟨r, hr, hreads⟩ := Option.map_eq_some_iff.mp hrun
  have hreach : (machine AsioClient.pingConfig).ReachableWhen NoWriteError r :=
    Machine.reachableWhen_of_run pingReconnect hr
  obtain ⟨hloop, hle⟩ := singleLoop_of_noWriteError hreach
  exact ⟨r, hreads, hloop, hle⟩

/-- The connection breaks with a write outstanding. The doClose of the read handler aborts it and
connects, the aborted write posts another doClose, and this one closes a socket whose connect has
succeeded and connects again: both handlers of async_connect start a read. -/
def twoLoops : List (ConnectionAction PingPong) :=
  [.finishConnect 0 true, .doConnect 0, .other (.publishMessage PingPong.blank),
    .other (.runPosted 0), .finishRead 0 none, .doRead 0, .other (.runPosted 0), .writeDone 0,
    .finishConnect 0 true, .other (.runPosted 0), .doConnect 0, .finishConnect 0 true,
    .doConnect 0]

theorem not_singleLoop :
    ¬ ∀ r : ConnectionRun PingPong, (machine AsioClient.pingConfig).Reachable r →
      r.SingleLoop := by
  intro hall
  have hrun : ∃ r, (machine AsioClient.pingConfig).run (fun _ _ => True) {} twoLoops = some r ∧
      r.reads = [none, none] := ⟨_, rfl, rfl⟩
  obtain ⟨r, hr, hreads⟩ := hrun
  have hloop := (hall r (Machine.reachableWhen_of_run twoLoops hr)).2
  simp [hreads] at hloop

end ConnectionRun

end AsioMsg
