import AsioMsg.ClientQueue
import AsioMsg.StreamReassembly

/-!
What the client reads over a sequence of connections. readBuffer_ is never
cleared, so the bytes of a frame that a disconnect cut off stand in front of
the next connection's first frame. A leftover without a flag pair does no harm,
and that is what remains when a connection breaks between two frames or after
the first byte of one.
-/

namespace AsioMsg

variable {M : Type}

namespace Build

/-- The frames of a server, one after the other. -/
def framesOf {b : Build M} (mem : Memory) (outs : List (Outgoing b)) : Bytes :=
  outs.flatMap fun o => o.encoded mem

/-- The packages of the frames that lie completely in the first bytes `got` of the frames. -/
def arrived {b : Build M} (mem : Memory) : List (Outgoing b) → Bytes → List (Package M)
  | [], _ => []
  | o :: outs, got =>
    if (o.encoded mem).length ≤ got.length then
      o.received :: arrived mem outs (got.drop (o.encoded mem).length)
    else []

/-- The bytes of `got` behind the last complete frame. -/
def unfinished {b : Build M} (mem : Memory) : List (Outgoing b) → Bytes → Bytes
  | [], got => got
  | o :: outs, got =>
    if (o.encoded mem).length ≤ got.length then
      unfinished mem outs (got.drop (o.encoded mem).length)
    else got

/-- The bytes that arrived are complete frames and a proper part of the next one. -/
theorem arrived_split {b : Build M} (mem : Memory) (outs : List (Outgoing b)) (got : Bytes)
    (h : got <+: framesOf mem outs) :
    ∃ complete : List (Outgoing b), got = framesOf mem complete ++ unfinished mem outs got ∧
      arrived mem outs got = complete.map Outgoing.received ∧
      (unfinished mem outs got = [] ∨ ∃ (f : WireFrame) (missing : Bytes),
        f.bytes = unfinished mem outs got ++ missing ∧ missing ≠ []) := by
  induction outs generalizing got with
  | nil =>
    have hnil : got = [] := List.prefix_nil.mp h
    exact ⟨[], rfl, rfl, Or.inl hnil⟩
  | cons o outs ih =>
    rw [framesOf, List.flatMap_cons] at h
    by_cases hlen : (o.encoded mem).length ≤ got.length
    · obtain ⟨later, rfl⟩ := List.prefix_of_prefix_length_le (List.prefix_append _ _) h hlen
      obtain ⟨complete, hgot, harrived, hpart⟩ := ih later ((List.prefix_append_right_inj _).mp h)
      rw [unfinished, arrived, if_pos hlen, if_pos hlen, List.drop_left]
      refine ⟨o :: complete, ?_, ?_, hpart⟩
      · rw [framesOf, List.flatMap_cons, List.append_assoc, List.append_cancel_left_eq]
        exact hgot
      · rw [harrived, List.map_cons]
    · rw [unfinished, arrived, if_neg hlen, if_neg hlen]
      refine ⟨[], rfl, rfl, Or.inr ?_⟩
      obtain ⟨missing, hmissing⟩ := List.prefix_of_prefix_length_le h (List.prefix_append _ _)
        (Nat.le_of_not_le hlen)
      refine ⟨o.sendable.frame, missing, ?_, ?_⟩
      · rw [← o.encoded_eq mem, hmissing]
      · rintro rfl
        rw [List.append_nil] at hmissing
        exact hlen (Nat.le_of_eq (congrArg List.length hmissing.symm))

/-- Frames behind a leftover without a flag pair, and a tail. -/
theorem stream_framesOf (b : Build M) (hparse : b.protobuf.ParseUndoesSerialize)
    (hzlib : b.zlib.UncompressUndoesCompress) {T : Bytes → Prop} (mem : Memory)
    (leftover : Garbage) (complete : List (Outgoing b)) (tail : Bytes) (htail : T tail)
    (hjoined : T (leftover ++ tail)) :
    b.Stream T (complete.map Outgoing.received) (leftover ++ (framesOf mem complete ++ tail)) := by
  cases complete with
  | nil => exact .done hjoined
  | cons o outs =>
    have hrest : b.Stream T (outs.map Outgoing.received) (framesOf mem outs ++ tail) := by
      have h := stream_streamOf b hparse hzlib mem
        (outs.map fun o => ((⟨[], NoFlagPair.nil⟩ : Garbage), o)) tail htail
      have hbytes : streamOf mem (outs.map fun o => ((⟨[], NoFlagPair.nil⟩ : Garbage), o)) =
          framesOf mem outs := by
        simp only [streamOf, framesOf, List.flatMap_map, List.nil_append]
      rw [List.map_map, hbytes] at h
      exact h
    rw [framesOf, List.flatMap_cons, List.append_assoc, ← List.append_assoc leftover.1,
      o.encoded_eq, List.map_cons]
    exact .frame leftover.2 (o.delivers hparse hzlib) hrest

/-- A proper part of a frame that is at most one byte long completes no flag pair. -/
theorem noFlagPair_part (leftover : Garbage) (f : WireFrame) {part missing : Bytes}
    (hsplit : f.bytes = part ++ missing) (hlen : part.length ≤ 1) :
    NoFlagPair (leftover ++ part) := by
  cases part with
  | nil =>
    rw [List.append_nil]
    exact leftover.2
  | cons x rest =>
    have hrest : rest = [] := by
      rw [List.length_cons] at hlen
      exact List.length_eq_zero_iff.mp (by omega)
    have hx := f.head_bytes [] (x :: rest) missing (by rwa [List.append_nil]) x rfl
    subst hrest hx
    exact leftover.2.concat (by decide)

/-- On one connection the read loop hands on the packages of the frames that arrived completely.
What it leaves is garbage if the bytes end at most one byte into a frame. -/
theorem feed_arrived (b : Build M) (hparse : b.protobuf.ParseUndoesSerialize)
    (hzlib : b.zlib.UncompressUndoesCompress) (mem mem' : Memory) (outs : List (Outgoing b))
    (start : Buffer) (hstart : NoFlagPair start.readable) (chunks : List Bytes)
    (h : chunks.flatten <+: framesOf mem outs) :
    ((b.reader mem').feed start chunks).items = arrived mem outs chunks.flatten ∧
      ((unfinished mem outs chunks.flatten).length ≤ 1 →
        NoFlagPair ((b.reader mem').feed start chunks).state.readable) := by
  obtain ⟨complete, hgot, harrived, hpart⟩ := arrived_split mem outs chunks.flatten h
  let leftover : Garbage := ⟨start.readable, hstart⟩
  -- whatever tail the bytes have, they are a stream of the packages of the complete frames
  have hfeed : ∀ {T : Bytes → Prop}, IsTail T → T (unfinished mem outs chunks.flatten) →
      T (leftover ++ unfinished mem outs chunks.flatten) →
      ((b.reader mem').feed start chunks).items = arrived mem outs chunks.flatten ∧
        T ((b.reader mem').feed start chunks).state.readable := by
    intro T hT htail hjoined
    have hstream := stream_framesOf b hparse hzlib mem leftover complete _ htail hjoined
    rw [← hgot, ← harrived] at hstream
    obtain ⟨_, hitems, hleft⟩ := Reader.feed_carries (b.reader_carries mem' hT) chunks _ start
      (fun others hothers => hothers.eq_nil_of_noFlagPair hstart) hstream
    exact ⟨hitems, hleft.tail_of_nil⟩
  rcases hpart with hnil | ⟨f, missing, hsplit, hmissing⟩
  · rw [hnil, List.append_nil] at hfeed
    obtain ⟨hitems, hleft⟩ := hfeed NoFlagPair.isTail NoFlagPair.nil leftover.2
    exact ⟨hitems, fun _ => hleft⟩
  · refine ⟨(hfeed CutOff.isTail ⟨[], _, missing, f, NoFlagPair.nil, hsplit, hmissing, rfl⟩
      ⟨leftover, _, missing, f, leftover.2, hsplit, hmissing, rfl⟩).1, fun hlen => ?_⟩
    exact (hfeed NoFlagPair.isTail (noFlagPair_part ⟨[], NoFlagPair.nil⟩ f hsplit hlen)
      (noFlagPair_part leftover f hsplit hlen)).2

end Build

namespace AsioClient

open Build

variable {cfg : ClientConfig M} {c d : AsioClient M} {a : ClientAction M} {mem : Memory}
  {streams : ℕ → List (Outgoing cfg.build)}

/-- What a step does to the reading side. -/
theorem Steps.reading (h : Steps cfg c a d) :
    (d.readBuffer = c.readBuffer ∧ d.handed = c.handed ∧ d.received = c.received ∧
      d.reads ≤ c.reads) ∨
    (a = .doConnect true ∧ d.readBuffer = c.readBuffer ∧ d.handed = c.handed ∧
      d.received = c.received ++ [[]]) ∨
    ∃ chunk, a = .doRead chunk ∧ 0 < c.reads ∧
      (cfg.build.doRead cfg.memory c.readBuffer chunk).failed = false ∧
      d.readBuffer = (cfg.build.doRead cfg.memory c.readBuffer chunk).state ∧
      d.handed = c.handed ++ (cfg.build.doRead cfg.memory c.readBuffer chunk).items ∧
      d.received = receive c.received chunk := by
  cases h with
  | postMessage isOrder msg => exact Or.inl ⟨rfl, rfl, rfl, Nat.le_refl _⟩
  | @postCall i call _ =>
    rcases postCall_eq c i call with h | h <;> rw [h] <;>
      exact Or.inl ⟨rfl, rfl, rfl, Nat.le_refl _⟩
  | publishMessage msg =>
    rw [publishMessage_frame]
    exact Or.inl ⟨rfl, rfl, rfl, Nat.le_refl _⟩
  | postPackage pac =>
    rw [postPackage_frame]
    exact Or.inl ⟨rfl, rfl, rfl, Nat.le_refl _⟩
  | stop => exact Or.inl ⟨rfl, rfl, rfl, Nat.le_refl _⟩
  | startWrite _ hrun =>
    obtain rfl := startWrite_eq hrun
    exact Or.inl ⟨rfl, rfl, rfl, Nat.le_refl _⟩
  | doClose _ =>
    rw [doClose_frame]
    exact Or.inl ⟨rfl, rfl, rfl, Nat.le_refl _⟩
  | doConnect success _ =>
    cases success with
    | true => exact Or.inr (Or.inl ⟨rfl, rfl, rfl, rfl⟩)
    | false =>
      left
      simp only [AsioClient.doConnect, Bool.false_eq_true, if_false]
      split <;> exact ⟨rfl, rfl, rfl, Nat.le_refl _⟩
  | readError _ => exact Or.inl ⟨rfl, rfl, rfl, Nat.sub_le _ _⟩
  | @doRead chunk _ hpos hread =>
    obtain ⟨hfail, hd⟩ := Option.ite_none_left_eq_some.mp hread
    obtain rfl := Option.some.inj hd
    exact Or.inr (Or.inr ⟨chunk, rfl, hpos, Bool.eq_false_iff.mpr hfail, rfl, rfl, rfl⟩)
  | writeDone _ hdone =>
    rcases writeDone_eq hdone with ⟨_, rfl⟩ | ⟨_, rfl⟩ <;>
      exact Or.inl ⟨rfl, rfl, rfl, Nat.le_refl _⟩
  | timerAborted _ _ => exact Or.inl ⟨rfl, rfl, rfl, Nat.le_refl _⟩
  | timerExpired _ => exact Or.inl ⟨rfl, rfl, rfl, Nat.le_refl _⟩
  | doResponse _ => exact Or.inl ⟨rfl, rfl, rfl, Nat.le_refl _⟩

/-- The bytes read from the latest connection, and the frames the server sends on it. -/
def latest (c : AsioClient M) : Bytes := c.received.getLastD []

def latestFrames (streams : ℕ → List (Outgoing cfg.build)) (c : AsioClient M) :
    List (Outgoing cfg.build) :=
  streams (c.received.length - 1)

/-- On the k-th connection the server sends the frames `streams k`. -/
def Served (mem : Memory) (streams : ℕ → List (Outgoing cfg.build)) (c : AsioClient M) :
    ClientAction M → Prop
  | .doRead chunk => c.latest ++ chunk <+: framesOf mem (c.latestFrames streams)
  | _ => True

/-- The client connects again only when the bytes of the connection before ended between two
frames or one byte into a frame. -/
def BreaksBetweenFrames (mem : Memory) (streams : ℕ → List (Outgoing cfg.build))
    (c : AsioClient M) : ClientAction M → Prop
  | .doConnect success =>
    success = true → (unfinished mem (c.latestFrames streams) c.latest).length ≤ 1
  | _ => True

/-- The packages of all frames that arrived completely on their own connection. -/
def arrivedFrames (mem : Memory) (streams : ℕ → List (Outgoing cfg.build))
    (received : List Bytes) : List (Package M) :=
  received.zipIdx.flatMap fun got => arrived mem (streams got.2) got.1

theorem arrivedFrames_concat (past : List Bytes) (got : Bytes) :
    arrivedFrames mem streams (past ++ [got]) =
      arrivedFrames mem streams past ++ arrived mem (streams past.length) got := by
  simp [arrivedFrames, List.zipIdx_append]

/-- The latest connection was entered with a leftover without a flag pair, and its chunks went
through the read loop. -/
structure Reading (mem : Memory) (streams : ℕ → List (Outgoing cfg.build)) (c : AsioClient M)
    (past : List Bytes) (start : Buffer) (chunks : List Bytes) : Prop where
  received_eq : c.received = past ++ [chunks.flatten]
  start_clean : NoFlagPair start.readable
  served : chunks.flatten <+: framesOf mem (streams past.length)
  not_failed : ((cfg.build.reader cfg.memory).feed start chunks).failed = false
  readBuffer_eq : c.readBuffer = ((cfg.build.reader cfg.memory).feed start chunks).state
  handed_eq : c.handed = arrivedFrames mem streams past ++
    ((cfg.build.reader cfg.memory).feed start chunks).items

def ReadInv (mem : Memory) (streams : ℕ → List (Outgoing cfg.build)) (c : AsioClient M) : Prop :=
  (c.received = [] ∧ c.reads = 0 ∧ c.readBuffer = Buffer.empty ∧ c.handed = []) ∨
    ∃ past start chunks, Reading mem streams c past start chunks

namespace Reading

variable {past : List Bytes} {start : Buffer} {chunks : List Bytes}

theorem latest_eq (h : Reading mem streams c past start chunks) : c.latest = chunks.flatten := by
  rw [latest, h.received_eq, List.getLastD_concat]

theorem latestFrames_eq (h : Reading mem streams c past start chunks) :
    c.latestFrames streams = streams past.length := by
  rw [latestFrames, h.received_eq, List.length_append, List.length_singleton,
    Nat.add_sub_cancel]

theorem handed_arrived (h : Reading mem streams c past start chunks)
    (hparse : cfg.build.protobuf.ParseUndoesSerialize)
    (hzlib : cfg.build.zlib.UncompressUndoesCompress) :
    c.handed = arrivedFrames mem streams c.received := by
  rw [h.handed_eq, h.received_eq, arrivedFrames_concat,
    (feed_arrived cfg.build hparse hzlib mem cfg.memory _ start h.start_clean chunks h.served).1]

/-- One chunk more of the same connection. -/
theorem read (h : Reading mem streams c past start chunks) {chunk : Bytes}
    (hserved : c.latest ++ chunk <+: framesOf mem (c.latestFrames streams))
    (hfail : (cfg.build.doRead cfg.memory c.readBuffer chunk).failed = false)
    (hbuffer : d.readBuffer = (cfg.build.doRead cfg.memory c.readBuffer chunk).state)
    (hhanded : d.handed = c.handed ++ (cfg.build.doRead cfg.memory c.readBuffer chunk).items)
    (hreceived : d.received = receive c.received chunk) :
    Reading mem streams d past start (chunks ++ [chunk]) := by
  have hfeed := Reader.feed_concat (cfg.build.reader cfg.memory) start chunks chunk h.not_failed
  have hread : cfg.build.doRead cfg.memory c.readBuffer chunk =
      (cfg.build.reader cfg.memory).drain ((cfg.build.reader cfg.memory).append
        ((cfg.build.reader cfg.memory).feed start chunks).state chunk) := by
    rw [h.readBuffer_eq]
    rfl
  have hflat : (chunks ++ [chunk]).flatten = chunks.flatten ++ chunk := by
    rw [List.flatten_concat]
  refine ⟨?_, h.start_clean, ?_, ?_, ?_, ?_⟩
  · rw [hreceived, hflat, receive, h.received_eq, List.dropLast_concat, List.getLastD_concat]
  · rwa [hflat, ← h.latest_eq, ← h.latestFrames_eq]
  · rw [hfeed, ← hread]
    exact hfail
  · rw [hfeed, hbuffer, hread]
  · rw [hfeed, hhanded, hread, h.handed_eq, List.append_assoc]

/-- A new connection, entered with what the one before has left. -/
theorem connect (h : Reading mem streams c past start chunks)
    (hparse : cfg.build.protobuf.ParseUndoesSerialize)
    (hzlib : cfg.build.zlib.UncompressUndoesCompress)
    (hbreak : (unfinished mem (c.latestFrames streams) c.latest).length ≤ 1)
    (hbuffer : d.readBuffer = c.readBuffer) (hhanded : d.handed = c.handed)
    (hreceived : d.received = c.received ++ [[]]) :
    Reading mem streams d (past ++ [chunks.flatten]) c.readBuffer [] := by
  have hfeed := feed_arrived cfg.build hparse hzlib mem cfg.memory _ start h.start_clean chunks
    h.served
  rw [h.latestFrames_eq, h.latest_eq] at hbreak
  refine ⟨by rw [hreceived, h.received_eq]; rfl, ?_, List.nil_prefix, rfl, hbuffer, ?_⟩
  · rw [h.readBuffer_eq]
    exact hfeed.2 hbreak
  · rw [hhanded, h.handed_arrived hparse hzlib, h.received_eq]
    exact (List.append_nil _).symm

end Reading

theorem ReadInv.step (h : ReadInv mem streams c)
    (hparse : cfg.build.protobuf.ParseUndoesSerialize)
    (hzlib : cfg.build.zlib.UncompressUndoesCompress) (hserved : Served mem streams c a)
    (hbreak : BreaksBetweenFrames mem streams c a) (hstep : Steps cfg c a d) :
    ReadInv mem streams d := by
  rcases hstep.reading with ⟨hbuffer, hhanded, hreceived, hreads⟩ |
    ⟨rfl, hbuffer, hhanded, hreceived⟩ | ⟨chunk, rfl, hpos, hfail, hbuffer, hhanded, hreceived⟩
  · rcases h with ⟨hnone, hzero, hempty, hnil⟩ | ⟨past, start, chunks, h⟩
    · exact Or.inl ⟨by rw [hreceived, hnone], by omega, by rw [hbuffer, hempty],
        by rw [hhanded, hnil]⟩
    · exact Or.inr ⟨past, start, chunks, by rw [hreceived, h.received_eq], h.start_clean,
        h.served, h.not_failed, by rw [hbuffer, h.readBuffer_eq], by rw [hhanded, h.handed_eq]⟩
  · rcases h with ⟨hnone, _, hempty, hnil⟩ | ⟨past, start, chunks, h⟩
    · exact Or.inr ⟨[], Buffer.empty, [], by rw [hreceived, hnone]; rfl, NoFlagPair.nil,
        List.nil_prefix, rfl, by rw [hbuffer, hempty]; rfl, by rw [hhanded, hnil]; rfl⟩
    · exact Or.inr ⟨_, _, _, h.connect hparse hzlib (hbreak rfl) hbuffer hhanded hreceived⟩
  · rcases h with ⟨_, hzero, _⟩ | ⟨past, start, chunks, h⟩
    · omega
    · exact Or.inr ⟨_, _, _, h.read hserved hfail hbuffer hhanded hreceived⟩

/-- If every connection breaks between two frames, or one byte into one, doResponse is handed
exactly the packages of the frames that arrived completely. -/
theorem handed_of_breaksBetweenFrames (hparse : cfg.build.protobuf.ParseUndoesSerialize)
    (hzlib : cfg.build.zlib.UncompressUndoesCompress)
    (h : (machine cfg).ReachableWhen
      (fun c a => Served mem streams c a ∧ BreaksBetweenFrames mem streams c a) c) :
    c.handed = arrivedFrames mem streams c.received := by
  have hinv : ReadInv mem streams c := by
    refine Machine.ReachableWhen.invariant (I := ReadInv mem streams) ?_ ?_ h
    · exact Or.inl ⟨rfl, rfl, rfl, rfl⟩
    · exact fun _ _ _ hs hok hstep => hs.step hparse hzlib hok.1 hok.2 (.of_step hstep)
  rcases hinv with ⟨hnone, _, _, hnil⟩ | ⟨past, start, chunks, h⟩
  · rw [hnone, hnil]
    rfl
  · exact h.handed_arrived hparse hzlib

instance (c : AsioClient M) (a : ClientAction M) : Decidable (Served mem streams c a) :=
  match a with
  | .doRead chunk =>
    inferInstanceAs (Decidable (c.latest ++ chunk <+: framesOf mem (c.latestFrames streams)))
  | .postMessage .. | .postCall .. | .publishMessage .. | .postPackage .. | .stop
  | .runPosted .. | .doConnect .. | .readError | .writeDone .. | .timerAborted ..
  | .timerExpired .. | .doResponse => inferInstanceAs (Decidable True)

instance (c : AsioClient M) (a : ClientAction M) :
    Decidable (BreaksBetweenFrames mem streams c a) :=
  match a with
  | .doConnect success => inferInstanceAs (Decidable (success = true →
      (unfinished mem (c.latestFrames streams) c.latest).length ≤ 1))
  | .postMessage .. | .postCall .. | .publishMessage .. | .postPackage .. | .stop
  | .runPosted .. | .doRead .. | .readError | .writeDone .. | .timerAborted ..
  | .timerExpired .. | .doResponse => inferInstanceAs (Decidable True)

/-- On every connection two requests, the same on each. -/
def pingStreams (_ : ℕ) : List (Outgoing pingConfig.build) := [pingOutgoing 7, pingOutgoing 8]

def pingFrame : Bytes := Outgoing.encoded PingPong.memory (pingOutgoing 7)

/-- A connection that breaks with the first byte of its second frame. -/
theorem handed_ping :
    ∃ c : AsioClient PingPong, c.handed.length = 2 ∧
      c.handed = arrivedFrames PingPong.memory pingStreams c.received := by
  let labels : List (ClientAction PingPong) := [.doConnect true, .doRead (pingFrame ++ [flag0]),
    .readError, .runPosted 0, .doConnect true, .doRead pingFrame]
  let ok (c : AsioClient PingPong) (a : ClientAction PingPong) : Prop :=
    Served PingPong.memory pingStreams c a ∧ BreaksBetweenFrames PingPong.memory pingStreams c a
  have hrun : ((machine pingConfig).run ok (machine pingConfig).init labels).map
      (fun c => c.handed.length) = some 2 := by decide +kernel
  obtain ⟨c, hc, hlen⟩ := Option.map_eq_some_iff.mp hrun
  have hreach : (machine pingConfig).ReachableWhen ok c := Machine.reachableWhen_of_run labels hc
  exact ⟨c, hlen, handed_of_breaksBetweenFrames PingPong.parseUndoesSerialize
    PingPong.uncompressUndoesCompress hreach⟩

/-- The first connection breaks 30 bytes into a frame; the frame that arrives completely on the
next one is lost. -/
theorem handed_fails :
    ¬ ∀ c : AsioClient PingPong, (machine pingConfig).ReachableWhen
        (Served PingPong.memory pingStreams) c →
      c.handed = arrivedFrames PingPong.memory pingStreams c.received := by
  intro hall
  let labels : List (ClientAction PingPong) := [.doConnect true, .doRead (pingFrame.take 30),
    .readError, .runPosted 0, .doConnect true, .doRead pingFrame]
  have hrun : ((machine pingConfig).run (Served PingPong.memory pingStreams)
      (machine pingConfig).init labels).map (fun c => (c.handed.length, c.received)) =
      some (0, [pingFrame.take 30, pingFrame]) := by decide +kernel
  obtain ⟨c, hc, hstate⟩ := Option.map_eq_some_iff.mp hrun
  obtain ⟨hlen, hreceived⟩ := Prod.mk.inj hstate
  have hhanded := hall c (Machine.reachableWhen_of_run labels hc)
  have harrived : (arrivedFrames PingPong.memory pingStreams
      [pingFrame.take 30, pingFrame]).length = 1 := by decide +kernel
  rw [hreceived] at hhanded
  rw [hhanded, harrived] at hlen
  simp at hlen

end AsioClient

end AsioMsg
