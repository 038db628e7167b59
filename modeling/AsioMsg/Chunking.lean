import AsioMsg.FrameConfinement
import AsioMsg.StreamReading
import AsioMsg.StreamReassembly

/-!
Chunking. The packages that the read loop delivers should depend on the bytes
of a stream only. They do as long as every frame that reading comes to has
lengths that agree and nothing is delivered behind a rejected one: on a
rejected body decode returns null, as it does to wait, and the loop stops until
the next chunk with frames left behind.
-/

namespace AsioMsg

variable {M : Type}

namespace Build

/-- One activation of decode on the part of a stream that has arrived: it waits without losing
anything, or takes the next step of the reading. -/
theorem decodePass_carried (b : Build M) (mem : Memory) (buf : Buffer) (later : Bytes)
    (packages : List (Package M)) (h : b.Carried packages (buf.readable ++ later)) :
    (∃ left, (b.decodePass mem buf).value = .done .null left ∧
      b.Carried packages (left.readable ++ later) ∧
      ∀ others, b.Carried others left.readable → others = []) ∨
    (∃ left, (b.decodePass mem buf).value = .again left ∧
      b.Carried packages (left.readable ++ later)) ∨
    (∃ pac others left, (b.decodePass mem buf).value = .done (.package pac) left ∧
      packages = pac :: others ∧ b.Carried others (left.readable ++ later)) ∨
    ∃ left, (b.decodePass mem buf).value = .done .lengthError left ∧ packages = [] := by
  have hleft := (gotoFlag_value mem buf).1
  by_cases hframe : FrontFrame (seek buf.readable)
  · have hflag := startsWithFlag_seek buf.readable hframe.1
    obtain ⟨hagree, hnext⟩ :=
      h.front (Carried.seek_append_of_frontFrame hframe later) hframe hflag
    have hpass := decodePass_readFront b mem buf hframe hagree
    generalize (b.decodePass mem buf).value = pass at hpass ⊢
    rcases hnext with ⟨rest, hread, hrest⟩ | ⟨pac, rest, others, hread, rfl, hrest⟩ |
      ⟨rest, hread, rfl, hrest⟩ | ⟨hread, rfl⟩
    · rw [hread] at hpass
      cases hpass with
      | skip left => exact Or.inr (Or.inl ⟨left, rfl, hrest⟩)
    · rw [hread] at hpass
      cases hpass with
      | deliver _ left => exact Or.inr (Or.inr (Or.inl ⟨pac, others, left, rfl, rfl, hrest⟩))
    · rw [hread] at hpass
      cases hpass with
      | reject left =>
        refine Or.inl ⟨left, rfl, hrest, fun others hothers => ?_⟩
        exact List.prefix_nil.mp (hothers.initial hrest)
    · rw [hread] at hpass
      cases hpass with
      | throw left => exact Or.inr (Or.inr (Or.inr ⟨left, rfl, rfl⟩))
  · refine Or.inl ⟨_, decodePass_wait b mem buf hframe, ?_, ?_⟩
    · rw [hleft]
      exact h.of_seek (seek_append _ _)
    · rw [hleft]
      exact fun others hothers => hothers.eq_nil_of_wait (by rwa [seek_seek])

theorem decode_carried (b : Build M) (mem : Memory) (buf : Buffer) (later : Bytes)
    (packages : List (Package M)) (h : b.Carried packages (buf.readable ++ later)) :
    (∃ left, (b.decode mem buf).value = (.null, left) ∧
      b.Carried packages (left.readable ++ later) ∧
      ∀ others, b.Carried others left.readable → others = []) ∨
    (∃ pac others left, (b.decode mem buf).value = (.package pac, left) ∧
      packages = pac :: others ∧ b.Carried others (left.readable ++ later)) ∨
    ∃ left, (b.decode mem buf).value = (.lengthError, left) ∧ packages = [] := by
  induction buf using decode.induct b mem with
  | case1 buf result rest hdone =>
    rw [decode_of_done b mem buf rest result hdone]
    rcases decodePass_carried b mem buf later packages h with
      ⟨left, hvalue, hkept⟩ | ⟨left, hvalue, _⟩ | ⟨pac, others, left, hvalue, hnext⟩ |
      ⟨left, hvalue, hnil⟩
    · rw [hdone, Pass.done.injEq] at hvalue
      obtain ⟨rfl, rfl⟩ := hvalue
      exact Or.inl ⟨rest, rfl, hkept⟩
    · simp [hdone] at hvalue
    · rw [hdone, Pass.done.injEq] at hvalue
      obtain ⟨rfl, rfl⟩ := hvalue
      exact Or.inr (Or.inl ⟨pac, others, rest, rfl, hnext⟩)
    · rw [hdone, Pass.done.injEq] at hvalue
      obtain ⟨rfl, rfl⟩ := hvalue
      exact Or.inr (Or.inr ⟨rest, rfl, hnil⟩)
  | case2 buf rest hagain ih =>
    rw [decode_value_of_again b mem buf rest hagain]
    rcases decodePass_carried b mem buf later packages h with
      ⟨left, hvalue, _⟩ | ⟨left, hvalue, hrest⟩ | ⟨_, _, left, hvalue, _⟩ | ⟨left, hvalue, _⟩
    · simp [hagain] at hvalue
    · rw [hagain, Pass.again.injEq] at hvalue
      exact ih (hvalue ▸ hrest)
    · simp [hagain] at hvalue
    · simp [hagain] at hvalue

/-- The read loop takes exactly the packages that the stream carries by the reading. -/
theorem reader_conveys (b : Build M) (mem : Memory) : (b.reader mem).Conveys b.Carried True where
  nil _ h := h.eq_nil_of_wait (fun hframe => absurd hframe.1 (by simp [seek]))
  item packages buf later package left h hnext := by
    rw [reader_next] at hnext
    rcases decode_carried b mem buf later packages h with
      ⟨_, hvalue, _⟩ | ⟨pac, others, _, hvalue, heq, hrest⟩ | ⟨_, hvalue, _⟩
    · simp [hvalue] at hnext
    · simp only [hvalue, Next.item.injEq] at hnext
      obtain ⟨rfl, rfl⟩ := hnext
      exact ⟨others, heq, hrest⟩
    · simp [hvalue] at hnext
  wait packages buf later left h hnext := by
    rw [reader_next] at hnext
    rcases decode_carried b mem buf later packages h with
      ⟨_, hvalue, hkept⟩ | ⟨_, _, _, hvalue, _⟩ | ⟨_, hvalue, _⟩
    · simp only [hvalue, Next.wait.injEq] at hnext
      subst hnext
      exact hkept
    · simp [hvalue] at hnext
    · simp [hvalue] at hnext
  fail packages buf later left h hnext := by
    rw [reader_next] at hnext
    rcases decode_carried b mem buf later packages h with
      ⟨_, hvalue, _⟩ | ⟨_, _, _, hvalue, _⟩ | ⟨_, hvalue, hnil⟩
    · simp [hvalue] at hnext
    · simp [hvalue] at hnext
    · exact ⟨trivial, hnil⟩

/-- Where reading goes on behind a complete frame. -/
def FrontRead.behind : FrontRead M → Option Bytes
  | .skip rest => some rest
  | .deliver _ rest => some rest
  | .reject rest => some rest
  | .throw => none

/-- What reading a stream finds in front, at the start and behind each complete frame. -/
inductive Scans (b : Build M) : Bytes → Bytes → Prop
  | here (bs : Bytes) : Scans b bs (seek bs)
  | behind {bs rest f : Bytes} : FrontFrame (seek bs) →
      (b.readFront (seek bs)).behind = some rest → Scans b rest f → Scans b bs f

/-- No complete frame that reading comes to is delivered. -/
def NoneDelivered (b : Build M) (bs : Bytes) : Prop :=
  ∀ f, b.Scans bs f → FrontFrame f → ∀ pac rest, b.readFront f ≠ .deliver pac rest

/-- Every complete frame that reading comes to has lengths that agree, and none behind a rejected
one is delivered. -/
def NothingBehindRejected (b : Build M) (bs : Bytes) : Prop :=
  ∀ f, b.Scans bs f → FrontFrame f →
    b.LengthsAgree f ∧ ∀ rest, b.readFront f = .reject rest → b.NoneDelivered rest

theorem behind_length {b : Build M} {f rest : Bytes} (hframe : FrontFrame f)
    (hflag : startsWithFlag f = true) (hagree : b.LengthsAgree f)
    (hrest : (b.readFront f).behind = some rest) : rest.length < f.length := by
  have hlong := hframe.1
  rcases hagree.cases hframe hflag with hsizes | ⟨g, more, rfl, _⟩
  · rw [readFront_badSizes b hsizes, FrontRead.behind, Option.some.injEq] at hrest
    rw [← hrest, List.length_drop]
    unfold kPackageHeaderSize at hlong ⊢
    omega
  · have hname := g.typeName_pos
    rw [List.length_append, g.bytes_length]
    cases hthrough : b.passesThrough g.typeName with
    | true =>
      rw [readFront_passed _ hthrough, FrontRead.behind, Option.some.injEq] at hrest
      subst hrest
      omega
    | false =>
      cases hproto : b.createMessage g.typeName with
      | none =>
        rw [readFront_unknown _ hthrough hproto, FrontRead.behind, Option.some.injEq] at hrest
        subst hrest
        rw [List.length_append]
        omega
      | some proto =>
        rw [readFront_known _ hthrough hproto] at hrest
        cases hout : g.outcome b proto with
        | package pac =>
          rw [hout, FrontRead.ofOutcome, FrontRead.behind, Option.some.injEq] at hrest
          subst hrest
          omega
        | null =>
          rw [hout, FrontRead.ofOutcome, FrontRead.behind, Option.some.injEq] at hrest
          subst hrest
          rw [List.length_append]
          omega
        | lengthError => simp [hout, FrontRead.ofOutcome, FrontRead.behind] at hrest

/-- A stream of which nothing is delivered carries nothing. -/
theorem Carried.eq_nil_of_noneDelivered {b : Build M} {packages : List (Package M)} {bs : Bytes}
    (h : b.Carried packages bs) (hnone : b.NoneDelivered bs) : packages = [] := by
  induction h with
  | wait _ => rfl
  | skip hframe _ hread _ ih =>
    exact ih fun f hscan => hnone f (.behind hframe (by rw [hread]; rfl) hscan)
  | deliver hframe _ hread _ _ => exact absurd hread (hnone _ (.here _) hframe _ _)
  | reject _ _ _ _ => rfl
  | throw _ _ _ => rfl

/-- Such a stream carries some packages. -/
theorem NothingBehindRejected.exists_carried {b : Build M} {bs : Bytes}
    (h : b.NothingBehindRejected bs) : ∃ packages, b.Carried packages bs := by
  induction hn : bs.length using Nat.strongRecOn generalizing bs with
  | _ n ih =>
    subst hn
    by_cases hframe : FrontFrame (seek bs)
    · have hflag := startsWithFlag_seek bs hframe.1
      obtain ⟨hagree, hbehind⟩ := h _ (.here bs) hframe
      have hnext : ∀ rest, (b.readFront (seek bs)).behind = some rest →
          ∃ packages, b.Carried packages rest := by
        intro rest hrest
        have hlt := behind_length hframe hflag hagree hrest
        have hle := seek_length_le bs
        exact ih rest.length (by omega) (fun f hscan => h f (.behind hframe hrest hscan)) rfl
      cases hread : b.readFront (seek bs) with
      | skip rest =>
        obtain ⟨packages, hpackages⟩ := hnext rest (by rw [hread]; rfl)
        exact ⟨packages, .skip hframe hagree hread hpackages⟩
      | deliver pac rest =>
        obtain ⟨packages, hpackages⟩ := hnext rest (by rw [hread]; rfl)
        exact ⟨pac :: packages, .deliver hframe hagree hread hpackages⟩
      | reject rest =>
        obtain ⟨packages, hpackages⟩ := hnext rest (by rw [hread]; rfl)
        obtain rfl := hpackages.eq_nil_of_noneDelivered (hbehind rest hread)
        exact ⟨[], .reject hframe hagree hread hpackages⟩
      | throw => exact ⟨[], .throw hframe hagree hread⟩
    · exact ⟨[], .wait hframe⟩

/-- A way of cutting a stream into chunks, as the reads of a socket do. -/
def Cutting (bs : Bytes) (chunks : List Bytes) : Prop := chunks.flatten = bs ∧ [] ∉ chunks

/-- When nothing is delivered behind a rejected frame, every way of cutting the stream delivers the
same packages. -/
theorem doReads_items_eq (b : Build M) (mem₁ mem₂ : Memory) (bs : Bytes)
    (h : b.NothingBehindRejected bs) (chunks₁ chunks₂ : List Bytes) (h₁ : Cutting bs chunks₁)
    (h₂ : Cutting bs chunks₂) :
    (b.doReads mem₁ chunks₁).items = (b.doReads mem₂ chunks₂).items := by
  obtain ⟨packages, hpackages⟩ := h.exists_carried
  have hitems : ∀ (mem : Memory) (chunks : List Bytes), Cutting bs chunks →
      (b.doReads mem chunks).items = packages := by
    intro mem chunks hcut
    refine (Reader.feed_conveys (b.reader_conveys mem) chunks packages Buffer.empty ?_ ?_).1
    · exact fun others hothers => (b.reader_conveys mem).nil others hothers
    · change b.Carried packages (Buffer.empty.readable ++ chunks.flatten)
      rwa [Buffer.readable_empty, List.nil_append, hcut.1]
  rw [hitems mem₁ chunks₁ h₁, hitems mem₂ chunks₂ h₂]

/-- A stream without a complete frame in front is not read on. -/
theorem Scans.eq_seek {b : Build M} {bs f : Bytes} (h : b.Scans bs f)
    (hframe : ¬ FrontFrame (seek bs)) : f = seek bs := by
  cases h with
  | here => rfl
  | behind hfront => exact absurd hfront hframe

/-- A frame of ProtoSimple.PingPongReq whose body does not parse. -/
def rejectedFrame : Bytes :=
  (PacHeader.toWire {
    msgType := MsgType.REQREP.code, typeNameLen := 23, msgSize := 2, pacSize := 45 }) ++
    PingPong.typeName ++ [0, 0]

/-- A frame that is delivered, and a rejected one behind it. -/
theorem nothingBehindRejected_ping :
    (PingPong.build false).NothingBehindRejected (pingFrame 0 ++ rejectedFrame) := by
  have hseek : seek (pingFrame 0 ++ rejectedFrame) = pingFrame 0 ++ rejectedFrame := by decide
  obtain ⟨pac, hread⟩ : ∃ pac, (PingPong.build false).readFront (pingFrame 0 ++ rejectedFrame) =
      .deliver pac rejectedFrame := ⟨_, rfl⟩
  have hseek' : seek rejectedFrame = rejectedFrame := by decide
  have hread' : (PingPong.build false).readFront rejectedFrame = .reject [0, 0] := rfl
  have hlast : ∀ f, (PingPong.build false).Scans [0, 0] f → ¬ FrontFrame f := by
    intro f hscan
    have hshort : ¬ FrontFrame (seek [0, 0]) := fun hframe => absurd hframe.1 (by decide)
    rwa [hscan.eq_seek hshort]
  intro f hscan hframe
  cases hscan with
  | here =>
    rw [hseek]
    refine ⟨Or.inr ⟨by decide, fun _ _ => by decide⟩, fun rest hreject => ?_⟩
    rw [hread] at hreject
    simp at hreject
  | @behind _ rest _ _ hrest hscan =>
    rw [hseek, hread, FrontRead.behind, Option.some.injEq] at hrest
    subst hrest
    cases hscan with
    | here =>
      rw [hseek', hread']
      refine ⟨Or.inr ⟨by decide, fun _ _ => by decide⟩, fun rest hreject g hscan hfront => ?_⟩
      rw [FrontRead.reject.injEq] at hreject
      exact absurd hfront (hlast g (hreject ▸ hscan))
    | @behind _ rest _ _ hrest hscan =>
      rw [hseek', hread', FrontRead.behind, Option.some.injEq] at hrest
      exact absurd hframe (hlast f (hrest ▸ hscan))

/-- In one piece or byte by byte. -/
theorem doReads_items_eq_ping :
    ((PingPong.build false).doReads PingPong.memory [pingFrame 0 ++ rejectedFrame]).items =
      ((PingPong.build false).doReads PingPong.memory
        ((pingFrame 0 ++ rejectedFrame).map fun x => [x])).items :=
  doReads_items_eq (PingPong.build false) PingPong.memory PingPong.memory
    (pingFrame 0 ++ rejectedFrame) nothingBehindRejected_ping _ _ ⟨by decide, by decide⟩
    ⟨by decide, by decide⟩

/-- Behind a rejected frame, a good one is delivered only if it comes in a chunk of its own. -/
theorem doReads_items_ne :
    ¬ ∀ (b : Build PingPong) (mem : Memory) (bs : Bytes) (chunks₁ chunks₂ : List Bytes),
      Cutting bs chunks₁ → Cutting bs chunks₂ →
        (b.doReads mem chunks₁).items = (b.doReads mem chunks₂).items := by
  intro h
  have hitems := h (PingPong.build false) PingPong.memory (rejectedFrame ++ pingFrame 0)
    [rejectedFrame ++ pingFrame 0] [rejectedFrame, pingFrame 0] ⟨by decide, by decide⟩
    ⟨by decide, by decide⟩
  have hone : ((PingPong.build false).doReads PingPong.memory
      [rejectedFrame ++ pingFrame 0]).items.length = 0 := by decide +kernel
  have htwo : ((PingPong.build false).doReads PingPong.memory
      [rejectedFrame, pingFrame 0]).items.length = 1 := by decide +kernel
  rw [hitems, htwo] at hone
  simp at hone

end Build

end AsioMsg
