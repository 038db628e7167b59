import AsioMsg.StreamReading

/-!
When decode waits. A null pointer should mean that a sane frame has not arrived
completely. It also comes from a header whose pacSize is negative or over the
limit, which makes decode wait before the range check is reached, and from a
body that is rejected, with whatever follows left in front. A read past the
readable bytes may yield anything.
-/

namespace AsioMsg

variable {M : Type}

/-- The next `n` bytes when `past` lies behind the readable ones. -/
def peekPast (bs : Bytes) (past : ℕ → Byte) (n : ℕ) : Bytes :=
  (bs ++ (List.range n).map past).take n

namespace Buffer

/-- No stale bytes behind the readable ones, if there are any. -/
def Tight (buf : Buffer) : Prop := buf.readable ≠ [] → buf.writerIndex = buf.buffer.length

/-- What is peeked is the readable bytes, then the rest of the vector and the memory behind it. -/
theorem peekBytes_split (mem : Memory) (buf : Buffer) (n : ℕ) :
    buf.peekBytes mem n = (buf.readable ++ (buf.buffer.drop buf.writerIndex ++
      (List.range n).map (mem.pastBuffer buf))).take n := by
  have h1 := buf.readerIndex_le
  have h2 := buf.writerIndex_le
  have hsplit : buf.buffer ++ (List.range n).map (mem.pastBuffer buf) =
      buf.buffer.take buf.writerIndex ++ (buf.buffer.drop buf.writerIndex ++
        (List.range n).map (mem.pastBuffer buf)) := by
    rw [← List.append_assoc, List.take_append_drop]
  rw [peekBytes, hsplit, List.drop_append_of_le_length
    (by rw [List.length_take, Nat.min_eq_left h2]; exact h1), readable]

/-- Every peek is one with some bytes behind the readable ones. -/
theorem exists_peekPast (mem : Memory) (buf : Buffer) (n : ℕ) :
    ∃ past, buf.peekBytes mem n = peekPast buf.readable past n := by
  rw [peekBytes_split]
  generalize hbehind : buf.buffer.drop buf.writerIndex ++
    (List.range n).map (mem.pastBuffer buf) = behind
  have hlen : n ≤ behind.length := by
    rw [← hbehind, List.length_append, List.length_map, List.length_range]
    omega
  have htake : (List.range n).map (fun i => behind.getD i 0) = behind.take n := by
    apply List.ext_getElem
    · simp only [List.length_map, List.length_range, List.length_take]
      omega
    · intro i hi hi'
      simp only [List.getElem_map, List.getElem_range, List.getElem_take]
      exact (List.getElem_eq_getD 0).symm
  refine ⟨fun i => behind.getD i 0, ?_⟩
  rw [peekPast, htake, List.take_append, List.take_append, List.take_take,
    Nat.min_eq_left (Nat.sub_le _ _)]

/-- In a tight buffer the memory decides what lies behind. -/
theorem Tight.peekBytes_eq {buf : Buffer} (h : buf.Tight) (hne : buf.readable ≠ [])
    (past : ℕ → Byte) (pastString : Bytes → ℕ → Byte) (n : ℕ) :
    buf.peekBytes ⟨fun _ => past, pastString⟩ n = peekPast buf.readable past n := by
  rw [peekBytes_split, h hne, List.drop_length, List.nil_append, peekPast]

theorem Tight.retrieve {buf : Buffer} (h : buf.Tight) (len : ℕ) :
    (buf.retrieve len).value.Tight := by
  intro hne
  by_cases hlt : len < buf.readableBytes
  · have hreadable : buf.readable ≠ [] := by
      intro hnil
      rw [← readable_length, hnil] at hlt
      simp at hlt
    simp only [Buffer.retrieve, hlt, dite_true]
    exact h hreadable
  · refine absurd ?_ hne
    rw [readable_retrieve, List.drop_of_length_le (by rw [readable_length]; omega)]

theorem Tight.gotoFlag (mem : Memory) {buf : Buffer} (h : buf.Tight) :
    (gotoFlag mem buf).value.2.Tight := by
  induction buf using gotoFlag.induct mem with
  | case1 buf hlong hflag =>
    rw [AsioMsg.gotoFlag, if_pos hlong, if_pos hflag]
    exact h
  | case2 buf hlong hflag ih =>
    rw [AsioMsg.gotoFlag, if_pos hlong, if_neg hflag]
    exact ih (h.retrieve 1)
  | case3 buf hshort =>
    rw [AsioMsg.gotoFlag, if_neg hshort]
    exact h

/-- The bytes and nothing else. -/
def exactly (bs : Bytes) : Buffer where
  buffer := bs
  readerIndex := 0
  writerIndex := bs.length
  readerIndex_le := Nat.zero_le _
  writerIndex_le := Nat.le_refl _

theorem tight_exactly (bs : Bytes) : (exactly bs).Tight := fun _ => rfl

@[simp] theorem readable_exactly (bs : Bytes) : (exactly bs).readable = bs := by
  simp [readable, exactly]

end Buffer

namespace Build

/-- At most 20 bytes, or a flag pair and a sane header of a frame that has more bytes. -/
def Waits (bs : Bytes) : Prop :=
  bs.length ≤ kPackageHeaderSize ∨
    (startsWithFlag bs = true ∧ badPacSize (PacHeader.ofWire bs) = false ∧
      (bs.length : ℤ) < (PacHeader.ofWire bs).pacSize.toInt)

instance (bs : Bytes) : Decidable (Waits bs) := inferInstanceAs (Decidable (_ ∨ _))

/-- The body in front of `f` is rejected when certain bytes lie behind the readable ones. -/
def MayReject (b : Build M) (f : Bytes) (proto : M) : Prop :=
  ∃ past, b.bodyOutcome (PacHeader.ofWire f) (frameName f) proto
    (peekPast (behindName f) past) = .null

/-- An incomplete frame has its pacSize in range. When the body of a complete one may be rejected,
what follows its type name is something to wait with. -/
structure FrontSane (b : Build M) (f : Bytes) : Prop where
  waits : ¬ FrontFrame f → badPacSize (PacHeader.ofWire f) = false
  rejects : FrontFrame f → badSizes (PacHeader.ofWire f) = false →
    kPackageHeaderSize + (PacHeader.ofWire f).typeNameLen.toNat ≤ f.length →
    b.passesThrough (frameName f) = false →
    ∀ proto, b.createMessage (frameName f) = some proto → b.MayReject f proto →
      Waits (behindName f)

/-- This holds of every frame that the scan of decode comes to. -/
def NeverStuck (b : Build M) (bs : Bytes) : Prop :=
  ∀ f, b.Reaches bs f → kPackageHeaderSize < f.length → b.FrontSane f

/-- What one activation of decode does with the complete frame `f` in front of `buf`. -/
inductive FrontPass (b : Build M) (mem : Memory) (buf : Buffer) (f : Bytes) : Pass M → Prop
  | badSizes {left : Buffer} : badSizes (PacHeader.ofWire f) = true →
      left.readable = f.drop kPackageHeaderSize → (buf.Tight → left.Tight) →
      FrontPass b mem buf f (.again left)
  | overlong {pass : Pass M} : badSizes (PacHeader.ofWire f) = false →
      f.length < kPackageHeaderSize + (PacHeader.ofWire f).typeNameLen.toNat →
      pass.rest.readable = [] → FrontPass b mem buf f pass
  | passed {result : Decoded M} {left : Buffer} : badSizes (PacHeader.ofWire f) = false →
      kPackageHeaderSize + (PacHeader.ofWire f).typeNameLen.toNat ≤ f.length →
      b.passesThrough (frameName f) = true → result ≠ .null →
      FrontPass b mem buf f (.done result left)
  | unknown {left : Buffer} : badSizes (PacHeader.ofWire f) = false →
      kPackageHeaderSize + (PacHeader.ofWire f).typeNameLen.toNat ≤ f.length →
      b.passesThrough (frameName f) = false → b.createMessage (frameName f) = none →
      left.readable = behindName f → (buf.Tight → left.Tight) →
      FrontPass b mem buf f (.again left)
  | known {proto : M} {body left : Buffer} : badSizes (PacHeader.ofWire f) = false →
      kPackageHeaderSize + (PacHeader.ofWire f).typeNameLen.toNat ≤ f.length →
      b.passesThrough (frameName f) = false → b.createMessage (frameName f) = some proto →
      body.readable = behindName f → (buf.Tight → body.Tight) →
      left.readable = (if (b.bodyOutcome (PacHeader.ofWire f) (frameName f) proto
        (body.peekBytes mem)).isPackage then
          body.readable.drop (sizeT (remainSize (PacHeader.ofWire f))) else body.readable) →
      FrontPass b mem buf f (.done (b.bodyOutcome (PacHeader.ofWire f) (frameName f) proto
        (body.peekBytes mem)) left)

theorem decodeOpaque_result (header : PacHeader) (typeName : Bytes) (buf : Buffer) :
    ∃ result left, (decodeOpaque (M := M) header typeName buf).value = .done result left ∧
      result ≠ .null := by
  simp only [decodeOpaque, Traced.bind_value]
  split
  · exact ⟨_, _, rfl, by simp⟩
  · exact ⟨_, _, rfl, by simp⟩

theorem decodePass_front (b : Build M) (mem : Memory) (buf : Buffer)
    (hframe : FrontFrame (seek buf.readable)) :
    b.FrontPass mem buf (seek buf.readable) (b.decodePass mem buf).value := by
  have hnamed := readable_header mem buf
  have htight : buf.Tight →
      ((gotoFlag mem buf).value.2.retrieve kPackageHeaderSize).value.Tight :=
    fun h => (h.gotoFlag mem).retrieve _
  have hlong := hframe.1
  rw [decodePass_complete b mem buf hframe.1 hframe.2, Traced.after_value, frontHeader]
  generalize ((gotoFlag mem buf).value.2.retrieve kPackageHeaderSize).value = named
    at hnamed htight ⊢
  generalize seek buf.readable = f at hnamed hlong ⊢
  cases hsizes : badSizes (PacHeader.ofWire f) with
  | true =>
    rw [if_pos (by rw [badSizes] at hsizes; exact hsizes)]
    exact .badSizes hsizes hnamed htight
  | false =>
    rw [if_neg (by rw [badSizes] at hsizes; rw [hsizes]; exact Bool.false_ne_true)]
    have hcount : named.readableBytes = f.length - kPackageHeaderSize := by
      rw [← Buffer.readable_length, hnamed, List.length_drop]
    have hbody := Buffer.readable_retrieve named (PacHeader.ofWire f).typeNameLen.toNat
    have hbodyTight : buf.Tight →
        (named.retrieve (PacHeader.ofWire f).typeNameLen.toNat).value.Tight :=
      fun h => (htight h).retrieve _
    by_cases hfits : kPackageHeaderSize + (PacHeader.ofWire f).typeNameLen.toNat ≤ f.length
    · have hpeek : named.peekBytes mem (PacHeader.ofWire f).typeNameLen.toNat = frameName f := by
        rw [Buffer.peekBytes_eq _ _ _ (by omega), hnamed, frameName]
      rw [hnamed] at hbody
      rw [decodeNamed_eq, Traced.after_value, hpeek]
      cases hthrough : b.passesThrough (frameName f) with
      | true =>
        rw [if_pos rfl]
        obtain ⟨result, left, hdone, hresult⟩ := decodeOpaque_result (M := M)
          (PacHeader.ofWire f) (frameName f)
          (named.retrieve (PacHeader.ofWire f).typeNameLen.toNat).value
        rw [hdone]
        exact .passed hsizes hfits hthrough hresult
      | false =>
        rw [if_neg Bool.false_ne_true]
        cases hproto : b.createMessage (frameName f) with
        | none => exact .unknown hsizes hfits hthrough hproto hbody hbodyTight
        | some proto =>
          obtain ⟨left, hvalue, hleft⟩ := b.decodeMessage_value mem (PacHeader.ofWire f)
            (frameName f) proto (named.retrieve (PacHeader.ofWire f).typeNameLen.toNat).value
          rw [hvalue]
          exact .known hsizes hfits hthrough hproto hbody hbodyTight hleft
    · refine .overlong hsizes (Nat.lt_of_not_le hfits) ?_
      have hempty : named.readable.drop (PacHeader.ofWire f).typeNameLen.toNat = [] :=
        List.drop_of_length_le (by rw [Buffer.readable_length]; omega)
      have hsuffix := b.decodeNamed_behind mem (PacHeader.ofWire f) named
      rw [hempty] at hsuffix
      exact List.suffix_nil.mp hsuffix

/-- One read of the memory behind the readable bytes is like any bytes there. -/
theorem exists_past_outcome (b : Build M) (mem : Memory) (header : PacHeader) (typeName : Bytes)
    (proto : M) (buf : Buffer) :
    ∃ past, b.bodyOutcome header typeName proto (buf.peekBytes mem) =
      b.bodyOutcome header typeName proto (peekPast buf.readable past) := by
  cases hzip : header.iszip with
  | true =>
    obtain ⟨past, hpast⟩ := buf.exists_peekPast mem (sizeT (remainSize header))
    exact ⟨past, b.bodyOutcome_congr header typeName proto (fun _ => hpast) (by simp [hzip])⟩
  | false =>
    obtain ⟨past, hpast⟩ := buf.exists_peekPast mem header.msgSize.toInt.toNat
    exact ⟨past, b.bodyOutcome_congr header typeName proto (by simp [hzip]) fun _ => hpast⟩

theorem waits_nil : Waits [] := Or.inl (Nat.zero_le _)

/-- What is left in front of an incomplete frame with its pacSize in range. -/
theorem waits_seek {bs : Bytes} (hframe : ¬ FrontFrame (seek bs))
    (hsane : kPackageHeaderSize < (seek bs).length →
      badPacSize (PacHeader.ofWire (seek bs)) = false) : Waits (seek bs) := by
  by_cases hlong : kPackageHeaderSize < (seek bs).length
  · have hrange := hsane hlong
    have hinc : (seek bs).length < sizeT (PacHeader.ofWire (seek bs)).pacSize.toInt := by
      by_contra hcomp
      exact hframe ⟨hlong, hcomp⟩
    refine Or.inr ⟨startsWithFlag_seek bs hlong, hrange, ?_⟩
    have hlt : (PacHeader.ofWire (seek bs)).pacSize.toInt < 2 ^ 31 := BitVec.toInt_lt
    simp only [badPacSize, Bool.or_eq_false_iff, decide_eq_false_iff_not] at hrange
    rw [sizeT_of_nonneg _ (by omega) (by omega)] at hinc
    omega
  · exact Or.inl (Nat.le_of_not_lt hlong)

theorem skip_badSizes (b : Build M) {f : Bytes} (hsizes : badSizes (PacHeader.ofWire f) = true) :
    b.skip f = some (f.drop kPackageHeaderSize) :=
  if_pos hsizes

theorem skip_unknown (b : Build M) {f : Bytes} (hsizes : badSizes (PacHeader.ofWire f) = false)
    (hthrough : b.passesThrough (frameName f) = false)
    (hunknown : b.createMessage (frameName f) = none) : b.skip f = some (behindName f) := by
  rw [badSizes] at hsizes
  rw [frameName] at hthrough hunknown
  simp [skip, hsizes, hthrough, hunknown, behindName]

theorem NeverStuck.of_skip {b : Build M} {bs rest : Bytes} (h : b.NeverStuck bs)
    (hframe : FrontFrame (seek bs)) (hskip : b.skip (seek bs) = some rest) : b.NeverStuck rest :=
  fun f hreach => h f (.behind hframe hskip hreach)

theorem neverStuck_nil (b : Build M) : b.NeverStuck [] := by
  intro f hreach hlong
  cases hreach with
  | here => simp [seek] at hlong
  | behind hframe => exact absurd hframe.1 (by simp [seek])

/-- Where no frame is insane, a null pointer leaves what decode should wait with. -/
theorem NeverStuck.waits {b : Build M} (mem : Memory) (buf : Buffer)
    (h : b.NeverStuck buf.readable) (hnull : (b.decode mem buf).value.1 = .null) :
    Waits (b.decode mem buf).value.2.readable := by
  induction buf using decode.induct b mem with
  | case1 buf result rest hdone =>
    rw [decode_of_done b mem buf rest result hdone] at hnull ⊢
    change result = .null at hnull
    change Waits rest.readable
    by_cases hframe : FrontFrame (seek buf.readable)
    · have hpass := decodePass_front b mem buf hframe
      rw [hdone, hnull] at hpass
      generalize hresult : Pass.done Decoded.null rest = pass at hpass
      cases hpass with
      | badSizes | unknown => simp at hresult
      | overlong _ _ hempty =>
        subst hresult
        rw [Pass.rest] at hempty
        rw [hempty]
        exact waits_nil
      | passed _ _ _ hne =>
        rw [Pass.done.injEq] at hresult
        exact absurd hresult.1.symm hne
      | @known proto body left hsizes hfits hthrough hproto hbody _ hleft =>
        rw [Pass.done.injEq] at hresult
        obtain ⟨hout, rfl⟩ := hresult
        rw [← hout, Decoded.isPackage_null, if_neg Bool.false_ne_true, hbody] at hleft
        rw [hleft]
        obtain ⟨past, hpast⟩ := exists_past_outcome b mem (PacHeader.ofWire (seek buf.readable))
          (frameName (seek buf.readable)) proto body
        rw [hbody, ← hout] at hpast
        exact (h _ (.here _) hframe.1).rejects hframe hsizes hfits hthrough proto hproto
          ⟨past, hpast.symm⟩
    · have hwait := decodePass_wait b mem buf hframe
      rw [hdone, Pass.done.injEq] at hwait
      rw [hwait.2, (gotoFlag_value mem buf).1]
      exact waits_seek hframe fun hlong => (h _ (.here _) hlong).waits hframe
  | case2 buf rest hagain ih =>
    rw [decode_of_again b mem buf rest hagain] at hnull ⊢
    have hframe := frontFrame_of_again b mem buf hagain
    have hpass := decodePass_front b mem buf hframe
    refine ih ?_ hnull
    generalize (b.decodePass mem buf).value = pass at hagain hpass
    cases hpass with
    | badSizes hsizes hleft =>
      obtain rfl := Pass.again.inj hagain
      rw [hleft]
      exact h.of_skip hframe (b.skip_badSizes hsizes)
    | overlong _ _ hempty =>
      rw [hagain, Pass.rest] at hempty
      rw [hempty]
      exact b.neverStuck_nil
    | unknown hsizes _ hthrough hunknown hleft =>
      obtain rfl := Pass.again.inj hagain
      rw [hleft]
      exact h.of_skip hframe (b.skip_unknown hsizes hthrough hunknown)
    | passed | known => simp at hagain

/-- Over a skipped frame decode calls itself on what `skip` goes on with. -/
theorem decodePass_skipped (b : Build M) (mem : Memory) (buf : Buffer) {rest : Bytes}
    (hframe : FrontFrame (seek buf.readable)) (hskip : b.skip (seek buf.readable) = some rest)
    (hne : rest ≠ []) :
    ∃ left, (b.decodePass mem buf).value = .again left ∧ left.readable = rest ∧
      (buf.Tight → left.Tight) := by
  have hpass := decodePass_front b mem buf hframe
  generalize (b.decodePass mem buf).value = pass at hpass
  cases hpass with
  | @badSizes left hsizes hleft hkept =>
    rw [skip_badSizes b hsizes, ← hleft, Option.some.injEq] at hskip
    exact ⟨left, rfl, hskip, hkept⟩
  | overlong hsizes hshort _ =>
    -- the name takes in all that is there, so nothing is left to scan
    rw [badSizes] at hsizes
    simp only [skip, hsizes, Bool.false_eq_true, if_false] at hskip
    split at hskip
    · simp at hskip
    · split at hskip
      · simp at hskip
      · rw [Option.some.injEq, List.drop_of_length_le (by rw [List.length_drop]; omega)] at hskip
        exact absurd hskip.symm hne
  | passed hsizes hfits hthrough _ =>
    rw [badSizes] at hsizes
    rw [frameName] at hthrough
    simp [skip, hsizes, hthrough] at hskip
  | @unknown left hsizes _ hthrough hunknown hleft hkept =>
    rw [skip_unknown b hsizes hthrough hunknown, ← hleft, Option.some.injEq] at hskip
    exact ⟨left, rfl, hskip, hkept⟩
  | known hsizes hfits hthrough hproto =>
    rw [badSizes] at hsizes
    rw [frameName] at hthrough hproto
    simp [skip, hsizes, hthrough, hproto] at hskip

/-- A scan that comes to some bytes has started in front of some. -/
theorem Reaches.ne_nil {b : Build M} {bs f : Bytes} (h : b.Reaches bs f) (hf : f ≠ []) :
    bs ≠ [] := by
  rintro rfl
  cases h with
  | here => exact hf rfl
  | behind hframe => exact absurd hframe.1 (by simp [seek])

/-- For each frame of its scan decode comes to an activation in front of it, and what that returns
the first one returns. -/
theorem Reaches.activation {b : Build M} {bs f : Bytes} (h : b.Reaches bs f) (hf : f ≠ [])
    (mem : Memory) (buf : Buffer) (hbuf : buf.readable = bs) :
    ∃ buf' : Buffer, (buf.Tight → buf'.Tight) ∧ seek buf'.readable = f ∧
      ∀ (α : Type) (result : Buffer → α),
        (∀ buf rest, (b.decodePass mem buf).value = .again rest → result buf = result rest) →
        result buf = result buf' := by
  induction h generalizing buf with
  | here bs => exact ⟨buf, id, by rw [hbuf], fun _ _ _ => rfl⟩
  | @behind bs rest f hframe hskip hreach ih =>
    subst hbuf
    obtain ⟨left, hagain, hleft, hkept⟩ :=
      decodePass_skipped b mem buf hframe hskip (hreach.ne_nil hf)
    obtain ⟨buf', hkept', hseek, hsame⟩ := ih hf left hleft
    exact ⟨buf', hkept' ∘ hkept, hseek, fun α result hresult =>
      (hresult buf left hagain).trans (hsame α result hresult)⟩

/-- decode returns a null pointer only to wait, whatever lies around the readable bytes, iff no
frame that its scan comes to makes it wait with a pacSize out of range or may be rejected with
something else behind its name. -/
theorem decode_waits_iff (b : Build M) (bs : Bytes) :
    (∀ (mem : Memory) (buf : Buffer), buf.readable = bs → (b.decode mem buf).value.1 = .null →
      Waits (b.decode mem buf).value.2.readable) ↔ b.NeverStuck bs := by
  constructor
  · intro hall f hreach hlong
    -- a run that comes to the frame with the memory that the case asks for
    have hrun : ∀ mem : Memory, ∃ buf' : Buffer, buf'.Tight ∧ seek buf'.readable = f ∧
        ((b.decode mem buf').value.1 = .null → Waits (b.decode mem buf').value.2.readable) := by
      intro mem
      obtain ⟨buf', hkept, hseek, hsame⟩ := hreach.activation
        (List.ne_nil_of_length_pos (Nat.zero_lt_of_lt hlong)) mem (Buffer.exactly bs)
        (Buffer.readable_exactly bs)
      have heq := hsame _ (fun buf => (b.decode mem buf).value) (b.decode_value_of_again mem)
      have hwaits := hall mem (Buffer.exactly bs) (Buffer.readable_exactly bs)
      rw [heq] at hwaits
      exact ⟨buf', hkept (Buffer.tight_exactly bs), hseek, hwaits⟩
    constructor
    · intro hframe
      obtain ⟨buf', _, rfl, hwaits⟩ := hrun ⟨fun _ _ => 0, fun _ _ => 0⟩
      rw [decode_of_done _ _ _ _ _ (decodePass_wait b _ buf' hframe)] at hwaits
      have hleft := hwaits rfl
      change Waits (gotoFlag _ buf').value.2.readable at hleft
      rw [(gotoFlag_value _ buf').1] at hleft
      exact (hleft.resolve_left (Nat.not_le_of_lt hlong)).2.1
    · rintro hframe hsizes hfits hthrough proto hproto ⟨past, hpast⟩
      obtain ⟨buf', htight, rfl, hwaits⟩ := hrun ⟨fun _ => past, fun _ _ => 0⟩
      by_cases hempty : behindName (seek buf'.readable) = []
      · rw [hempty]
        exact waits_nil
      · have hpass := decodePass_front b ⟨fun _ => past, fun _ _ => 0⟩ buf' hframe
        generalize hvalue : (b.decodePass _ buf').value = pass at hpass
        cases hpass with
        | badSizes hbad => simp [hbad] at hsizes
        | overlong _ hshort => omega
        | passed _ _ hyes => simp [hyes] at hthrough
        | unknown _ _ _ hunknown => simp [hunknown] at hproto
        | @known proto' body left _ _ _ hproto' hbody hkept hleft =>
          obtain rfl := Option.some.inj (hproto.symm.trans hproto')
          have hpeek : ∀ n, body.peekBytes ⟨fun _ => past, fun _ _ => 0⟩ n =
              peekPast (behindName (seek buf'.readable)) past n := by
            intro n
            rw [(hkept htight).peekBytes_eq (by rw [hbody]; exact hempty), hbody]
          have hout := b.bodyOutcome_congr (PacHeader.ofWire (seek buf'.readable))
            (frameName (seek buf'.readable)) proto (fun _ => hpeek _) (fun _ => hpeek _)
          rw [hpast] at hout
          rw [hout, Decoded.isPackage_null, if_neg Bool.false_ne_true, hbody] at hleft
          rw [hout] at hvalue
          rw [decode_of_done _ _ _ _ _ hvalue] at hwaits
          rw [← hleft]
          exact hwaits rfl
  · rintro h mem buf rfl hnull
    exact h.waits mem buf hnull

/-- The flag pair, a header with pacSize -1, and a byte behind it. -/
def negativeSize : Bytes :=
  (PacHeader.toWire { msgType := MsgType.REQREP.code, typeNameLen := 1, pacSize := -1 }) ++ [0x41]

theorem decode_not_waits :
    ¬ ∀ (b : Build PingPong) (mem : Memory) (buf : Buffer), (b.decode mem buf).value.1 = .null →
      Waits (b.decode mem buf).value.2.readable := by
  intro h
  have hwaits := h (PingPong.build false) PingPong.memory (Buffer.empty.append negativeSize)
    (by decide +kernel)
  exact absurd hwaits (by decide +kernel)

end Build

end AsioMsg
