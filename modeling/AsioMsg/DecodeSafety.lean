import AsioMsg.Decode
import AsioMsg.PingPong

/-!
Memory safety of decode on arbitrary bytes. The length fields of a frame are
checked one by one, never against each other; decode touches only bytes that
are there exactly when, in every frame its scan comes to, the lengths agree
with pacSize and with the bytes that follow.
-/

namespace AsioMsg

variable {M : Type}

namespace Build

/-- More than 20 bytes, and no fewer than pacSize asks for. -/
def FrontFrame (f : Bytes) : Prop :=
  kPackageHeaderSize < f.length ∧ ¬ f.length < sizeT (PacHeader.ofWire f).pacSize.toInt

/-- What decode goes on with when it skips the frame in front of `f`. -/
def skip (b : Build M) (f : Bytes) : Option Bytes :=
  let header := PacHeader.ofWire f
  let named := f.drop kPackageHeaderSize
  let typeName := named.take header.typeNameLen.toNat
  if badPacSize header || badTypeNameLen header then some named
  else if b.passesThrough typeName then none
  else if (b.createMessage typeName).isSome then none
  else some (named.drop header.typeNameLen.toNat)

/-- The frames that the scan of decode comes to in `bs`. -/
inductive Reaches (b : Build M) : Bytes → Bytes → Prop
  | here (bs : Bytes) : Reaches b bs (seek bs)
  | behind {bs rest f : Bytes} : FrontFrame (seek bs) → b.skip (seek bs) = some rest →
      Reaches b rest f → Reaches b bs f

/-- The lengths of a frame with the bytes `named` behind its header: an opaque frame holds its
type name; otherwise the name is there and, when its type exists, a compressed body has a size
and lies behind the name, a raw body is there, and one that parses lies behind the name. -/
def NamedFits (b : Build M) (header : PacHeader) (named : Bytes) : Prop :=
  let len := header.typeNameLen.toNat
  let size := header.msgSize.toInt
  if b.passesThrough (named.take len) then
    (kPackageHeaderSize : ℤ) + len ≤ header.pacSize.toInt
  else
    len ≤ named.length ∧ ∀ proto, b.createMessage (named.take len) = some proto →
      if header.iszip then
        0 ≤ size ∧ (kPackageHeaderSize : ℤ) + len ≤ header.pacSize.toInt
      else
        (0 ≤ size ∧ size ≤ (named.drop len).length) ∧
          ((b.protobuf.parseFromArray proto ((named.drop len).take size.toNat) size).isSome →
            (kPackageHeaderSize : ℤ) + len ≤ header.pacSize.toInt)

/-- Either the sizes are out of range and the frame is skipped, or its lengths agree. -/
def LengthsFit (b : Build M) (f : Bytes) : Prop :=
  (badPacSize (PacHeader.ofWire f) || badTypeNameLen (PacHeader.ofWire f)) = true ∨
    b.NamedFits (PacHeader.ofWire f) (f.drop kPackageHeaderSize)

theorem decodePass_wait (b : Build M) (mem : Memory) (buf : Buffer)
    (hframe : ¬ FrontFrame (seek buf.readable)) :
    (b.decodePass mem buf).value = .done .null (gotoFlag mem buf).value.2 := by
  by_cases hlong : kPackageHeaderSize < (seek buf.readable).length
  · have hinc : Incomplete buf.readable := by
      by_contra hcomp
      exact hframe ⟨hlong, hcomp⟩
    exact (decodePass_incomplete b mem buf hlong hinc).1
  · exact (decodePass_noFlag b mem buf (Nat.le_of_not_lt hlong)).1

theorem retrieve_safe (buf : Buffer) (len : ℕ) :
    (buf.retrieve len).All Access.Safe ↔ len ≤ buf.readableBytes := by
  simp [Traced.All, Access.Safe]

theorem read_safe (buf : Buffer) (data : Bool) (len : ℕ) :
    (buf.read data len).All Access.Safe := by
  unfold Buffer.read
  by_cases h : data ∧ len ≤ buf.readableBytes
  · rw [if_pos h, Traced.all_bind, retrieve_safe]
    exact ⟨h.2, Traced.all_pure _ _⟩
  · rw [if_neg h]
    exact Traced.all_pure _ _

section Body

variable (header : PacHeader) (typeName : Bytes) (buf : Buffer)

theorem decodeOpaque_safe (hfits : header.pacSize.toInt - kPackageHeaderSize -
    header.typeNameLen.toInt ≤ buf.readableBytes) :
    (decodeOpaque (M := M) header typeName buf).All Access.Safe ↔
      0 ≤ header.pacSize.toInt - kPackageHeaderSize - header.typeNameLen.toInt := by
  simp only [decodeOpaque, Traced.all_bind, Traced.all_emit, Access.Safe]
  constructor
  · exact fun h => h.1
  · intro h
    refine ⟨h, ?_⟩
    rw [if_neg (by omega), Traced.all_bind, Traced.all_emit, Traced.all_bind]
    exact ⟨⟨h, hfits⟩, read_safe _ _ _, Traced.all_pure _ _⟩

theorem finishMessage_safe (remainSize : ℤ) (parsed : Option M)
    (hfits : remainSize ≤ buf.readableBytes) (hlt : remainSize < 2 ^ 64) :
    (finishMessage header typeName remainSize parsed buf).All Access.Safe ↔
      (parsed.isSome → 0 ≤ remainSize) := by
  cases parsed with
  | none => simp [finishMessage]
  | some msg =>
    simp only [finishMessage, Traced.all_bind, Traced.all_emit, retrieve_safe, Traced.all_pure,
      Access.Safe, Option.isSome_some, forall_const, and_true]
    constructor
    · exact fun h => h.1
    · intro h
      refine ⟨h, ?_⟩
      rw [sizeT_of_nonneg _ h hlt]
      omega

theorem decodeMessage_safe (b : Build M) (mem : Memory) (proto : M)
    (hfits : header.pacSize.toInt - kPackageHeaderSize - header.typeNameLen.toInt ≤
      buf.readableBytes)
    (hlt : header.pacSize.toInt - kPackageHeaderSize - header.typeNameLen.toInt < 2 ^ 64) :
    (b.decodeMessage mem header typeName proto buf).All Access.Safe ↔
      if header.iszip then
        0 ≤ header.msgSize.toInt ∧
          0 ≤ header.pacSize.toInt - kPackageHeaderSize - header.typeNameLen.toInt
      else
        (0 ≤ header.msgSize.toInt ∧ header.msgSize.toInt ≤ buf.readableBytes) ∧
          ((b.protobuf.parseFromArray proto (buf.readable.take header.msgSize.toInt.toNat)
              header.msgSize.toInt).isSome →
            0 ≤ header.pacSize.toInt - kPackageHeaderSize - header.typeNameLen.toInt) := by
  cases hzip : header.iszip with
  | true =>
    simp only [decodeMessage, hzip, if_true, Traced.all_bind, Traced.all_emit, Access.Safe]
    constructor
    · rintro ⟨hsize, h⟩
      rw [if_neg (by omega), Traced.all_bind, Traced.all_emit] at h
      exact ⟨hsize, h.1⟩
    · rintro ⟨hsize, hremain⟩
      refine ⟨hsize, ?_⟩
      rw [if_neg (by omega), Traced.all_bind, Traced.all_emit, Traced.all_bind, Traced.all_emit]
      refine ⟨hremain, ⟨hremain, hfits⟩, ?_⟩
      cases hout : b.zlib.uncompress _ _ with
      | none =>
        refine (finishMessage_safe header typeName buf _ none hfits hlt).mpr fun h => ?_
        simp at h
      | some content =>
        have hcontent := b.zlib.uncompress_length _ _ _ hout
        simp only [Traced.all_bind, Traced.all_emit, Access.Safe]
        exact ⟨⟨by omega, by exact_mod_cast hcontent⟩,
          (finishMessage_safe _ typeName buf _ _ hfits hlt).mpr (fun _ => hremain)⟩
  | false =>
    simp only [decodeMessage, hzip, Bool.false_eq_true, if_false, Traced.all_bind, Traced.all_emit,
      Access.Safe, finishMessage_safe header typeName buf _ _ hfits hlt,
      Protobuf.parseFromArray_peek]
    apply and_congr_right
    rintro ⟨hsize, hle⟩
    rw [Buffer.peekBytes_eq mem buf _ (by omega)]

end Body

/-- Behind the size checks of a complete frame decode is safe exactly when the lengths agree. -/
theorem decodeNamed_safe (b : Build M) (mem : Memory) (header : PacHeader) (buf : Buffer)
    (hlen : badTypeNameLen header = false)
    (hpac : header.pacSize.toInt ≤ kPackageHeaderSize + buf.readableBytes) :
    (b.decodeNamed mem header buf).All Access.Safe ↔ b.NamedFits header buf.readable := by
  have htoNat : (header.typeNameLen.toNat : ℤ) = header.typeNameLen.toInt := by
    simp only [badTypeNameLen, Bool.or_eq_false_iff, decide_eq_false_iff_not] at hlen
    rw [BitVec.toInt_eq_toNat_cond] at hlen ⊢
    split at hlen <;> omega
  have hpacLt : header.pacSize.toInt < 2 ^ 31 := BitVec.toInt_lt
  have hnamePos : 0 < header.typeNameLen.toInt := by
    simp only [badTypeNameLen, Bool.or_eq_false_iff, decide_eq_false_iff_not] at hlen
    omega
  have hlog : (∀ e ∈ (buf.retrieveAsString mem header.typeNameLen.toNat).log, e.Safe) ↔
      header.typeNameLen.toNat ≤ buf.readableBytes := by
    simp [Access.Safe]
  rw [decodeNamed_eq, Traced.all_after, hlog, NamedFits]
  by_cases hin : header.typeNameLen.toNat ≤ buf.readableBytes
  · have hpeek := Buffer.peekBytes_eq mem buf _ hin
    have hleft := Buffer.readable_retrieve buf header.typeNameLen.toNat
    have hcount := Buffer.readableBytes_retrieve buf header.typeNameLen.toNat
    have hfits : header.pacSize.toInt - kPackageHeaderSize - header.typeNameLen.toInt ≤
        (buf.retrieve header.typeNameLen.toNat).value.readableBytes := by
      rw [hcount]
      omega
    rw [hpeek]
    by_cases hpass : b.passesThrough (buf.readable.take header.typeNameLen.toNat) = true
    · rw [if_pos hpass, if_pos hpass, decodeOpaque_safe _ _ _ hfits, ← htoNat]
      constructor
      · rintro ⟨_, h⟩
        omega
      · intro h
        exact ⟨hin, by omega⟩
    · rw [if_neg hpass, if_neg hpass, Buffer.readable_length]
      apply and_congr_right
      intro _
      cases hcreate : b.createMessage (buf.readable.take header.typeNameLen.toNat) with
      | none => simp
      | some proto =>
        simp only [Option.some.injEq, forall_eq']
        rw [decodeMessage_safe header _ _ b mem proto hfits (by omega), ← htoNat, hleft,
          ← hleft, Buffer.readable_length]
        have hiff : 0 ≤ header.pacSize.toInt - kPackageHeaderSize - header.typeNameLen.toNat ↔
            (kPackageHeaderSize : ℤ) + header.typeNameLen.toNat ≤ header.pacSize.toInt := by omega
        rw [hiff]
  · constructor
    · exact fun h => absurd h.1 hin
    · intro h
      split at h
      · omega
      · exact absurd (by rw [← Buffer.readable_length]; exact h.1) hin

/-- In a complete frame pacSize is at most what is there. -/
theorem FrontFrame.pacSize_le {f : Bytes} (h : FrontFrame f) :
    (PacHeader.ofWire f).pacSize.toInt ≤
      kPackageHeaderSize + (f.drop kPackageHeaderSize).length := by
  obtain ⟨hlong, hcomp⟩ := h
  have hlt : (PacHeader.ofWire f).pacSize.toInt < 2 ^ 31 := BitVec.toInt_lt
  rw [List.length_drop]
  by_cases hneg : (PacHeader.ofWire f).pacSize.toInt < 0
  · omega
  · rw [sizeT_of_nonneg _ (by omega) (by omega)] at hcomp
    omega

theorem NamedFits.name_le {b : Build M} {header : PacHeader} {named : Bytes}
    (h : b.NamedFits header named)
    (hpac : header.pacSize.toInt ≤ kPackageHeaderSize + named.length) :
    header.typeNameLen.toNat ≤ named.length := by
  simp only [NamedFits] at h
  split at h
  · omega
  · exact h.1

theorem decodePass_safe (b : Build M) (mem : Memory) (buf : Buffer) :
    (b.decodePass mem buf).All Access.Safe ↔
      (FrontFrame (seek buf.readable) → b.LengthsFit (seek buf.readable)) := by
  have hscan := gotoFlag_safe mem buf
  by_cases h : kPackageHeaderSize < (seek buf.readable).length
  · by_cases hinc : Incomplete buf.readable
    · have hlog := (decodePass_incomplete b mem buf h hinc).2
      unfold Traced.All at hscan ⊢
      rw [hlog]
      exact iff_of_true hscan fun hframe => absurd hinc hframe.2
    · have hframe : FrontFrame (seek buf.readable) := ⟨h, hinc⟩
      have hnamed := readable_header mem buf
      have hheader : ((gotoFlag mem buf).value.2.retrieve kPackageHeaderSize).All Access.Safe := by
        rw [retrieve_safe, readableBytes_gotoFlag]
        omega
      rw [decodePass_complete b mem buf h hinc, Traced.all_after, List.forall_mem_append]
      have hlog : ((∀ e ∈ (gotoFlag mem buf).log, e.Safe) ∧
          ∀ e ∈ ((gotoFlag mem buf).value.2.retrieve kPackageHeaderSize).log, e.Safe) :=
        ⟨hscan, hheader⟩
      rw [and_iff_right hlog, forall_prop_of_true hframe]
      change _ ↔ (badPacSize (frontHeader buf.readable) ||
        badTypeNameLen (frontHeader buf.readable)) = true ∨ _
      by_cases hbad : (badPacSize (frontHeader buf.readable) ||
          badTypeNameLen (frontHeader buf.readable)) = true
      · rw [if_pos hbad]
        exact iff_of_true (Traced.all_pure _ _) (Or.inl hbad)
      · rw [if_neg hbad, or_iff_right hbad, ← hnamed]
        rw [Bool.not_eq_true, Bool.or_eq_false_iff] at hbad
        apply decodeNamed_safe b mem _ _ hbad.2
        rw [← Buffer.readable_length, hnamed]
        exact hframe.pacSize_le
  · have hlog := (decodePass_noFlag b mem buf (Nat.le_of_not_lt h)).2
    unfold Traced.All at hscan ⊢
    rw [hlog]
    exact iff_of_true hscan fun hframe => absurd hframe.1 h

/-- Where the lengths agree, decode calls itself exactly behind the frames that `skip` skips. -/
theorem decodePass_skip (b : Build M) (mem : Memory) (buf : Buffer)
    (hframe : FrontFrame (seek buf.readable)) (hfits : b.LengthsFit (seek buf.readable)) :
    (∃ rest, (b.decodePass mem buf).value = .again rest ∧
      b.skip (seek buf.readable) = some rest.readable) ∨
    (∃ result rest, (b.decodePass mem buf).value = .done result rest ∧
      b.skip (seek buf.readable) = none) := by
  have hnamed := readable_header mem buf
  rw [decodePass_complete b mem buf hframe.1 hframe.2, Traced.after_value, frontHeader]
  simp only [skip]
  by_cases hbad : (badPacSize (PacHeader.ofWire (seek buf.readable)) ||
      badTypeNameLen (PacHeader.ofWire (seek buf.readable))) = true
  · rw [if_pos hbad, if_pos hbad]
    exact Or.inl ⟨_, rfl, by rw [hnamed]⟩
  · have hname := (hfits.resolve_left hbad).name_le hframe.pacSize_le
    rw [← hnamed, Buffer.readable_length] at hname
    rw [if_neg hbad, if_neg hbad, decodeNamed_eq, Traced.after_value,
      Buffer.peekBytes_eq mem _ _ hname, ← hnamed]
    by_cases hpass : b.passesThrough (((gotoFlag mem buf).value.2.retrieve
        kPackageHeaderSize).value.readable.take
          (PacHeader.ofWire (seek buf.readable)).typeNameLen.toNat) = true
    · rw [if_pos hpass, if_pos hpass]
      obtain ⟨result, rest, hdone, _⟩ := decodeOpaque_done (M := M) _ _ _
      exact Or.inr ⟨result, rest, hdone, rfl⟩
    · rw [if_neg hpass, if_neg hpass]
      cases b.createMessage _ with
      | none => exact Or.inl ⟨_, rfl, by simp⟩
      | some proto =>
        obtain ⟨result, rest, hdone, _⟩ := decodeMessage_done b mem _ _ proto _
        exact Or.inr ⟨result, rest, hdone, by simp⟩

theorem frontFrame_of_again (b : Build M) (mem : Memory) (buf : Buffer) {rest : Buffer}
    (hagain : (b.decodePass mem buf).value = .again rest) : FrontFrame (seek buf.readable) := by
  by_contra hframe
  simp [decodePass_wait b mem buf hframe] at hagain

/-- decode touches only what is there, and makes no size of a negative number, exactly when the
lengths of every complete frame that its scan comes to agree. -/
theorem decode_safe_iff (b : Build M) (mem : Memory) (buf : Buffer) :
    (b.decode mem buf).All Access.Safe ↔
      ∀ f, b.Reaches buf.readable f → FrontFrame f → b.LengthsFit f := by
  induction buf using decode.induct b mem with
  | case1 buf result rest hdone =>
    have hlog : (b.decode mem buf).All Access.Safe ↔ (b.decodePass mem buf).All Access.Safe := by
      rw [decode_of_done b mem buf rest result hdone, Traced.All, Traced.All]
    rw [hlog, decodePass_safe]
    constructor
    · intro hfits f hreach
      cases hreach with
      | here => exact hfits
      | behind hframe hskip hrest =>
        rcases decodePass_skip b mem buf hframe (hfits hframe) with
          ⟨_, hagain, _⟩ | ⟨_, _, _, hnone⟩
        · simp [hdone] at hagain
        · simp [hnone] at hskip
    · exact fun h => h _ (.here _)
  | case2 buf rest hagain ih =>
    rw [decode_of_again b mem buf rest hagain, Traced.all_after]
    change (b.decodePass mem buf).All Access.Safe ∧ _ ↔ _
    rw [decodePass_safe, ih]
    have hnext : FrontFrame (seek buf.readable) → b.LengthsFit (seek buf.readable) →
        b.skip (seek buf.readable) = some rest.readable := by
      intro hframe hfits
      rcases decodePass_skip b mem buf hframe hfits with ⟨rest', hagain', hskip⟩ | ⟨_, _, hdone, _⟩
      · rw [hagain, Pass.again.injEq] at hagain'
        rw [hskip, hagain']
      · simp [hagain] at hdone
    have hframe := frontFrame_of_again b mem buf hagain
    constructor
    · rintro ⟨hfits, hrest⟩ f hreach
      cases hreach with
      | here => exact hfits
      | behind _ hskip hreach =>
        rw [hnext hframe (hfits hframe), Option.some.injEq] at hskip
        exact hrest f (hskip ▸ hreach)
    · intro h
      have hfits := h _ (.here _)
      exact ⟨hfits, fun f hreach => h f (.behind hframe (hnext hframe (hfits hframe)) hreach)⟩

/-- The flag pair, a type name of two bytes, pacSize zero, and a single byte behind the header. -/
def shortName : Bytes :=
  (PacHeader.toWire { msgType := MsgType.REQREP.code, typeNameLen := 2 }) ++ [0x41]

theorem decode_not_safe :
    ¬ ∀ (b : Build PingPong) (mem : Memory) (buf : Buffer),
      (b.decode mem buf).All Access.Safe := by
  intro h
  have hpass := h (PingPong.build false) PingPong.memory (Buffer.empty.append shortName)
    (.retrieveAsString 2 1) (by decide +kernel)
  simp [Access.Safe] at hpass

end Build

end AsioMsg
