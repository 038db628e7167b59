import AsioMsg.DecodeSafety
import AsioMsg.FrameOutcome

/-!
Reading a stream as a whole. `readFront` tells what the complete frame in front
of a stream should give, from its own bytes alone; one activation of decode
does just that when the lengths of the frame agree with each other. `Carried`
relates a whole stream, well-formed or not, to the packages in it.
-/

namespace AsioMsg

variable {M : Type}

namespace Build

/-- What reading does with the complete frame in front of a stream, and where it goes on. -/
inductive FrontRead (M : Type)
  | skip (rest : Bytes)
  | deliver (pac : Package M) (rest : Bytes)
  | reject (rest : Bytes)
  | throw

/-- A body that was parsed, one that was not and stays where it is, and one that throws. -/
def FrontRead.ofOutcome (rest body : Bytes) : Decoded M → FrontRead M
  | .package pac => .deliver pac rest
  | .null => .reject body
  | .lengthError => .throw

/-- The body of the frame in front. -/
def frontBody (f : Bytes) : Bytes :=
  ((f.take (PacHeader.ofWire f).pacSize.toInt.toNat).drop kPackageHeaderSize).drop
    (PacHeader.ofWire f).typeNameLen.toNat

/-- What follows the type name of the frame in front. -/
def behindName (f : Bytes) : Bytes :=
  (f.drop kPackageHeaderSize).drop (PacHeader.ofWire f).typeNameLen.toNat

def badSizes (header : PacHeader) : Bool := badPacSize header || badTypeNameLen header

def readFront (b : Build M) (f : Bytes) : FrontRead M :=
  let header := PacHeader.ofWire f
  let rest := f.drop header.pacSize.toInt.toNat
  if badSizes header then .skip (f.drop kPackageHeaderSize)
  else if b.passesThrough (frameName f) then
    .deliver { header := header, typeName := frameName f, body := frontBody f } rest
  else
    match b.createMessage (frameName f) with
    | none => .skip (behindName f)
    | some proto => .ofOutcome rest (behindName f)
        (b.bodyOutcome header (frameName f) proto fun n => (frontBody f).take n)

/-- The sizes are out of range and the frame is skipped, or the type name lies inside the frame
and so does what is parsed of a message of a known type. -/
def LengthsAgree (b : Build M) (f : Bytes) : Prop :=
  badSizes (PacHeader.ofWire f) = true ∨
    (kPackageHeaderSize + (PacHeader.ofWire f).typeNameLen.toInt ≤
        (PacHeader.ofWire f).pacSize.toInt ∧
      (b.passesThrough (frameName f) = false → (b.createMessage (frameName f)).isSome →
        BodyFits (PacHeader.ofWire f)))

namespace FrontRead

/-- The same with more bytes behind. -/
def append (later : Bytes) : FrontRead M → FrontRead M
  | .skip rest => .skip (rest ++ later)
  | .deliver pac rest => .deliver pac (rest ++ later)
  | .reject rest => .reject (rest ++ later)
  | .throw => .throw

/-- An activation of decode that does what the reading says. -/
inductive Realized : FrontRead M → Pass M → Prop
  | skip (left : Buffer) : Realized (.skip left.readable) (.again left)
  | deliver (pac : Package M) (left : Buffer) :
      Realized (.deliver pac left.readable) (.done (.package pac) left)
  | reject (left : Buffer) : Realized (.reject left.readable) (.done .null left)
  | throw (left : Buffer) : Realized .throw (.done .lengthError left)

end FrontRead

/-- The bytes of a complete frame in front, by themselves, when its type name fits. -/
theorem FrontFrame.singleFrame {g rest : Bytes} (hflag : startsWithFlag (g ++ rest) = true)
    (hlen : ((PacHeader.ofWire (g ++ rest)).pacSize.toInt) = g.length)
    (hlong : kPackageHeaderSize ≤ g.length)
    (hsizes : badSizes (PacHeader.ofWire (g ++ rest)) = false)
    (hname : kPackageHeaderSize + (PacHeader.ofWire (g ++ rest)).typeNameLen.toInt ≤
      (PacHeader.ofWire (g ++ rest)).pacSize.toInt) : SingleFrame g := by
  have hheader : PacHeader.ofWire (g ++ rest) = PacHeader.ofWire g :=
    PacHeader.ofWire_append g rest hlong
  rw [hheader] at hlen hsizes hname
  simp only [badSizes, badPacSize, badTypeNameLen, Bool.or_eq_false_iff,
    decide_eq_false_iff_not] at hsizes
  have htwo : 2 ≤ g.length := by
    unfold kPackageHeaderSize at hlong
    omega
  exact {
    flag := by rwa [startsWithFlag_append g rest htwo] at hflag
    pacSize_eq := hlen
    pacSize_le := by omega
    name_pos := by omega
    name_le := by omega
    name_fits := hname }

/-- A complete frame in front whose type name fits is a wire frame. -/
theorem FrontFrame.wire {f : Bytes} (hframe : FrontFrame f) (hflag : startsWithFlag f = true)
    (hsizes : badSizes (PacHeader.ofWire f) = false)
    (hname : kPackageHeaderSize + (PacHeader.ofWire f).typeNameLen.toInt ≤
      (PacHeader.ofWire f).pacSize.toInt) :
    ∃ (g : WireFrame) (rest : Bytes), f = g.bytes ++ rest := by
  have hle := hframe.pacSize_le
  have hlong := hframe.1
  rw [List.length_drop] at hle
  have hpos : 1 ≤ (PacHeader.ofWire f).typeNameLen.toInt := by
    simp only [badSizes, badTypeNameLen, Bool.or_eq_false_iff, decide_eq_false_iff_not] at hsizes
    omega
  obtain ⟨g, rest, rfl, hlen⟩ : ∃ g rest, f = g ++ rest ∧
      g.length = (PacHeader.ofWire f).pacSize.toInt.toNat :=
    ⟨f.take (PacHeader.ofWire f).pacSize.toInt.toNat, f.drop _, (List.take_append_drop _ f).symm,
      by rw [List.length_take]; omega⟩
  have hsingle : SingleFrame g :=
    FrontFrame.singleFrame hflag (by omega) (by omega) hsizes hname
  exact ⟨hsingle.wire, rest, by rw [hsingle.wire_bytes]⟩

section Front

variable (b : Build M) (g : WireFrame) (rest : Bytes)

theorem frontBody_bytes : frontBody (g.bytes ++ rest) = g.body := by
  have hsize : g.header.pacSize.toInt.toNat = g.bytes.length := by
    rw [g.pacSize_eq, WireFrame.bytes_length]
    omega
  rw [frontBody, g.ofWire_bytes, hsize, List.take_left, ← List.append_nil g.bytes,
    g.drop_header, g.toNat_typeNameLen, List.drop_left, List.append_nil]

/-- Past the size checks the type name of the frame decides. -/
theorem readFront_bytes :
    b.readFront (g.bytes ++ rest) =
      if b.passesThrough g.typeName then .deliver g.passedPackage rest
      else ((b.createMessage g.typeName).map fun proto =>
        FrontRead.ofOutcome rest (g.body ++ rest) (g.outcome b proto)).getD
          (.skip (g.body ++ rest)) := by
  have hsize : g.header.pacSize.toInt.toNat = g.bytes.length := by
    rw [g.pacSize_eq, WireFrame.bytes_length]
    omega
  have hsizes : badSizes g.header = false := by
    rw [badSizes, g.badPacSize_eq, g.badTypeNameLen_eq, Bool.or_false]
  simp only [readFront, behindName, g.ofWire_bytes, hsizes, Bool.false_eq_true, if_false,
    g.frameName_bytes, frontBody_bytes, g.drop_header, hsize, List.drop_left, g.toNat_typeNameLen,
    WireFrame.passedPackage, WireFrame.outcome]
  cases b.createMessage g.typeName <;> rfl

variable {b g}

theorem readFront_passed (hthrough : b.passesThrough g.typeName = true) :
    b.readFront (g.bytes ++ rest) = .deliver g.passedPackage rest := by
  rw [readFront_bytes, if_pos hthrough]

theorem readFront_unknown (hthrough : b.passesThrough g.typeName = false)
    (hunknown : b.createMessage g.typeName = none) :
    b.readFront (g.bytes ++ rest) = .skip (g.body ++ rest) := by
  rw [readFront_bytes, if_neg (by rw [hthrough]; exact Bool.false_ne_true), hunknown]
  rfl

theorem readFront_known (hthrough : b.passesThrough g.typeName = false) {proto : M}
    (hproto : b.createMessage g.typeName = some proto) :
    b.readFront (g.bytes ++ rest) = .ofOutcome rest (g.body ++ rest) (g.outcome b proto) := by
  rw [readFront_bytes, if_neg (by rw [hthrough]; exact Bool.false_ne_true), hproto]
  rfl

end Front

/-- Either the frame is skipped for its sizes, or it is a wire frame with a body that fits. -/
theorem LengthsAgree.cases {b : Build M} {f : Bytes} (hagree : b.LengthsAgree f)
    (hframe : FrontFrame f) (hflag : startsWithFlag f = true) :
    badSizes (PacHeader.ofWire f) = true ∨
      ∃ (g : WireFrame) (rest : Bytes), f = g.bytes ++ rest ∧
        (b.passesThrough g.typeName = false → (b.createMessage g.typeName).isSome →
          BodyFits g.header) := by
  cases hsizes : badSizes (PacHeader.ofWire f) with
  | true => exact Or.inl rfl
  | false =>
    obtain ⟨hname, hfits⟩ := hagree.resolve_left (by rw [hsizes]; exact Bool.false_ne_true)
    obtain ⟨g, rest, rfl⟩ := hframe.wire hflag hsizes hname
    rw [g.frameName_bytes, g.ofWire_bytes] at hfits
    exact Or.inr ⟨g, rest, rfl, hfits⟩

theorem readFront_badSizes (b : Build M) {f : Bytes}
    (hsizes : badSizes (PacHeader.ofWire f) = true) :
    b.readFront f = .skip (f.drop kPackageHeaderSize) :=
  if_pos hsizes

theorem FrontFrame.append {f : Bytes} (hframe : FrontFrame f) (later : Bytes) :
    FrontFrame (f ++ later) := by
  obtain ⟨hlong, hcomp⟩ := hframe
  rw [FrontFrame, PacHeader.ofWire_append f later (Nat.le_of_lt hlong), List.length_append]
  omega

theorem LengthsAgree.of_append {b : Build M} {f later : Bytes} (hframe : FrontFrame f)
    (hagree : b.LengthsAgree (f ++ later)) : b.LengthsAgree f := by
  have hle := hframe.pacSize_le
  have hlong := hframe.1
  rw [List.length_drop] at hle
  rw [LengthsAgree, PacHeader.ofWire_append f later (Nat.le_of_lt hlong)] at hagree
  cases hsizes : badSizes (PacHeader.ofWire f) with
  | true => exact Or.inl hsizes
  | false =>
    obtain ⟨hname, hfits⟩ := hagree.resolve_left (by rw [hsizes]; exact Bool.false_ne_true)
    simp only [badSizes, badTypeNameLen, Bool.or_eq_false_iff, decide_eq_false_iff_not] at hsizes
    have hnat := toNat_of_toInt_pos (PacHeader.ofWire f).typeNameLen (by omega)
    have hsame : frameName (f ++ later) = frameName f := by
      rw [frameName, PacHeader.ofWire_append f later (Nat.le_of_lt hlong), frameName,
        List.drop_append_of_le_length (by omega),
        List.take_append_of_le_length (by rw [List.length_drop]; omega)]
    rw [hsame] at hfits
    exact Or.inr ⟨hname, hfits⟩

/-- What follows a complete frame does not change its reading. -/
theorem readFront_append {b : Build M} {f : Bytes} (hframe : FrontFrame f)
    (hflag : startsWithFlag f = true) (hagree : b.LengthsAgree f) (later : Bytes) :
    b.readFront (f ++ later) = (b.readFront f).append later := by
  have hlong := hframe.1
  rcases hagree.cases hframe hflag with hsizes | ⟨g, rest, rfl, _⟩
  · have hsame := PacHeader.ofWire_append f later (Nat.le_of_lt hlong)
    rw [readFront_badSizes b hsizes, readFront_badSizes b (by rw [hsame, hsizes]),
      List.drop_append_of_le_length (Nat.le_of_lt hlong), FrontRead.append]
  · rw [List.append_assoc]
    cases hthrough : b.passesThrough g.typeName with
    | true => rw [readFront_passed _ hthrough, readFront_passed _ hthrough, FrontRead.append]
    | false =>
      cases hproto : b.createMessage g.typeName with
      | none =>
        rw [readFront_unknown _ hthrough hproto, readFront_unknown _ hthrough hproto,
          FrontRead.append, List.append_assoc]
      | some proto =>
        rw [readFront_known _ hthrough hproto, readFront_known _ hthrough hproto]
        cases g.outcome b proto with
        | package pac => rfl
        | null => simp only [FrontRead.ofOutcome, FrontRead.append, List.append_assoc]
        | lengthError => rfl

/-- One activation of decode does what the reading says. -/
theorem decodePass_readFront (b : Build M) (mem : Memory) (buf : Buffer)
    (hframe : FrontFrame (seek buf.readable)) (hagree : b.LengthsAgree (seek buf.readable)) :
    (b.readFront (seek buf.readable)).Realized (b.decodePass mem buf).value := by
  have hflag := startsWithFlag_seek buf.readable hframe.1
  rcases hagree.cases hframe hflag with hsizes | ⟨g, rest, hsplit, hfits⟩
  · rw [readFront_badSizes b hsizes, decodePass_complete b mem buf hframe.1 hframe.2,
      Traced.after_value, frontHeader]
    rw [badSizes] at hsizes
    rw [if_pos hsizes, Traced.pure_value, ← readable_header mem buf]
    exact .skip _
  · cases hthrough : b.passesThrough g.typeName with
    | true =>
      obtain ⟨left, hvalue, hleft⟩ := g.decodePass_passed b mem rest buf hsplit hthrough
      rw [hsplit, readFront_passed _ hthrough, hvalue, ← hleft]
      exact .deliver _ _
    | false =>
      cases hproto : b.createMessage g.typeName with
      | none =>
        obtain ⟨left, hvalue, hleft⟩ :=
          g.decodePass_unknown b mem rest buf hsplit hthrough hproto
        rw [hsplit, readFront_unknown _ hthrough hproto, hvalue, ← hleft]
        exact .skip _
      | some proto =>
        obtain ⟨left, hvalue, hleft⟩ := g.decodePass_outcome b mem rest buf hsplit hthrough proto
          hproto (hfits hthrough (by rw [hproto]; rfl))
        rw [hsplit, readFront_known _ hthrough hproto, hvalue]
        cases hout : g.outcome b proto with
        | package pac =>
          rw [hout, Decoded.isPackage, if_pos rfl] at hleft
          rw [← hleft]
          exact .deliver _ _
        | null =>
          simp only [hout, Decoded.isPackage, Bool.false_eq_true, if_false] at hleft
          rw [← hleft]
          exact .reject _
        | lengthError => exact .throw _

/-- The packages that a stream carries by the reading. Behind a rejected frame there are none. -/
inductive Carried (b : Build M) : List (Package M) → Bytes → Prop
  | wait {bs : Bytes} : ¬ FrontFrame (seek bs) → Carried b [] bs
  | skip {bs rest : Bytes} {packages : List (Package M)} : FrontFrame (seek bs) →
      b.LengthsAgree (seek bs) → b.readFront (seek bs) = .skip rest →
      Carried b packages rest → Carried b packages bs
  | deliver {bs rest : Bytes} {pac : Package M} {packages : List (Package M)} :
      FrontFrame (seek bs) → b.LengthsAgree (seek bs) → b.readFront (seek bs) = .deliver pac rest →
      Carried b packages rest → Carried b (pac :: packages) bs
  | reject {bs rest : Bytes} : FrontFrame (seek bs) → b.LengthsAgree (seek bs) →
      b.readFront (seek bs) = .reject rest → Carried b [] rest → Carried b [] bs
  | throw {bs : Bytes} : FrontFrame (seek bs) → b.LengthsAgree (seek bs) →
      b.readFront (seek bs) = .throw → Carried b [] bs

namespace Carried

variable {b : Build M} {packages : List (Package M)} {bs : Bytes}

/-- Only what the flag search keeps matters. -/
theorem of_seek (h : Carried b packages bs) {bs' : Bytes} (hseek : seek bs' = seek bs) :
    Carried b packages bs' := by
  cases h with
  | wait hframe => exact .wait (by rwa [hseek])
  | skip hframe hagree hread hrest =>
    exact .skip (by rwa [hseek]) (by rwa [hseek]) (by rwa [hseek]) hrest
  | deliver hframe hagree hread hrest =>
    exact .deliver (by rwa [hseek]) (by rwa [hseek]) (by rwa [hseek]) hrest
  | reject hframe hagree hread hrest =>
    exact .reject (by rwa [hseek]) (by rwa [hseek]) (by rwa [hseek]) hrest
  | throw hframe hagree hread =>
    exact .throw (by rwa [hseek]) (by rwa [hseek]) (by rwa [hseek])

theorem eq_nil_of_wait (h : Carried b packages bs) (hframe : ¬ FrontFrame (seek bs)) :
    packages = [] := by
  cases h with
  | wait _ => rfl
  | skip hfront => exact absurd hfront hframe
  | deliver hfront => exact absurd hfront hframe
  | reject hfront => exact absurd hfront hframe
  | throw hfront => exact absurd hfront hframe

/-- With a complete frame in the part that has arrived, the stream goes on as the reading of that
part tells. -/
theorem front (h : Carried b packages bs) {part later : Bytes} (hbs : seek bs = part ++ later)
    (hframe : FrontFrame part) (hflag : startsWithFlag part = true) :
    b.LengthsAgree part ∧
      ((∃ rest, b.readFront part = .skip rest ∧ Carried b packages (rest ++ later)) ∨
        (∃ pac rest others, b.readFront part = .deliver pac rest ∧ packages = pac :: others ∧
          Carried b others (rest ++ later)) ∨
        (∃ rest, b.readFront part = .reject rest ∧ packages = [] ∧
          Carried b [] (rest ++ later)) ∨
        (b.readFront part = .throw ∧ packages = [])) := by
  have hwhole := hframe.append later
  cases h with
  | wait hno =>
    rw [hbs] at hno
    exact absurd hwhole hno
  | skip _ hagree hread hrest =>
    rw [hbs] at hagree hread
    have hpart := hagree.of_append hframe
    rw [readFront_append hframe hflag hpart] at hread
    refine ⟨hpart, Or.inl ?_⟩
    cases hfront : b.readFront part with
    | skip rest =>
      rw [hfront, FrontRead.append, FrontRead.skip.injEq] at hread
      exact ⟨rest, rfl, by rwa [hread]⟩
    | deliver | reject | throw => simp [hfront, FrontRead.append] at hread
  | @deliver _ _ pac others _ hagree hread hrest =>
    rw [hbs] at hagree hread
    have hpart := hagree.of_append hframe
    rw [readFront_append hframe hflag hpart] at hread
    refine ⟨hpart, Or.inr (Or.inl ?_)⟩
    cases hfront : b.readFront part with
    | deliver other rest =>
      rw [hfront, FrontRead.append, FrontRead.deliver.injEq] at hread
      exact ⟨other, rest, others, rfl, by rw [hread.1], by rwa [hread.2]⟩
    | skip | reject | throw => simp [hfront, FrontRead.append] at hread
  | reject _ hagree hread hrest =>
    rw [hbs] at hagree hread
    have hpart := hagree.of_append hframe
    rw [readFront_append hframe hflag hpart] at hread
    refine ⟨hpart, Or.inr (Or.inr (Or.inl ?_))⟩
    cases hfront : b.readFront part with
    | reject rest =>
      rw [hfront, FrontRead.append, FrontRead.reject.injEq] at hread
      exact ⟨rest, rfl, rfl, by rwa [hread]⟩
    | skip | deliver | throw => simp [hfront, FrontRead.append] at hread
  | throw _ hagree hread =>
    rw [hbs] at hagree hread
    have hpart := hagree.of_append hframe
    rw [readFront_append hframe hflag hpart] at hread
    refine ⟨hpart, Or.inr (Or.inr (Or.inr ?_))⟩
    cases hfront : b.readFront part with
    | throw => exact ⟨rfl, rfl⟩
    | skip | deliver | reject => simp [hfront, FrontRead.append] at hread

/-- With a frame in the part of a stream that has arrived, the flag search finds it there. -/
theorem seek_append_of_frontFrame {part : Bytes} (hframe : FrontFrame (seek part))
    (later : Bytes) : seek (part ++ later) = seek part ++ later := by
  have htwo : 2 ≤ (seek part).length := by
    have hlong := hframe.1
    unfold kPackageHeaderSize at hlong
    omega
  rw [← seek_append, seek_of_flag _ (by
    rw [startsWithFlag_append _ _ htwo, startsWithFlag_seek part hframe.1])]

/-- What a first part of a stream carries, the stream carries in front. -/
theorem initial {part later : Bytes} {others : List (Package M)} (hpart : Carried b others part)
    (h : Carried b packages (part ++ later)) : others <+: packages := by
  induction hpart generalizing packages with
  | wait _ => exact List.nil_prefix
  | @skip bs rest others hframe _ hread _ ih =>
    have hflag := startsWithFlag_seek bs hframe.1
    rcases (h.front (seek_append_of_frontFrame hframe later) hframe hflag).2 with
      ⟨rest', hread', hrest⟩ | ⟨pac, rest', _, hread', _⟩ | ⟨rest', hread', _⟩ | ⟨hread', _⟩
    · rw [hread, FrontRead.skip.injEq] at hread'
      exact ih (hread' ▸ hrest)
    · simp [hread] at hread'
    · simp [hread] at hread'
    · simp [hread] at hread'
  | @deliver bs rest pac others hframe _ hread _ ih =>
    have hflag := startsWithFlag_seek bs hframe.1
    rcases (h.front (seek_append_of_frontFrame hframe later) hframe hflag).2 with
      ⟨rest', hread', _⟩ | ⟨pac', rest', later', hread', rfl, hrest⟩ | ⟨rest', hread', _⟩ |
      ⟨hread', _⟩
    · simp [hread] at hread'
    · rw [hread, FrontRead.deliver.injEq] at hread'
      obtain ⟨rfl, rfl⟩ := hread'
      exact List.prefix_cons_inj _ |>.mpr (ih hrest)
    · simp [hread] at hread'
    · simp [hread] at hread'
  | reject _ _ _ _ => exact List.nil_prefix
  | throw _ _ _ => exact List.nil_prefix

end Carried

end Build

end AsioMsg
