import AsioMsg.RoundTrip
import AsioMsg.Lib.Reassembly

/-!
The read loop of Session::doRead and AsioClient::doRead on streams of frames.
A stream carries packages when it is made of frames that decode delivers, with
garbage around them that holds no flag pair, and a tail that completes no
frame. Whatever part of such a stream is in the buffer, decode takes the next
package or waits without losing a byte of a frame.
-/

namespace AsioMsg

variable {M : Type}

namespace Build

/-- decode as the source of a read loop; a thrown std::length_error ends it. -/
def reader (b : Build M) (mem : Memory) : Reader Buffer (Package M) Byte where
  content := Buffer.readable
  append := Buffer.append
  next buf :=
    match (b.decode mem buf).value with
    | (.package package, rest) => .item package rest
    | (.null, rest) => .wait rest
    | (.lengthError, rest) => .fail rest
  content_append := Buffer.readable_append
  next_lt := by
    intro buf package rest h
    have hlt := decode_consumes b mem buf
    split at h
    · next heq =>
      rw [Next.item.injEq] at h
      rw [heq] at hlt
      have hle := hlt (by simp)
      rw [h.2] at hle
      simp only [Buffer.readable_length, kPackageHeaderSize] at hle ⊢
      omega
    · simp at h
    · simp at h

/-- What one read completion does with the bytes it got: append them and decode in a loop. -/
def doRead (b : Build M) (mem : Memory) (readBuffer : Buffer) (chunk : Bytes) :
    Delivery Buffer (Package M) :=
  (b.reader mem).drain (readBuffer.append chunk)

end Build

/-- No '`' with a '~' right behind it. -/
def NoFlagPair (garbage : Bytes) : Prop := ¬ [flag0, flag1] <:+: garbage

instance : DecidablePred NoFlagPair := fun garbage =>
  inferInstanceAs (Decidable (¬ [flag0, flag1] <:+: garbage))

theorem NoFlagPair.tail {x : Byte} {rest : Bytes} (h : NoFlagPair (x :: rest)) :
    NoFlagPair rest :=
  fun hin => h (hin.trans (List.suffix_cons x rest).isInfix)

theorem NoFlagPair.nil : NoFlagPair [] := by simp [NoFlagPair]

/-- A last byte other than '~' completes no flag pair. -/
theorem NoFlagPair.concat {garbage : Bytes} {x : Byte} (h : NoFlagPair garbage) (hx : x ≠ flag1) :
    NoFlagPair (garbage ++ [x]) := by
  intro hin
  rcases List.infix_concat_iff.mp hin with hsuffix | hin
  · obtain ⟨before, hbefore⟩ := hsuffix
    have hlast := congrArg List.getLast? hbefore
    simp only [List.getLast?_append, List.getLast?_cons_cons, List.getLast?_singleton,
      Option.some_or, Option.some.injEq] at hlast
    exact hx hlast.symm
  · exact h hin

theorem startsWithFlag_iff (bs : Bytes) :
    startsWithFlag bs = true ↔ ∃ rest, bs = flag0 :: flag1 :: rest := by
  rcases bs with _ | ⟨x, _ | ⟨y, rest⟩⟩
  · simp [startsWithFlag, flag0]
  · simp [startsWithFlag, flag1]
  · simp [startsWithFlag]

/-- A flag pair across garbage and bytes that do not start with '~' is that of the bytes. -/
theorem NoFlagPair.eq_nil {garbage rest : Bytes} (h : NoFlagPair garbage)
    (hrest : ∀ x ∈ rest.head?, x = flag0) (hflag : startsWithFlag (garbage ++ rest) = true) :
    garbage = [] := by
  obtain ⟨after, hafter⟩ := (startsWithFlag_iff _).mp hflag
  rcases garbage with _ | ⟨x, _ | ⟨y, garbage⟩⟩
  · rfl
  · simp only [List.singleton_append, List.cons.injEq] at hafter
    have hfirst := hrest flag1 (by rw [hafter.2, List.head?_cons, Option.mem_some_iff])
    simp [flag0, flag1] at hfirst
  · simp only [List.cons_append, List.cons.injEq] at hafter
    obtain ⟨rfl, rfl, _⟩ := hafter
    exact absurd ⟨[], garbage, rfl⟩ h

/-- The first byte of a frame is '`'. -/
theorem WireFrame.head_bytes (f : WireFrame) (rest part missing : Bytes)
    (hsplit : f.bytes ++ rest = part ++ missing) : ∀ x ∈ part.head?, x = flag0 := by
  obtain ⟨body, hbody⟩ := (startsWithFlag_iff _).mp (f.startsWithFlag_bytes rest)
  intro x hx
  obtain ⟨later, rfl⟩ := List.head?_eq_some_iff.mp hx
  rw [hbody, List.cons_append, List.cons.injEq] at hsplit
  exact hsplit.1.symm

/-- The tails a stream may have: the flag search drops bytes of it without leaving the kind, and
what has the flag in front is a proper part of a frame. -/
structure IsTail (T : Bytes → Prop) : Prop where
  tail : ∀ x rest, T (x :: rest) → startsWithFlag (x :: rest) = false → T rest
  front : ∀ bs, T bs → startsWithFlag bs = true →
    ∃ (f : WireFrame) (missing : Bytes), f.bytes = bs ++ missing ∧ missing ≠ []

theorem NoFlagPair.isTail : IsTail NoFlagPair where
  tail _ _ h _ := h.tail
  front bs h hflag := by
    obtain ⟨rest, rfl⟩ := (startsWithFlag_iff bs).mp hflag
    exact absurd ⟨[], rest, rfl⟩ h

/-- A stream that breaks off before the end of a frame. -/
def CutOff (bs : Bytes) : Prop :=
  ∃ (garbage part missing : Bytes) (f : WireFrame), NoFlagPair garbage ∧
    f.bytes = part ++ missing ∧ missing ≠ [] ∧ bs = garbage ++ part

theorem CutOff.isTail : IsTail CutOff where
  tail x rest := by
    rintro ⟨garbage, part, missing, f, hclean, hsplit, hmissing, hbs⟩ hflag
    cases garbage with
    | nil =>
      -- the flag of the frame is cut in two
      rw [List.nil_append] at hbs
      have hshort : part.length < 2 := by
        by_contra hlong
        have hframe := f.startsWithFlag_bytes []
        rw [List.append_nil, hsplit, startsWithFlag_append _ _ (Nat.le_of_not_lt hlong), ← hbs,
          hflag] at hframe
        simp at hframe
      have hrest : rest = [] := by
        rw [← hbs, List.length_cons] at hshort
        exact List.length_eq_zero_iff.mp (by omega)
      exact ⟨[], [], f.bytes, f, NoFlagPair.nil, rfl,
        fun hnil => by simpa [hnil, kPackageHeaderSize] using f.bytes_long, hrest⟩
    | cons y garbage =>
      rw [List.cons_append, List.cons.injEq] at hbs
      exact ⟨garbage, part, missing, f, hclean.tail, hsplit, hmissing, hbs.2⟩
  front bs := by
    rintro ⟨garbage, part, missing, f, hclean, hsplit, hmissing, rfl⟩ hflag
    have hnil := hclean.eq_nil (f.head_bytes [] part missing (by rwa [List.append_nil])) hflag
    subst hnil
    exact ⟨f, missing, hsplit, hmissing⟩

namespace Build

/-- decode delivers the package of the frame wherever its scan meets the frame. -/
def Delivers (b : Build M) (f : WireFrame) (package : Package M) : Prop :=
  ∀ (mem : Memory) (buf : Buffer) (rest : Bytes), seek buf.readable = f.bytes ++ rest →
    ∃ left, (b.decode mem buf).value = (.package package, left) ∧ left.readable = rest

/-- Bytes that carry exactly the packages, with a tail of the kind `T`. -/
inductive Stream (b : Build M) (T : Bytes → Prop) : List (Package M) → Bytes → Prop
  | done {tail : Bytes} : T tail → Stream b T [] tail
  | frame {garbage rest : Bytes} {f : WireFrame} {package : Package M}
      {packages : List (Package M)} : NoFlagPair garbage → b.Delivers f package →
      Stream b T packages rest → Stream b T (package :: packages) (garbage ++ f.bytes ++ rest)

namespace Stream

variable {b : Build M} {T : Bytes → Prop} {packages : List (Package M)} {bs : Bytes}

theorem tail_of_nil (h : Stream b T [] bs) : T bs := by
  cases h with
  | done htail => exact htail

/-- A stream with a package in it has more than 20 bytes. -/
theorem short (h : Stream b T packages bs) (hlen : bs.length ≤ kPackageHeaderSize) :
    packages = [] := by
  cases h with
  | done _ => rfl
  | @frame garbage rest f package packages _ _ _ =>
    have hlong := f.bytes_long
    simp only [List.length_append] at hlen
    omega

theorem eq_nil_of_noFlagPair (h : Stream b T packages bs) (hclean : NoFlagPair bs) :
    packages = [] := by
  cases h with
  | done _ => rfl
  | @frame garbage rest f package packages _ _ _ =>
    obtain ⟨body, hbody⟩ := (startsWithFlag_iff _).mp (f.startsWithFlag_bytes rest)
    refine absurd ⟨garbage, body, ?_⟩ hclean
    rw [List.append_assoc, List.append_assoc, hbody]
    rfl

/-- Without a flag pair in front the first byte is garbage. -/
theorem tail (hT : IsTail T) {x : Byte} {rest : Bytes} (h : Stream b T packages (x :: rest))
    (hflag : startsWithFlag (x :: rest) = false) : Stream b T packages rest := by
  generalize hbs : x :: rest = bs at h
  cases h with
  | done htail =>
    subst hbs
    exact .done (hT.tail x rest htail hflag)
  | @frame garbage later f package packages hclean hdel hlater =>
    cases garbage with
    | nil =>
      rw [hbs, List.nil_append, f.startsWithFlag_bytes] at hflag
      exact absurd hflag (by simp)
    | cons y garbage =>
      simp only [List.cons_append, List.cons.injEq] at hbs
      rw [hbs.2]
      exact .frame hclean.tail hdel hlater

/-- A flag pair in front starts the next frame, or the frame the stream breaks off in. -/
theorem front (hT : IsTail T) (h : Stream b T packages bs) (hflag : startsWithFlag bs = true) :
    (∃ f package later rest, packages = package :: later ∧ bs = f.bytes ++ rest ∧
      b.Delivers f package ∧ Stream b T later rest) ∨
    packages = [] ∧
      ∃ (f : WireFrame) (missing : Bytes), f.bytes = bs ++ missing ∧ missing ≠ [] := by
  cases h with
  | done htail => exact Or.inr ⟨rfl, hT.front bs htail hflag⟩
  | @frame garbage rest f package later hclean hdel hlater =>
    rw [List.append_assoc] at hflag
    have hnil := hclean.eq_nil (f.head_bytes rest _ [] (List.append_nil _).symm) hflag
    subst hnil
    exact Or.inl ⟨f, package, later, rest, rfl, rfl, hdel, hlater⟩

/-- The flag search in a part of the stream drops garbage only. -/
theorem seek_part (hT : IsTail T) (part later : Bytes) (h : Stream b T packages (part ++ later)) :
    Stream b T packages (seek part ++ later) := by
  induction part with
  | nil => exact h
  | cons x part ih =>
    by_cases hlong : kPackageHeaderSize < (x :: part).length
    · cases hflag : startsWithFlag (x :: part) with
      | true => rwa [seek_of_flag _ hflag]
      | false =>
        rw [seek_of_noFlag _ hlong hflag]
        refine ih (tail hT h ?_)
        unfold kPackageHeaderSize at hlong
        rw [← List.cons_append, startsWithFlag_append _ _ (by omega), hflag]
    · rwa [seek_of_short _ (by omega)]

/-- With a proper part of a frame in front there is no complete frame. -/
theorem of_incomplete (hT : IsTail T) (h : Stream b T packages bs)
    (hflag : startsWithFlag bs = true) (hinc : Incomplete bs) : packages = [] := by
  rcases h.front hT hflag with ⟨f, package, later, rest, _, rfl, _, _⟩ | ⟨hnil, _⟩
  · exact absurd hinc (f.not_incomplete rest)
  · exact hnil

end Stream

theorem incomplete_seek (bs : Bytes) : Incomplete (seek bs) ↔ Incomplete bs := by
  simp only [Incomplete, frontHeader, seek_seek]

/-- What decode does on a part of a stream: it waits with a part of the same stream that has no
complete frame, or it takes the next package. -/
theorem decode_stream (b : Build M) {T : Bytes → Prop} (hT : IsTail T) (mem : Memory)
    (buf : Buffer) (later : Bytes) (packages : List (Package M))
    (h : b.Stream T packages (buf.readable ++ later)) :
    (∃ left, (b.decode mem buf).value = (.null, left) ∧
      b.Stream T packages (left.readable ++ later) ∧
      ∀ others, b.Stream T others left.readable → others = []) ∨
    ∃ package rest left, (b.decode mem buf).value = (.package package, left) ∧
      packages = package :: rest ∧ b.Stream T rest (left.readable ++ later) := by
  have hpart := h.seek_part hT buf.readable later
  have hleft := (gotoFlag_value mem buf).1
  by_cases hlong : kPackageHeaderSize < (seek buf.readable).length
  · have hflag := startsWithFlag_seek buf.readable hlong
    by_cases hinc : Incomplete (seek buf.readable)
    · have hvalue := (decodePass_incomplete b mem buf hlong ((incomplete_seek _).mp hinc)).1
      refine Or.inl ⟨_, by rw [decode_of_done b mem buf _ _ hvalue], by rwa [hleft], ?_⟩
      intro others hothers
      rw [hleft] at hothers
      exact hothers.of_incomplete hT hflag hinc
    · have hfront := hpart.front hT (by
        rwa [startsWithFlag_append _ _ (by unfold kPackageHeaderSize at hlong; omega)])
      rcases hfront with ⟨f, package, rest, behind, rfl, hsplit, hdel, hrest⟩ |
        ⟨_, f, missing, hsplit, hmissing⟩
      · have hframe : ∃ more, seek buf.readable = f.bytes ++ more ∧ behind = more ++ later := by
          rcases List.append_eq_append_iff.mp hsplit with ⟨missing, hmissing, heq⟩ | hmore
          · by_cases hnil : missing = []
            · subst hnil
              rw [List.append_nil] at hmissing
              exact ⟨[], by rw [hmissing, List.append_nil], heq.symm⟩
            · exact absurd (f.incomplete_part _ missing hmissing hlong hnil).2 hinc
          · exact hmore
        obtain ⟨more, hmore, rfl⟩ := hframe
        obtain ⟨left, hvalue, hmoreLeft⟩ := hdel mem buf more hmore
        exact Or.inr ⟨package, rest, left, hvalue, rfl, by rwa [hmoreLeft]⟩
      · rw [List.append_assoc] at hsplit
        exact absurd (f.incomplete_part _ _ hsplit hlong (by simp [hmissing])).2 hinc
  · have hvalue := (decodePass_noFlag b mem buf (Nat.le_of_not_lt hlong)).1
    refine Or.inl ⟨_, by rw [decode_of_done b mem buf _ _ hvalue], by rwa [hleft], ?_⟩
    intro others hothers
    rw [hleft] at hothers
    exact hothers.short (Nat.le_of_not_lt hlong)

theorem reader_next (b : Build M) (mem : Memory) (buf : Buffer) :
    (b.reader mem).next buf =
      match (b.decode mem buf).value with
      | (.package package, rest) => .item package rest
      | (.null, rest) => .wait rest
      | (.lengthError, rest) => .fail rest :=
  rfl

/-- The read loop takes exactly the packages of a stream. -/
theorem reader_carries (b : Build M) (mem : Memory) {T : Bytes → Prop} (hT : IsTail T) :
    (b.reader mem).Carries (b.Stream T) where
  nil _ h := h.short (by simp [kPackageHeaderSize])
  item packages buf later package left h hnext := by
    rw [reader_next] at hnext
    rcases decode_stream b hT mem buf later packages h with
      ⟨_, hvalue, _⟩ | ⟨taken, rest, _, hvalue, hpackages, hrest⟩
    · simp [hvalue] at hnext
    · simp only [hvalue, Next.item.injEq] at hnext
      obtain ⟨rfl, rfl⟩ := hnext
      exact ⟨rest, hpackages, hrest⟩
  wait packages buf later left h hnext := by
    rw [reader_next] at hnext
    rcases decode_stream b hT mem buf later packages h with
      ⟨_, hvalue, hkept, hnone⟩ | ⟨_, _, _, hvalue, _⟩
    · simp only [hvalue, Next.wait.injEq] at hnext
      subst hnext
      exact ⟨hkept, hnone⟩
    · simp [hvalue] at hnext
  no_fail packages buf later left h hnext := by
    rw [reader_next] at hnext
    rcases decode_stream b hT mem buf later packages h with
      ⟨_, hvalue, _⟩ | ⟨_, _, _, hvalue, _⟩
    · simp [hvalue] at hnext
    · simp [hvalue] at hnext

end Build

end AsioMsg
