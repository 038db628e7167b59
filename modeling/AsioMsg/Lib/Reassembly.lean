import Mathlib.Data.List.Basic

/-!
Reading items off a stream that arrives in chunks. A reader appends each chunk
to its buffer and takes items from the front until it has to wait, fails, or
has used up the buffer. If a relation between the items still to come and the
bytes still to be read survives every step, the chunks deliver those items.
-/

namespace AsioMsg

/-- The outcome of looking for the next item. -/
inductive Next (σ π : Type*)
  | item (p : π) (s : σ)
  | wait (s : σ)
  | fail (s : σ)

structure Reader (σ π α : Type*) where
  content : σ → List α
  append : σ → List α → σ
  next : σ → Next σ π
  content_append : ∀ s chunk, content (append s chunk) = content s ++ chunk
  next_lt : ∀ s p t, next s = .item p t → (content t).length < (content s).length

/-- What a loop delivered, the state it left and whether it failed. -/
structure Delivery (σ π : Type*) where
  items : List π
  state : σ
  failed : Bool

namespace Reader

variable {σ π α : Type*}

/-- do { take an item or leave the loop } while (something is left). -/
def drain (r : Reader σ π α) (s : σ) : Delivery σ π :=
  match _h : r.next s with
  | .item p t =>
      if (r.content t).length = 0 then ⟨[p], t, false⟩
      else { r.drain t with items := p :: (r.drain t).items }
  | .wait t => ⟨[], t, false⟩
  | .fail t => ⟨[], t, true⟩
termination_by (r.content s).length
decreasing_by
  all_goals exact r.next_lt s p t _h

/-- Chunk after chunk, until a loop fails. -/
def feed (r : Reader σ π α) (s : σ) : List (List α) → Delivery σ π
  | [] => ⟨[], s, false⟩
  | chunk :: rest =>
      let d := r.drain (r.append s chunk)
      if d.failed then d
      else { r.feed d.state rest with items := d.items ++ (r.feed d.state rest).items }

/-- One chunk more. -/
theorem feed_concat (r : Reader σ π α) (s : σ) (chunks : List (List α)) (chunk : List α)
    (h : (r.feed s chunks).failed = false) :
    r.feed s (chunks ++ [chunk]) =
      { r.drain (r.append (r.feed s chunks).state chunk) with
        items := (r.feed s chunks).items ++
          (r.drain (r.append (r.feed s chunks).state chunk)).items } := by
  induction chunks generalizing s with
  | nil =>
    simp only [List.nil_append, feed, List.append_nil]
    cases hd : r.drain (r.append s chunk) with
    | mk items state failed => cases failed <;> rfl
  | cons first rest ih =>
    simp only [feed, List.cons_append] at h ⊢
    split at h
    · next hfail => simp [hfail] at h
    · next hfail =>
      rw [if_neg hfail, if_neg hfail, ih _ h, List.append_assoc]

theorem drain_item {r : Reader σ π α} {s t : σ} {p : π} (h : r.next s = .item p t) :
    r.drain s = if (r.content t).length = 0 then ⟨[p], t, false⟩
      else { r.drain t with items := p :: (r.drain t).items } := by
  rw [drain]
  split
  · next heq =>
    rw [h, Next.item.injEq] at heq
    rw [heq.1, heq.2]
  · next heq => simp [h] at heq
  · next heq => simp [h] at heq

theorem drain_wait {r : Reader σ π α} {s t : σ} (h : r.next s = .wait t) :
    r.drain s = ⟨[], t, false⟩ := by
  rw [drain]
  split
  · next heq => simp [h] at heq
  · next heq =>
    rw [h, Next.wait.injEq] at heq
    rw [heq]
  · next heq => simp [h] at heq

theorem drain_fail {r : Reader σ π α} {s t : σ} (h : r.next s = .fail t) :
    r.drain s = ⟨[], t, true⟩ := by
  rw [drain]
  split
  · next heq => simp [h] at heq
  · next heq => simp [h] at heq
  · next heq =>
    rw [h, Next.fail.injEq] at heq
    rw [heq]

/-- `R ps bs`: the bytes `bs` of a stream carry exactly the items `ps`. Taking an item, or
waiting, with a part of such a stream in the buffer keeps this; what a wait leaves in the buffer
carries nothing by itself; and a failure, if there may be one, comes behind the last item. -/
structure Conveys (r : Reader σ π α) (R : List π → List α → Prop) (mayFail : Prop) : Prop where
  nil : ∀ ps, R ps [] → ps = []
  item : ∀ ps s later p t, R ps (r.content s ++ later) → r.next s = .item p t →
    ∃ rest, ps = p :: rest ∧ R rest (r.content t ++ later)
  wait : ∀ ps s later t, R ps (r.content s ++ later) → r.next s = .wait t →
    R ps (r.content t ++ later) ∧ ∀ qs, R qs (r.content t) → qs = []
  fail : ∀ ps s later t, R ps (r.content s ++ later) → r.next s = .fail t → mayFail ∧ ps = []

/-- One loop delivers a first part of the items. If it fails, these are all; otherwise the rest of
the stream carries the others, and nothing more can come of the buffer alone. -/
theorem drain_conveys {r : Reader σ π α} {R : List π → List α → Prop} {mayFail : Prop}
    (hc : r.Conveys R mayFail) (ps : List π) (s : σ) (later : List α)
    (h : R ps (r.content s ++ later)) :
    ((r.drain s).failed = true ∧ mayFail ∧ ps = (r.drain s).items) ∨
      ((r.drain s).failed = false ∧
        (∃ rest, ps = (r.drain s).items ++ rest ∧ R rest (r.content (r.drain s).state ++ later)) ∧
        ∀ qs, R qs (r.content (r.drain s).state) → qs = []) := by
  induction s using Reader.drain.induct r generalizing ps with
  | case1 s p t hnext hzero =>
    obtain ⟨rest, rfl, hrest⟩ := hc.item ps s later p t h hnext
    rw [drain_item hnext, if_pos hzero]
    refine Or.inr ⟨rfl, ⟨rest, rfl, hrest⟩, ?_⟩
    intro qs hqs
    rw [List.length_eq_zero_iff.mp hzero] at hqs
    exact hc.nil qs hqs
  | case2 s p t hnext hsome ih =>
    obtain ⟨rest, rfl, hrest⟩ := hc.item ps s later p t h hnext
    rw [drain_item hnext, if_neg hsome]
    rcases ih rest hrest with ⟨hfail, hmay, heq⟩ | ⟨hfail, ⟨left, heq, hleft⟩, hdrained⟩
    · exact Or.inl ⟨hfail, hmay, by rw [heq]⟩
    · exact Or.inr ⟨hfail, ⟨left, by rw [heq]; rfl, hleft⟩, hdrained⟩
  | case3 s t hnext =>
    obtain ⟨hwait, hdrained⟩ := hc.wait ps s later t h hnext
    rw [drain_wait hnext]
    exact Or.inr ⟨rfl, ⟨ps, rfl, hwait⟩, hdrained⟩
  | case4 s t hnext =>
    obtain ⟨hmay, rfl⟩ := hc.fail ps s later t h hnext
    rw [drain_fail hnext]
    exact Or.inl ⟨rfl, hmay, rfl⟩

/-- The items of a stream are delivered in order and once, however it is cut into chunks. -/
theorem feed_conveys {r : Reader σ π α} {R : List π → List α → Prop} {mayFail : Prop}
    (hc : r.Conveys R mayFail) (chunks : List (List α)) (ps : List π) (s : σ)
    (hdrained : ∀ qs, R qs (r.content s) → qs = []) (h : R ps (r.content s ++ chunks.flatten)) :
    (r.feed s chunks).items = ps ∧
      (((r.feed s chunks).failed = true ∧ mayFail) ∨
        ((r.feed s chunks).failed = false ∧ R [] (r.content (r.feed s chunks).state))) := by
  induction chunks generalizing ps s with
  | nil =>
    rw [List.flatten_nil, List.append_nil] at h
    have hps := hdrained ps h
    subst ps
    exact ⟨rfl, Or.inr ⟨rfl, h⟩⟩
  | cons chunk rest ih =>
    rw [List.flatten_cons, ← List.append_assoc, ← r.content_append] at h
    rcases drain_conveys hc ps _ _ h with ⟨hfail, hmay, heq⟩ | ⟨hfail, ⟨qs, heq, hqs⟩, hnext⟩
    · rw [feed, if_pos hfail]
      exact ⟨heq.symm, Or.inl ⟨hfail, hmay⟩⟩
    · obtain ⟨hitems, hend⟩ := ih qs _ hnext hqs
      simp only [feed, hfail, Bool.false_eq_true, if_false]
      exact ⟨by rw [hitems, heq], hend⟩

/-- The same where no part of a stream makes the reader fail. -/
structure Carries (r : Reader σ π α) (R : List π → List α → Prop) : Prop where
  nil : ∀ ps, R ps [] → ps = []
  item : ∀ ps s later p t, R ps (r.content s ++ later) → r.next s = .item p t →
    ∃ rest, ps = p :: rest ∧ R rest (r.content t ++ later)
  wait : ∀ ps s later t, R ps (r.content s ++ later) → r.next s = .wait t →
    R ps (r.content t ++ later) ∧ ∀ qs, R qs (r.content t) → qs = []
  no_fail : ∀ ps s later t, R ps (r.content s ++ later) → r.next s ≠ .fail t

theorem Carries.conveys {r : Reader σ π α} {R : List π → List α → Prop} (hc : r.Carries R) :
    r.Conveys R False :=
  ⟨hc.nil, hc.item, hc.wait, fun ps s later t h hnext =>
    absurd hnext (hc.no_fail ps s later t h)⟩

theorem feed_carries {r : Reader σ π α} {R : List π → List α → Prop} (hc : r.Carries R)
    (chunks : List (List α)) (ps : List π) (s : σ)
    (hdrained : ∀ qs, R qs (r.content s) → qs = []) (h : R ps (r.content s ++ chunks.flatten)) :
    (r.feed s chunks).failed = false ∧ (r.feed s chunks).items = ps ∧
      R [] (r.content (r.feed s chunks).state) := by
  obtain ⟨hitems, hend⟩ := feed_conveys hc.conveys chunks ps s hdrained h
  obtain ⟨hfail, hleft⟩ := hend.resolve_left fun hfail => hfail.2
  exact ⟨hfail, hitems, hleft⟩

end Reader

end AsioMsg
