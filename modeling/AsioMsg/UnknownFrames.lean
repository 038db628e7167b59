import AsioMsg.DecodeWaiting
import AsioMsg.FrameConfinement
import AsioMsg.ReadLoop

/-!
Frames of an unknown type. decode consumes the header and the type name and
looks for the next flag pair in what follows, the body of the frame included,
although the header tells where the body ends. The following frame is found
exactly when the scan gets over the body without stopping in it.
-/

namespace AsioMsg

variable {M : Type}

namespace Build

/-- The bytes from which on the activation of decode that returns has read its frame. -/
def decodedFrom (b : Build M) (mem : Memory) (buf : Buffer) : Bytes :=
  match _h : (b.decodePass mem buf).value with
  | .done _ _ => seek buf.readable
  | .again rest => decodedFrom b mem rest
termination_by buf.readableBytes
decreasing_by
  have hlt := decodePass_consumes b mem buf (by simp [_h])
  rw [_h] at hlt
  simp only [Pass.rest, kPackageHeaderSize] at hlt
  omega

theorem decodedFrom_of_done (b : Build M) (mem : Memory) (buf rest : Buffer) (result : Decoded M)
    (h : (b.decodePass mem buf).value = .done result rest) :
    b.decodedFrom mem buf = seek buf.readable := by
  rw [decodedFrom]
  split
  · rfl
  · next heq => simp [h] at heq

theorem decodedFrom_of_again (b : Build M) (mem : Memory) (buf rest : Buffer)
    (h : (b.decodePass mem buf).value = .again rest) :
    b.decodedFrom mem buf = b.decodedFrom mem rest := by
  rw [decodedFrom]
  split
  · next heq => simp [h] at heq
  · next heq =>
    rw [h, Pass.again.injEq] at heq
    rw [heq]

theorem decodedFrom_nil (b : Build M) (mem : Memory) (buf : Buffer) (h : buf.readable = []) :
    b.decodedFrom mem buf = [] := by
  have hpass := (decodePass_noFlag b mem buf (by rw [h]; exact Nat.zero_le _)).1
  rw [decodedFrom_of_done b mem buf _ _ hpass, h]
  rfl

/-- The scan of decode comes to the bytes that the returned frame is read from. -/
theorem reaches_decodedFrom (b : Build M) (mem : Memory) (buf : Buffer)
    (hne : b.decodedFrom mem buf ≠ []) : b.Reaches buf.readable (b.decodedFrom mem buf) := by
  induction buf using decode.induct b mem with
  | case1 buf result rest hdone =>
    rw [decodedFrom_of_done b mem buf rest result hdone]
    exact .here _
  | case2 buf rest hagain ih =>
    rw [decodedFrom_of_again b mem buf rest hagain] at hne ⊢
    have hframe := frontFrame_of_again b mem buf hagain
    have hpass := decodePass_front b mem buf hframe
    rw [hagain] at hpass
    generalize hvalue : Pass.again rest = pass at hpass
    cases hpass with
    | badSizes hsizes hleft =>
      obtain rfl := Pass.again.inj hvalue
      exact .behind hframe (by rw [skip_badSizes b hsizes, hleft]) (ih hne)
    | overlong _ _ hempty =>
      rw [← hvalue, Pass.rest] at hempty
      exact absurd (b.decodedFrom_nil mem rest hempty) hne
    | unknown hsizes _ hthrough hunknown hleft =>
      obtain rfl := Pass.again.inj hvalue
      exact .behind hframe (by rw [skip_unknown b hsizes hthrough hunknown, hleft]) (ih hne)
    | passed | known => simp at hvalue

theorem skip_suffix {b : Build M} {f rest : Bytes} (h : b.skip f = some rest) : rest <:+ f := by
  simp only [skip] at h
  split at h
  · rw [← Option.some.inj h]
    exact List.drop_suffix _ _
  · split at h
    · simp at h
    · split at h
      · simp at h
      · rw [← Option.some.inj h]
        exact (List.drop_suffix _ _).trans (List.drop_suffix _ _)

theorem Reaches.suffix {b : Build M} {bs f : Bytes} (h : b.Reaches bs f) : f <:+ bs := by
  induction h with
  | here bs => exact seek_suffix bs
  | behind _ hskip _ ih => exact ih.trans ((skip_suffix hskip).trans (seek_suffix _))

/-- The scan gets over `body` to the bytes `c` behind it: each flag pair that it comes to heads a
complete frame that is skipped and whose header and type name end inside `body`. -/
inductive ScansOver (b : Build M) (c : Bytes) : Bytes → Prop
  | clean {body : Bytes} : NoFlagPair body → ScansOver b c body
  | skip {body f rest : Bytes} : seek (body ++ c) = f ++ c → FrontFrame (f ++ c) →
      b.skip (f ++ c) = some (rest ++ c) → ScansOver b c rest → ScansOver b c body

theorem Reaches.scansOver {b : Build M} {bs c : Bytes} (h : b.Reaches bs c)
    (hclean : ∀ body, seek (body ++ c) = c → NoFlagPair body) (body : Bytes)
    (hbs : bs = body ++ c) : b.ScansOver c body := by
  induction h generalizing body with
  | here bs => exact .clean (hclean body (by rw [← hbs]))
  | @behind bs rest c hframe hskip hreach ih =>
    obtain ⟨inner, hinner⟩ := hreach.suffix
    obtain ⟨part, hpart⟩ := hreach.suffix.trans (skip_suffix hskip)
    refine .skip (f := part) ?_ ?_ ?_ (ih hclean inner hinner.symm)
    · rw [← hbs, hpart]
    · rwa [hpart]
    · rw [hpart, hskip, hinner]

section Following

variable (g : WireFrame) (r : Bytes)

/-- In front of a frame the flag search drops what has no flag pair. -/
theorem seek_append_bytes_iff (body : Bytes) :
    seek (body ++ (g.bytes ++ r)) = g.bytes ++ r ↔ NoFlagPair body := by
  induction body with
  | nil => exact iff_of_true (g.seek_bytes r) NoFlagPair.nil
  | cons x body ih =>
    have hlong : kPackageHeaderSize < (x :: body ++ (g.bytes ++ r)).length := by
      have h := g.bytes_long
      simp only [List.length_append]
      omega
    cases hflag : startsWithFlag (x :: body ++ (g.bytes ++ r)) with
    | true =>
      refine iff_of_false (fun h => ?_) fun h => ?_
      · rw [seek_of_flag _ hflag] at h
        have hlen := congrArg List.length h
        simp only [List.length_append, List.length_cons] at hlen
        omega
      · exact List.cons_ne_nil x body
          (h.eq_nil (g.head_bytes r _ [] (List.append_nil _).symm) hflag)
    | false =>
      rw [seek_of_noFlag _ hlong hflag, List.cons_append, List.tail_cons, ih]
      refine ⟨fun h hin => ?_, NoFlagPair.tail⟩
      rcases List.infix_cons_iff.mp hin with hstarts | hin
      · obtain ⟨after, hafter⟩ := hstarts
        rw [← hafter] at hflag
        simp [startsWithFlag] at hflag
      · exact h hin

theorem scansOver_iff (b : Build M) (body : Bytes) :
    b.ScansOver (g.bytes ++ r) body ↔ b.Reaches (body ++ (g.bytes ++ r)) (g.bytes ++ r) := by
  constructor
  · intro h
    induction h with
    | @clean body hclean =>
      have hhere := Reaches.here (b := b) (body ++ (g.bytes ++ r))
      rwa [(seek_append_bytes_iff g r body).mpr hclean] at hhere
    | skip hseek hframe hskip _ ih =>
      rw [← hseek] at hframe hskip
      exact .behind hframe hskip ih
  · intro h
    exact h.scansOver (fun body => (seek_append_bytes_iff g r body).mp) body rfl

end Following

/-- Behind a frame of an unknown type decode returns the package of the following frame, read from
that frame, iff its scan gets over the body of the unknown one. -/
theorem decode_unknown_iff (b : Build M) (hbus : b.MSGBUS = false)
    (hparse : b.protobuf.ParseUndoesSerialize) (hzlib : b.zlib.UncompressUndoesCompress)
    {f : Bytes} (hf : SingleFrame f) (hunknown : b.createMessage (frameName f) = none)
    (enableCompressSize : BitVec 32) (package : Package M) (msg : M)
    (h : Sendable b enableCompressSize package msg) (mem mem' : Memory)
    (sent : Package M) (out : Buffer)
    (henc : b.encode mem' enableCompressSize package Buffer.empty = .frame sent out)
    (r : Bytes) (buf : Buffer) (hbuf : buf.readable = f ++ (out.readable ++ r)) :
    (∃ left, (b.decode mem buf).value = (.package (b.received package msg), left) ∧
      left.readable = r ∧ b.decodedFrom mem buf = out.readable ++ r) ↔
      b.ScansOver (out.readable ++ r) (behindName f) := by
  have hthrough : b.passesThrough (frameName f) = false := by simp [passesThrough, hbus]
  have hout := h.readable_of_encode henc
  have hc : out.readable ++ r ≠ [] := by
    have hlong := h.frame.bytes_long
    refine List.ne_nil_of_length_pos ?_
    rw [hout, List.length_append]
    omega
  -- the unknown frame is left behind with its body in front
  obtain ⟨inner, hagain, hinner⟩ := hf.wire.decodePass_unknown b mem (out.readable ++ r) buf
    (by rw [hbuf, ← hf.wire.seek_bytes, hf.wire_bytes]) hthrough hunknown
  change inner.readable = behindName f ++ (out.readable ++ r) at hinner
  rw [decode_value_of_again b mem buf inner hagain, decodedFrom_of_again b mem buf inner hagain]
  rw [hout] at hinner hc ⊢
  rw [scansOver_iff]
  constructor
  · rintro ⟨_, _, _, hfrom⟩
    have hreach := b.reaches_decodedFrom mem inner (by rw [hfrom]; exact hc)
    rwa [hfrom, hinner] at hreach
  · intro hreach
    obtain ⟨buf', _, hseek, hsame⟩ := hreach.activation hc mem inner hinner
    obtain ⟨left, hpass, hleft⟩ := h.decodePass_frame hparse hzlib mem buf' r hseek
    refine ⟨left, ?_, hleft, ?_⟩
    · rw [hsame _ (fun buf => (b.decode mem buf).value) (b.decode_value_of_again mem),
        decode_of_done b mem buf' left _ hpass]
    · rw [hsame _ (b.decodedFrom mem) (b.decodedFrom_of_again mem),
        decodedFrom_of_done b mem buf' left _ hpass, hseek]

/-- A frame of a type 'A' that nobody knows, with the given body. -/
def unknownFrame (body : Bytes) : Bytes :=
  (PacHeader.toWire {
    msgType := MsgType.PUBSUB.code, typeNameLen := 1
    pacSize := BitVec.ofNat 32 (21 + body.length) }) ++ 0x41 :: body

theorem decode_unknown_ping :
    ∃ sent out left, (PingPong.build false).encode PingPong.memory (-1)
        (PingPong.request PingPong.blank 7) Buffer.empty = .frame sent out ∧
      ((PingPong.build false).decode PingPong.memory
          (Buffer.empty.append (unknownFrame [0x60, 0x41, 0x7E] ++ (out.readable ++ [])))).value =
        (.package ((PingPong.build false).received (PingPong.request PingPong.blank 7)
          PingPong.blank), left) ∧ left.readable = [] := by
  have h := sendable_request PingPong.blank 7
  obtain ⟨out, henc, _⟩ := h.encode_eq PingPong.memory Buffer.empty
  obtain ⟨left, hvalue, hleft, _⟩ := (decode_unknown_iff (PingPong.build false) rfl
    PingPong.parseUndoesSerialize PingPong.uncompressUndoesCompress
    (f := unknownFrame [0x60, 0x41, 0x7E])
    ⟨by decide, by decide, by decide, by decide, by decide, by decide⟩ (by decide) (-1)
    (PingPong.request PingPong.blank 7) PingPong.blank h PingPong.memory PingPong.memory _ out henc
    [] _ (Buffer.readable_empty_append _)).mpr (.clean (by decide))
  exact ⟨_, out, left, henc, hvalue, hleft⟩

/-- With a whole frame in the body of the unknown one decode returns the package of that. -/
theorem decode_unknown_fails :
    ¬ ∀ (b : Build PingPong) (f : Bytes), b.MSGBUS = false → SingleFrame f →
      b.createMessage (frameName f) = none →
      ∀ (package : Package PingPong) (msg : PingPong), Sendable b (-1) package msg →
      ∀ (mem : Memory) (sent : Package PingPong) (out : Buffer),
        b.encode mem (-1) package Buffer.empty = .frame sent out →
        (b.decode mem (Buffer.empty.append (f ++ out.readable))).value.1 =
          .package (b.received package msg) := by
  intro h
  obtain ⟨out, henc, _⟩ :=
    (sendable_request PingPong.blank 7).encode_eq PingPong.memory Buffer.empty
  have hvalue := h (PingPong.build false) (unknownFrame (pingFrame 0)) rfl
    ⟨by decide, by decide, by decide, by decide, by decide, by decide⟩ (by decide)
    (PingPong.request PingPong.blank 7) PingPong.blank (sendable_request PingPong.blank 7)
    PingPong.memory _ out henc
  rw [(sendable_request PingPong.blank 7).readable_of_encode henc] at hvalue
  exact absurd hvalue (by decide +kernel)

end Build

end AsioMsg
