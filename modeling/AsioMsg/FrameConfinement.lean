import AsioMsg.FrameOutcome
import AsioMsg.PingPong

/-!
Frame confinement. Nothing behind a frame should influence its package or be
consumed with it. The body is consumed by pacSize, but a raw body is parsed by
msgSize, a length of its own; a frame is confined for every message library
exactly when that length stays inside the body.
-/

namespace AsioMsg

variable {M : Type}

namespace Build

/-- Whatever follows the frame, decode returns the same package or none, and a package leaves the
buffer with what follows. -/
def Confined (b : Build M) (f : Bytes) : Prop :=
  ∀ (mem₁ mem₂ : Memory) (buf₁ buf₂ : Buffer) (r₁ r₂ : Bytes),
    buf₁.readable = f ++ r₁ → buf₂.readable = f ++ r₂ →
    (∀ pac, (b.decode mem₁ buf₁).value.1 = .package pac ↔
      (b.decode mem₂ buf₂).value.1 = .package pac) ∧
    ∀ pac, (b.decode mem₁ buf₁).value.1 = .package pac →
      (b.decode mem₁ buf₁).value.2.readable = r₁

/-- A frame whose body fits is confined. -/
theorem confined_of_bodyFits (b : Build M) (hbus : b.MSGBUS = false) (f : WireFrame)
    (hknown : (b.createMessage f.typeName).isSome) (hfits : BodyFits f.header) :
    b.Confined f.bytes := by
  obtain ⟨proto, hproto⟩ := Option.isSome_iff_exists.mp hknown
  have hthrough : b.passesThrough f.typeName = false := by simp [passesThrough, hbus]
  have hdecode : ∀ (mem : Memory) (buf : Buffer) (r : Bytes), buf.readable = f.bytes ++ r →
      ∃ left, (b.decode mem buf).value = (f.outcome b proto, left) ∧
        left.readable = if (f.outcome b proto).isPackage then r else f.body ++ r := by
    intro mem buf r hbuf
    obtain ⟨left, hpass, hleft⟩ := f.decodePass_outcome b mem r buf (by rw [hbuf, f.seek_bytes])
      hthrough proto hproto hfits
    exact ⟨left, by rw [decode_of_done b mem buf left _ hpass], hleft⟩
  intro mem₁ mem₂ buf₁ buf₂ r₁ r₂ h₁ h₂
  obtain ⟨left₁, hvalue₁, hleft₁⟩ := hdecode mem₁ buf₁ r₁ h₁
  obtain ⟨left₂, hvalue₂, _⟩ := hdecode mem₂ buf₂ r₂ h₂
  refine ⟨fun pac => by rw [hvalue₁, hvalue₂], ?_⟩
  intro pac hpac
  rw [hvalue₁] at hpac ⊢
  rw [hleft₁, if_pos ((Decoded.isPackage_iff _).mpr ⟨pac, hpac⟩)]

end Build

/-- A library with one type, of messages that are byte strings and stand for themselves. -/
def rawMessages (typeName : Bytes) : Protobuf Bytes where
  getTypeName _ := typeName
  serialize msg := msg
  newMessage name := if name = typeName then some [] else none
  parseFromArray _ data size := if size < 0 then none else some data
  parseFromArray_negative _ _ _ _ h := (if_pos h).trans (if_pos h).symm

namespace Build

/-- With a length past the body such a message takes in what follows the frame. -/
theorem decode_rawMessages (f : WireFrame) (hzip : f.header.iszip = false) (mem : Memory)
    (buf : Buffer) (r : Bytes) (hbuf : buf.readable = f.bytes ++ r)
    (hsize : f.header.msgSize.toInt = f.body.length + r.length) :
    ((Build.mk (rawMessages f.typeName) PingPong.zlib false).decode mem buf).value.1 =
      .package { header := f.header, typeName := f.typeName, msgPtr := some (f.body ++ r) } := by
  have hproto : (Build.mk (rawMessages f.typeName) PingPong.zlib false).createMessage f.typeName =
      some [] := if_pos rfl
  obtain ⟨body, hbody, hpass⟩ := f.decodePass_bytes
    (Build.mk (rawMessages f.typeName) PingPong.zlib false) mem r buf (by rw [hbuf, f.seek_bytes])
  rw [if_neg (by simp [passesThrough]), hproto] at hpass
  have hpeek : body.peekBytes mem f.header.msgSize.toInt.toNat = f.body ++ r := by
    have hcount : f.header.msgSize.toInt.toNat = (f.body ++ r).length := by
      rw [List.length_append]
      omega
    rw [Buffer.peekBytes_eq, hbody, hcount, List.take_length]
    exact Nat.le_of_eq (by rw [hcount, ← Buffer.readable_length, hbody])
  obtain ⟨left, hvalue, _⟩ := decodeMessage_value
    (Build.mk (rawMessages f.typeName) PingPong.zlib false) mem f.header f.typeName [] body
  rw [hvalue] at hpass
  rw [decode_of_done _ mem buf left _ hpass]
  have hpos : ¬ f.header.msgSize.toInt < 0 := by omega
  simp only [bodyOutcome, hzip, Bool.false_eq_true, if_false, rawMessages, hpeek, parsedPackage,
    if_neg hpos]

/-- A frame is confined for every message library iff it is compressed or its message length
stays inside the body; a negative one does, as a library reads nothing for it. -/
theorem confined_iff {f : Bytes} (h : SingleFrame f) :
    (∀ (M : Type) (b : Build M), b.MSGBUS = false → (b.createMessage (frameName f)).isSome →
      b.Confined f) ↔ BodyFits (PacHeader.ofWire f) := by
  have hbytes := h.wire_bytes
  constructor
  · intro hall
    by_contra hover
    rw [BodyFits, not_or, Bool.not_eq_true, Int.not_le] at hover
    obtain ⟨hzip, hlong⟩ := hover
    have hconfined := hall Bytes ⟨rawMessages (frameName f), PingPong.zlib, false⟩ rfl
      (by simp [createMessage, rawMessages])
    -- as many bytes behind the frame as the message length reaches past it
    have hremain : remainSize (PacHeader.ofWire f) = h.wire.body.length := h.wire.remainSize_eq
    obtain ⟨k, hk⟩ : ∃ k : ℕ, (PacHeader.ofWire f).msgSize.toInt =
        h.wire.body.length + (k + 1 : ℕ) :=
      ⟨(PacHeader.ofWire f).msgSize.toInt.toNat - h.wire.body.length - 1, by omega⟩
    have hdecode : ∀ x : Byte, ((Build.mk (rawMessages (frameName f)) PingPong.zlib false).decode
        PingPong.memory (Buffer.empty.append (f ++ List.replicate (k + 1) x))).value.1 =
          .package ⟨PacHeader.ofWire f, frameName f, [],
            some (h.wire.body ++ List.replicate (k + 1) x)⟩ := by
      intro x
      exact decode_rawMessages h.wire hzip PingPong.memory _ (List.replicate (k + 1) x)
        (by rw [hbytes, Buffer.readable_empty_append]) (by rw [List.length_replicate]; exact hk)
    have hsame := ((hconfined PingPong.memory PingPong.memory _ _ _ _
      (Buffer.readable_empty_append (f ++ List.replicate (k + 1) 0))
      (Buffer.readable_empty_append (f ++ List.replicate (k + 1) 1))).1 _).mp (hdecode 0)
    rw [hdecode 1] at hsame
    simp [List.replicate_succ] at hsame
  · intro hfits M b hbus hknown
    rw [← hbytes]
    exact b.confined_of_bodyFits hbus h.wire hknown hfits

/-- The frame of an empty ProtoSimple.PingPongReq with the given message length. -/
def pingFrame (msgSize : BitVec 32) : Bytes :=
  (PacHeader.toWire {
    msgType := MsgType.REQREP.code, typeNameLen := 23, msgSize := msgSize, pacSize := 43 }) ++
    PingPong.typeName

theorem confined_iff_ping : (PingPong.build false).Confined (pingFrame 0) :=
  (confined_iff (f := pingFrame 0) ⟨by decide, by decide, by decide, by decide, by decide,
    by decide⟩).mpr (by decide) PingPong (PingPong.build false) rfl (by decide)

/-- With the length two, the two bytes behind the frame decide whether it parses. -/
theorem not_confined :
    ¬ ∀ (b : Build PingPong) (f : Bytes), b.MSGBUS = false → SingleFrame f →
      (b.createMessage (frameName f)).isSome → b.Confined f := by
  intro h
  have hconfined := h (PingPong.build false) (pingFrame 2) rfl
    ⟨by decide, by decide, by decide, by decide, by decide, by decide⟩ (by decide)
  have hpackage : ((PingPong.build false).decode PingPong.memory
      (Buffer.empty.append (pingFrame 2 ++ [0x0A, 0]))).value.1.isPackage = true := by
    decide +kernel
  have hnull : ((PingPong.build false).decode PingPong.memory
      (Buffer.empty.append (pingFrame 2 ++ [0, 0]))).value.1.isPackage = false := by
    decide +kernel
  obtain ⟨pac, hpac⟩ := (Decoded.isPackage_iff _).mp hpackage
  have hboth := ((hconfined PingPong.memory PingPong.memory _ _ _ _
    (Buffer.readable_empty_append (pingFrame 2 ++ [0x0A, 0]))
    (Buffer.readable_empty_append (pingFrame 2 ++ [0, 0]))).1 pac).mp hpac
  have hgiven := (Decoded.isPackage_iff _).mpr ⟨pac, hboth⟩
  rw [hnull] at hgiven
  exact Bool.false_ne_true hgiven

end Build

end AsioMsg
