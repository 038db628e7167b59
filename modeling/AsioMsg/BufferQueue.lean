import AsioMsg.Lib.Machine
import AsioMsg.RawBuffer

/-!
Buffer as a byte queue. Beside a pool of buffers runs a pool of byte lists on
which every operation does what it is for, and what the operations return is
collected on both sides. The two sides agree as long as no ensureWritableBytes
asks for so much that writerIndex_ + len wraps around.
-/

namespace AsioMsg

/-- A call of a member function. write is a copy to beginWrite() with hasWritten; the pointer
given to retrieveUntil lies `n` bytes behind peek(). -/
inductive BufferOp
  | append (data : CharVector)
  | appendInt32 (x : BitVec 32)
  | appendInt16 (x : BitVec 16)
  | appendInt8 (x : BitVec 8)
  | ensureWritableBytes (len : SizeT)
  | write (data : CharVector)
  | prepend (data : CharVector)
  | prependInt32 (x : BitVec 32)
  | prependInt16 (x : BitVec 16)
  | prependInt8 (x : BitVec 8)
  | peekInt32
  | peekInt16
  | peekInt8
  | readInt32
  | readInt16
  | readInt8
  | read (data : Bool) (len : SizeT)
  | retrieve (len : SizeT)
  | retrieveUntil (n : SizeT)
  | retrieveInt32
  | retrieveInt16
  | retrieveInt8
  | retrieveAsString (len : SizeT)
  | retrieveAllAsString
  | retrieveAll

/-- What a call returns; for read the bytes copied to its destination, none if it returns false. -/
inductive Returned
  | nothing
  | bytes (data : Bytes)
  | copied (data : Option Bytes)
  | int32 (x : BitVec 32)
  | int16 (x : BitVec 16)
  | int8 (x : BitVec 8)

namespace BufferOp

/-- The assertions on the arguments with which a call begins, and the room that write relies on. -/
def leading (buf : RawBuffer) : BufferOp → Bool
  | .write data => data.size ≤ buf.writableBytes
  | .prepend data => data.size ≤ buf.prependableBytes
  | .prependInt32 _ => 4 ≤ buf.prependableBytes
  | .prependInt16 _ => 2 ≤ buf.prependableBytes
  | .prependInt8 _ => 1 ≤ buf.prependableBytes
  | .peekInt32 | .readInt32 | .retrieveInt32 => 4 ≤ buf.readableBytes
  | .peekInt16 | .readInt16 | .retrieveInt16 => 2 ≤ buf.readableBytes
  | .peekInt8 | .readInt8 | .retrieveInt8 => 1 ≤ buf.readableBytes
  | .retrieve len | .retrieveAsString len => len ≤ buf.readableBytes
  | .retrieveUntil n =>
    buf.readerIndex ≤ buf.readerIndex + n && buf.readerIndex + n ≤ buf.writerIndex
  | .append _ | .appendInt32 _ | .appendInt16 _ | .appendInt8 _ | .ensureWritableBytes _
  | .read _ _ | .retrieveAllAsString | .retrieveAll => true

/-- A call that returns nothing. -/
def silent (done : Traced Assertion RawBuffer) : Traced Assertion (Returned × RawBuffer) := do
  let buf ← done
  return (.nothing, buf)

def returning {α : Type} (wrap : α → Returned) (done : Traced Assertion (α × RawBuffer)) :
    Traced Assertion (Returned × RawBuffer) := do
  let result ← done
  return (wrap result.1, result.2)

/-- A call that leaves the buffer alone. -/
def looking {α : Type} (wrap : α → Returned) (buf : RawBuffer) (done : Traced Assertion α) :
    Traced Assertion (Returned × RawBuffer) := do
  let result ← done
  return (wrap result, buf)

/-- The call on a buffer, none if it throws. -/
def exec (buf : RawBuffer) : BufferOp → Option (Traced Assertion (Returned × RawBuffer))
  | .append data => (buf.append data).map silent
  | .appendInt32 x => (buf.appendInt32 x).map silent
  | .appendInt16 x => (buf.appendInt16 x).map silent
  | .appendInt8 x => (buf.appendInt8 x).map silent
  | .ensureWritableBytes len => (buf.ensureWritableBytes len).map silent
  | .write data => some (silent (pure (buf.write data)))
  | .prepend data => some (silent (buf.prepend data))
  | .prependInt32 x => some (silent (buf.prependInt32 x))
  | .prependInt16 x => some (silent (buf.prependInt16 x))
  | .prependInt8 x => some (silent (buf.prependInt8 x))
  | .peekInt32 => some (looking .int32 buf buf.peekInt32)
  | .peekInt16 => some (looking .int16 buf buf.peekInt16)
  | .peekInt8 => some (looking .int8 buf buf.peekInt8)
  | .readInt32 => some (returning .int32 buf.readInt32)
  | .readInt16 => some (returning .int16 buf.readInt16)
  | .readInt8 => some (returning .int8 buf.readInt8)
  | .read data len => some (returning .copied (buf.read data len))
  | .retrieve len => some (silent (buf.retrieve len))
  | .retrieveUntil n => some (silent (buf.retrieveUntil (buf.readerIndex + n)))
  | .retrieveInt32 => some (silent buf.retrieveInt32)
  | .retrieveInt16 => some (silent buf.retrieveInt16)
  | .retrieveInt8 => some (silent buf.retrieveInt8)
  | .retrieveAsString len => some (returning .bytes (buf.retrieveAsString len))
  | .retrieveAllAsString => some (returning .bytes buf.retrieveAllAsString)
  | .retrieveAll => some (silent (pure buf.retrieveAll))

/-- The integer at the front of a byte list. -/
def front (k w : ℕ) (queue : Bytes) : BitVec w := ByteOrder.ofWordBytes w (queue.take k)

/-- The call on a byte list. -/
def ideal (queue : Bytes) : BufferOp → Returned × Bytes
  | .append data | .write data => (.nothing, queue ++ data.elems)
  | .appendInt32 x => (.nothing, queue ++ ByteOrder.wordBytes 4 x)
  | .appendInt16 x => (.nothing, queue ++ ByteOrder.wordBytes 2 x)
  | .appendInt8 x => (.nothing, queue ++ ByteOrder.wordBytes 1 x)
  | .ensureWritableBytes _ => (.nothing, queue)
  | .prepend data => (.nothing, data.elems ++ queue)
  | .prependInt32 x => (.nothing, ByteOrder.wordBytes 4 x ++ queue)
  | .prependInt16 x => (.nothing, ByteOrder.wordBytes 2 x ++ queue)
  | .prependInt8 x => (.nothing, ByteOrder.wordBytes 1 x ++ queue)
  | .peekInt32 => (.int32 (front 4 32 queue), queue)
  | .peekInt16 => (.int16 (front 2 16 queue), queue)
  | .peekInt8 => (.int8 (front 1 8 queue), queue)
  | .readInt32 => (.int32 (front 4 32 queue), queue.drop 4)
  | .readInt16 => (.int16 (front 2 16 queue), queue.drop 2)
  | .readInt8 => (.int8 (front 1 8 queue), queue.drop 1)
  | .read data len =>
    if data ∧ len.toNat ≤ queue.length then
      (.copied (some (queue.take len.toNat)), queue.drop len.toNat)
    else (.copied none, queue)
  | .retrieve len | .retrieveUntil len => (.nothing, queue.drop len.toNat)
  | .retrieveInt32 => (.nothing, queue.drop 4)
  | .retrieveInt16 => (.nothing, queue.drop 2)
  | .retrieveInt8 => (.nothing, queue.drop 1)
  | .retrieveAsString len => (.bytes (queue.take len.toNat), queue.drop len.toNat)
  | .retrieveAllAsString => (.bytes queue, [])
  | .retrieveAll => (.nothing, [])

/-- The `len` of an ensureWritableBytes. -/
def requested : BufferOp → SizeT
  | .ensureWritableBytes len => len
  | _ => 0

/-- An ensureWritableBytes is for a size that writerIndex_ + len does not wrap around. -/
def NoWrap (buf : RawBuffer) (op : BufferOp) : Prop :=
  buf.writerIndex.toNat + op.requested.toNat < 2 ^ 64

instance (buf : RawBuffer) (op : BufferOp) : Decidable (op.NoWrap buf) :=
  inferInstanceAs (Decidable (_ < _))

end BufferOp

/-- The indices are in order with the bytes of the list between them. -/
def RawBuffer.Stores (r : RawBuffer) (queue : Bytes) : Prop :=
  ∃ buf : Buffer, r.Represents buf ∧ buf.readable = queue

/-- A call has done what it does on the byte list, and its assertions hold. -/
structure Refines (done : Traced Assertion (Returned × RawBuffer)) (want : Returned × Bytes) :
    Prop where
  returned : done.value.1 = want.1
  stores : done.value.2.Stores want.2
  asserted : done.All Assertion.Holds

theorem Refines.silent {done : Traced Assertion RawBuffer} {queue : Bytes}
    (h : done.value.Stores queue ∧ done.All Assertion.Holds) :
    Refines (BufferOp.silent done) (.nothing, queue) := by
  refine ⟨rfl, h.1, ?_⟩
  rw [BufferOp.silent, Traced.all_bind]
  exact ⟨h.2, Traced.all_pure _ _⟩

namespace RawBuffer.Stores

variable {r : RawBuffer} {queue : Bytes}

theorem readableBytes_eq (h : r.Stores queue) : r.readableBytes.toNat = queue.length := by
  obtain ⟨buf, hrep, rfl⟩ := h
  rw [hrep.readableBytes_eq, Buffer.readable_length]

theorem le_readableBytes (h : r.Stores queue) (len : SizeT) :
    len ≤ r.readableBytes ↔ len.toNat ≤ queue.length := by
  rw [BitVec.le_def, h.readableBytes_eq]

theorem peek_eq (h : r.Stores queue) {len : SizeT} (hlen : len.toNat ≤ queue.length) :
    r.peek len = queue.take len.toNat := by
  obtain ⟨buf, hrep, rfl⟩ := h
  exact hrep.peek_eq (by rwa [← Buffer.readable_length])

theorem retrieve (h : r.Stores queue) {len : SizeT} (hlen : len.toNat ≤ queue.length) :
    (r.retrieve len).value.Stores (queue.drop len.toNat) ∧
      (r.retrieve len).All Assertion.Holds := by
  have hlead := (h.le_readableBytes len).mpr hlen
  obtain ⟨buf, hrep, rfl⟩ := h
  refine ⟨⟨_, hrep.retrieve len, Buffer.readable_retrieve buf _⟩, ?_⟩
  rw [RawBuffer.retrieve, Traced.all_bind, Traced.all_emit]
  refine ⟨hlead, ?_⟩
  split <;> exact Traced.all_pure _ _

theorem peekInt (h : r.Stores queue) {k : SizeT} (w : ℕ) (hk : k.toNat ≤ queue.length) :
    (r.peekInt k w).value = BufferOp.front k.toNat w queue ∧
      (r.peekInt k w).All Assertion.Holds := by
  refine ⟨?_, ?_⟩
  · simp only [RawBuffer.peekInt, Traced.bind_value, Traced.pure_value]
    rw [h.peek_eq hk]
    rfl
  · rw [RawBuffer.peekInt, Traced.all_bind, Traced.all_emit]
    exact ⟨(h.le_readableBytes k).mpr hk, Traced.all_pure _ _⟩

theorem append (h : r.Stores queue) {data : CharVector}
    {done : Traced Assertion (Returned × RawBuffer)}
    (hexec : (r.append data).map BufferOp.silent = some done) :
    Refines done (.nothing, queue ++ data.elems) := by
  obtain ⟨made, hmade, rfl⟩ := Option.map_eq_some_iff.mp hexec
  obtain ⟨buf, hrep, rfl⟩ := h
  obtain ⟨hmadeRep, hall⟩ := hrep.append hmade
  exact .silent ⟨⟨_, hmadeRep, Buffer.readable_append buf _⟩, hall⟩

theorem ensureWritableBytes (h : r.Stores queue) {len : SizeT}
    {done : Traced Assertion (Returned × RawBuffer)}
    (hwrap : r.writerIndex.toNat + len.toNat < 2 ^ 64)
    (hexec : (r.ensureWritableBytes len).map BufferOp.silent = some done) :
    Refines done (.nothing, queue) := by
  obtain ⟨made, hmade, rfl⟩ := Option.map_eq_some_iff.mp hexec
  obtain ⟨buf, hrep, rfl⟩ := h
  rw [hrep.writerIndex_eq] at hwrap
  obtain ⟨hmadeRep, hall⟩ := hrep.ensureWritableBytes hwrap hmade
  exact .silent ⟨⟨_, hmadeRep, Buffer.readable_ensureWritableBytes buf _⟩, hall⟩

theorem write (h : r.Stores queue) {data : CharVector} (hlead : data.size ≤ r.writableBytes) :
    (r.write data).Stores (queue ++ data.elems) := by
  obtain ⟨buf, hrep, rfl⟩ := h
  rw [BitVec.le_def, CharVector.toNat_size, hrep.writableBytes_eq] at hlead
  exact ⟨_, hrep.write hlead, Buffer.readable_write buf _⟩

theorem prepend (h : r.Stores queue) {data : CharVector}
    (hlead : data.size ≤ r.prependableBytes) :
    Refines (BufferOp.silent (r.prepend data)) (.nothing, data.elems ++ queue) := by
  obtain ⟨buf, hrep, rfl⟩ := h
  have hlen : data.elems.length ≤ buf.prependableBytes := by
    rwa [BitVec.le_def, CharVector.toNat_size, hrep.prependableBytes_eq] at hlead
  refine .silent ⟨⟨_, hrep.prepend hlen, Buffer.readable_prepend buf _ hlen⟩, ?_⟩
  rw [RawBuffer.prepend, Traced.all_bind, Traced.all_emit]
  exact ⟨hlead, Traced.all_pure _ _⟩

theorem retrieveAll (h : r.Stores queue) : r.retrieveAll.Stores [] := by
  obtain ⟨buf, hrep, _⟩ := h
  exact ⟨_, hrep.retrieveAll, Buffer.readable_retrieveAll buf⟩

theorem retrieveUntil (h : r.Stores queue) {n : SizeT}
    (hpeek : r.readerIndex ≤ r.readerIndex + n) (hend : r.readerIndex + n ≤ r.writerIndex) :
    Refines (BufferOp.silent (r.retrieveUntil (r.readerIndex + n)))
      (.nothing, queue.drop n.toNat) := by
  have hlen : n ≤ r.readableBytes := by
    rw [RawBuffer.readableBytes]
    bv_omega
  have hoffset : r.readerIndex + n - r.readerIndex = n := by
    rw [BitVec.add_comm, BitVec.add_sub_cancel]
  have hretrieve := h.retrieve ((h.le_readableBytes n).mp hlen)
  refine .silent ?_
  rw [RawBuffer.retrieveUntil, Traced.all_bind, Traced.all_bind, Traced.all_emit, Traced.all_emit]
  simp only [Traced.bind_value, hoffset]
  exact ⟨hretrieve.1, hpeek, hend, hretrieve.2⟩

theorem looking {α : Type} {wrap : α → Returned} {done : Traced Assertion α} {result : α}
    (h : r.Stores queue) (hdone : done.value = result ∧ done.All Assertion.Holds) :
    Refines (BufferOp.looking wrap r done) (wrap result, queue) := by
  refine ⟨congrArg wrap hdone.1, h, ?_⟩
  rw [BufferOp.looking, Traced.all_bind]
  exact ⟨hdone.2, Traced.all_pure _ _⟩

theorem readInt (h : r.Stores queue) {k : SizeT} {w : ℕ} (wrap : BitVec w → Returned)
    (hk : k.toNat ≤ queue.length) :
    Refines (BufferOp.returning wrap (r.readInt k w))
      (wrap (BufferOp.front k.toNat w queue), queue.drop k.toNat) := by
  have hpeek := h.peekInt w hk
  have hretrieve := h.retrieve hk
  refine ⟨congrArg wrap hpeek.1, hretrieve.1, ?_⟩
  rw [BufferOp.returning, Traced.all_bind, RawBuffer.readInt, Traced.all_bind, Traced.all_bind]
  exact ⟨⟨hpeek.2, hretrieve.2, Traced.all_pure _ _⟩, Traced.all_pure _ _⟩

theorem retrieveAsString (h : r.Stores queue) {len : SizeT} (hlen : len.toNat ≤ queue.length) :
    Refines (BufferOp.returning .bytes (r.retrieveAsString len))
      (.bytes (queue.take len.toNat), queue.drop len.toNat) := by
  have hretrieve := h.retrieve hlen
  refine ⟨congrArg Returned.bytes (h.peek_eq hlen), hretrieve.1, ?_⟩
  rw [BufferOp.returning, Traced.all_bind, RawBuffer.retrieveAsString, Traced.all_bind,
    Traced.all_emit, Traced.all_bind]
  exact ⟨⟨(h.le_readableBytes len).mpr hlen, hretrieve.2, Traced.all_pure _ _⟩,
    Traced.all_pure _ _⟩

theorem retrieveAllAsString (h : r.Stores queue) :
    Refines (BufferOp.returning .bytes r.retrieveAllAsString) (.bytes queue, []) := by
  have hlen : r.readableBytes.toNat = queue.length := h.readableBytes_eq
  have hall := h.retrieveAsString (Nat.le_of_eq hlen)
  rwa [hlen, List.take_length, List.drop_length] at hall

theorem read (h : r.Stores queue) (data : Bool) (len : SizeT) :
    Refines (BufferOp.returning .copied (r.read data len))
      (BufferOp.ideal queue (.read data len)) := by
  simp only [RawBuffer.read, BufferOp.ideal, h.le_readableBytes]
  by_cases hread : data = true ∧ len.toNat ≤ queue.length
  · rw [if_pos hread, if_pos hread]
    have hretrieve := h.retrieve hread.2
    refine ⟨congrArg (fun bytes => Returned.copied (some bytes)) (h.peek_eq hread.2),
      hretrieve.1, ?_⟩
    rw [BufferOp.returning, Traced.all_bind, Traced.all_bind]
    exact ⟨⟨hretrieve.2, Traced.all_pure _ _⟩, Traced.all_pure _ _⟩
  · rw [if_neg hread, if_neg hread]
    exact ⟨rfl, h, Traced.all_pure _ _⟩

end RawBuffer.Stores

namespace BufferOp

variable {r : RawBuffer} {queue : Bytes} {done : Traced Assertion (Returned × RawBuffer)}

/-- A call with arguments that meet its leading assertions does on the buffer what it does on the
byte list. -/
theorem exec_refines (op : BufferOp) (h : r.Stores queue) (hlead : op.leading r = true)
    (hwrap : op.NoWrap r) (hexec : op.exec r = some done) : Refines done (op.ideal queue) := by
  cases op with
  | append data | appendInt32 x | appendInt16 x | appendInt8 x => exact h.append hexec
  | ensureWritableBytes len => exact h.ensureWritableBytes hwrap hexec
  | write data =>
    obtain rfl := Option.some.inj hexec
    exact .silent ⟨h.write (of_decide_eq_true hlead), Traced.all_pure _ _⟩
  | prepend data | prependInt32 x | prependInt16 x | prependInt8 x =>
    obtain rfl := Option.some.inj hexec
    exact h.prepend (of_decide_eq_true hlead)
  | peekInt32 | peekInt16 | peekInt8 =>
    obtain rfl := Option.some.inj hexec
    exact h.looking (h.peekInt _ ((h.le_readableBytes _).mp (of_decide_eq_true hlead)))
  | readInt32 | readInt16 | readInt8 =>
    obtain rfl := Option.some.inj hexec
    exact h.readInt _ ((h.le_readableBytes _).mp (of_decide_eq_true hlead))
  | read data len =>
    obtain rfl := Option.some.inj hexec
    exact h.read data len
  | retrieve len =>
    obtain rfl := Option.some.inj hexec
    exact .silent (h.retrieve ((h.le_readableBytes _).mp (of_decide_eq_true hlead)))
  | retrieveUntil n =>
    obtain rfl := Option.some.inj hexec
    obtain ⟨hpeek, hend⟩ := Bool.and_eq_true_iff.mp hlead
    exact h.retrieveUntil (of_decide_eq_true hpeek) (of_decide_eq_true hend)
  | retrieveInt32 | retrieveInt16 | retrieveInt8 =>
    obtain rfl := Option.some.inj hexec
    exact .silent (h.retrieve ((h.le_readableBytes _).mp (of_decide_eq_true hlead)))
  | retrieveAsString len =>
    obtain rfl := Option.some.inj hexec
    exact h.retrieveAsString ((h.le_readableBytes _).mp (of_decide_eq_true hlead))
  | retrieveAllAsString =>
    obtain rfl := Option.some.inj hexec
    exact h.retrieveAllAsString
  | retrieveAll =>
    obtain rfl := Option.some.inj hexec
    exact .silent ⟨h.retrieveAll, Traced.all_pure _ _⟩

end BufferOp

/-- Buffers, the byte lists that they stand for, and what the calls have returned and asserted. -/
structure BufferPool where
  buffers : ℕ → RawBuffer := fun _ => RawBuffer.init
  queues : ℕ → Bytes := fun _ => []
  returned : List Returned := []
  promised : List Returned := []
  asserted : List Assertion := []

inductive PoolAction
  | call (i : ℕ) (op : BufferOp)
  | swap (i j : ℕ)

namespace BufferPool

def finish (s : BufferPool) (i : ℕ) (op : BufferOp)
    (done : Traced Assertion (Returned × RawBuffer)) : BufferPool where
  buffers := Function.update s.buffers i done.value.2
  queues := Function.update s.queues i (op.ideal (s.queues i)).2
  returned := s.returned ++ [done.value.1]
  promised := s.promised ++ [(op.ideal (s.queues i)).1]
  asserted := s.asserted ++ done.log

def swap (s : BufferPool) (i j : ℕ) : BufferPool :=
  let swapped := (s.buffers i).swap (s.buffers j)
  { s with
    buffers := Function.update (Function.update s.buffers i swapped.1) j swapped.2
    queues := Function.update (Function.update s.queues i (s.queues j)) j (s.queues i) }

/-- A call is a step if its leading assertions hold and it does not throw. -/
def step (s : BufferPool) : PoolAction → Option BufferPool
  | .call i op =>
    if op.leading (s.buffers i) then (op.exec (s.buffers i)).map (s.finish i op) else none
  | .swap i j => some (s.swap i j)

def machine : Machine BufferPool PoolAction where
  init := {}
  step := step

def NoWrap (s : BufferPool) : PoolAction → Prop
  | .call i op => op.NoWrap (s.buffers i)
  | .swap _ _ => True

instance (s : BufferPool) (a : PoolAction) : Decidable (NoWrap s a) :=
  match a with
  | .call i op => inferInstanceAs (Decidable (op.NoWrap (s.buffers i)))
  | .swap _ _ => inferInstanceAs (Decidable True)

/-- The buffers are the byte lists: in their indices, in their readable bytes, in what the calls
have returned and asserted, in that a read that returns false changes nothing, and in that an
integer at the front is read as it was written. -/
structure ByteQueue (s : BufferPool) : Prop where
  indices : ∀ i, (s.buffers i).readerIndex ≤ (s.buffers i).writerIndex ∧
    (s.buffers i).writerIndex ≤ (s.buffers i).buffer.size
  readable : ∀ i, (s.buffers i).peek (s.buffers i).readableBytes = s.queues i
  returned : s.returned = s.promised
  asserted : ∀ a ∈ s.asserted, a.Holds
  refused : ∀ i data len, ((s.buffers i).read data len).value.1 = none →
    ((s.buffers i).read data len).value.2 = s.buffers i
  int32 : ∀ i x rest, s.queues i = ByteOrder.wordBytes 4 x ++ rest →
    (s.buffers i).readInt32.value.1 = x
  int16 : ∀ i x rest, s.queues i = ByteOrder.wordBytes 2 x ++ rest →
    (s.buffers i).readInt16.value.1 = x
  int8 : ∀ i x rest, s.queues i = ByteOrder.wordBytes 1 x ++ rest →
    (s.buffers i).readInt8.value.1 = x

variable {s t : BufferPool} {a : PoolAction}

theorem stores_iff {r : RawBuffer} {queue : Bytes} :
    r.Stores queue ↔ (r.readerIndex ≤ r.writerIndex ∧ r.writerIndex ≤ r.buffer.size) ∧
      r.peek r.readableBytes = queue := by
  rw [← r.exists_represents_iff]
  constructor
  · rintro ⟨buf, hrep, hqueue⟩
    have hstores : r.Stores queue := ⟨buf, hrep, hqueue⟩
    have hlen := hstores.readableBytes_eq
    exact ⟨⟨buf, hrep⟩, by rw [hstores.peek_eq (Nat.le_of_eq hlen), hlen, List.take_length]⟩
  · rintro ⟨⟨buf, hrep⟩, hpeek⟩
    have hstores : r.Stores buf.readable := ⟨buf, hrep, rfl⟩
    have hlen := hstores.readableBytes_eq
    rw [hstores.peek_eq (Nat.le_of_eq hlen), hlen, List.take_length] at hpeek
    exact ⟨buf, hrep, hpeek⟩

theorem read_refused {r : RawBuffer} {data : Bool} {len : SizeT}
    (h : (r.read data len).value.1 = none) : (r.read data len).value.2 = r := by
  unfold RawBuffer.read at h ⊢
  split
  · next hread =>
    rw [if_pos hread] at h
    simp at h
  · rfl

/-- An integer at the front of the byte list is read back. -/
theorem readInt_front {r : RawBuffer} {k : SizeT} {w : ℕ} {x : BitVec w} {queue rest : Bytes}
    (h : r.Stores queue) (hqueue : queue = ByteOrder.wordBytes k.toNat x ++ rest)
    (hw : 256 ^ k.toNat = 2 ^ w) : (r.readInt k w).value.1 = x := by
  have hk : k.toNat ≤ queue.length := by
    rw [hqueue, List.length_append, ByteOrder.wordBytes_length]
    exact Nat.le_add_right _ _
  have hvalue : (r.readInt k w).value.1 = BufferOp.front k.toNat w queue := (h.peekInt w hk).1
  rw [hvalue, BufferOp.front, hqueue, List.take_left' (ByteOrder.wordBytes_length _ _),
    ByteOrder.ofWordBytes_wordBytes k.toNat x hw]

/-- What there is to show of a pool: the rest follows. -/
theorem byteQueue_iff : ByteQueue s ↔ (∀ i, (s.buffers i).Stores (s.queues i)) ∧
    s.returned = s.promised ∧ ∀ a ∈ s.asserted, a.Holds := by
  constructor
  · intro h
    exact ⟨fun i => stores_iff.mpr ⟨h.indices i, h.readable i⟩, h.returned, h.asserted⟩
  · rintro ⟨hstores, hreturned, hasserted⟩
    exact ⟨fun i => (stores_iff.mp (hstores i)).1, fun i => (stores_iff.mp (hstores i)).2,
      hreturned, hasserted, fun i data len => read_refused,
      fun i x rest hqueue => readInt_front (hstores i) hqueue (by decide),
      fun i x rest hqueue => readInt_front (hstores i) hqueue (by decide),
      fun i x rest hqueue => readInt_front (hstores i) hqueue (by decide)⟩

/-- Only an ensureWritableBytes can wrap around. -/
theorem wraps_cases {r : RawBuffer} {op : BufferOp} (h : ¬ op.NoWrap r) :
    ∃ len, op = .ensureWritableBytes len ∧ 2 ^ 64 ≤ r.writerIndex.toNat + len.toNat := by
  cases op with
  | ensureWritableBytes len => exact ⟨len, rfl, Nat.le_of_not_lt h⟩
  | _ => exact absurd (r.writerIndex.isLt) h

theorem ByteQueue.swap (h : ByteQueue s) (i j : ℕ) : ByteQueue (s.swap i j) := by
  obtain ⟨hstores, hreturned, hasserted⟩ := byteQueue_iff.mp h
  refine byteQueue_iff.mpr ⟨fun k => ?_, hreturned, hasserted⟩
  simp only [BufferPool.swap, RawBuffer.swap, Function.update_apply]
  split
  · exact hstores i
  · split
    · exact hstores j
    · exact hstores k

/-- A call leaves the buffers byte lists unless it wraps around. -/
theorem ByteQueue.step_iff (h : ByteQueue s) (hstep : s.step a = some t) :
    ByteQueue t ↔ NoWrap s a := by
  cases a with
  | swap i j =>
    obtain rfl := Option.some.inj hstep
    exact iff_of_true (h.swap i j) trivial
  | call i op =>
    obtain ⟨hlead, hexec⟩ := Option.ite_none_right_eq_some.mp hstep
    obtain ⟨done, hdone, rfl⟩ := Option.map_eq_some_iff.mp hexec
    obtain ⟨hstores, hreturned, hasserted⟩ := byteQueue_iff.mp h
    by_cases hwrap : op.NoWrap (s.buffers i)
    · have hrefines := op.exec_refines (hstores i) hlead hwrap hdone
      refine iff_of_true (byteQueue_iff.mpr ⟨fun k => ?_, ?_, ?_⟩) hwrap
      · simp only [finish, Function.update_apply]
        split
        · exact hrefines.stores
        · exact hstores k
      · simp only [finish, hreturned, hrefines.returned]
      · exact List.forall_mem_append.mpr ⟨hasserted, hrefines.asserted⟩
    · refine iff_of_false (fun hqueue => ?_) hwrap
      obtain ⟨len, rfl, hlen⟩ := wraps_cases hwrap
      obtain ⟨made, hmade, rfl⟩ := Option.map_eq_some_iff.mp hdone
      obtain ⟨buf, hrep, _⟩ := hstores i
      rw [hrep.writerIndex_eq] at hlen
      have hindices := (hqueue.indices i).2
      simp only [finish, Function.update_self] at hindices
      exact hrep.ensureWritableBytes_wraps hlen hmade hindices

theorem byteQueue_init : ByteQueue {} := by
  refine byteQueue_iff.mpr
    ⟨fun i => ⟨Buffer.empty, ⟨rfl, rfl, rfl⟩, Buffer.readable_empty⟩, rfl, ?_⟩
  simp

/-- The buffers are byte queues all along a run exactly when no ensureWritableBytes of the run wraps
around. -/
theorem byteQueue_iff_noWrap (labels : List PoolAction) (s : BufferPool)
    (hrun : machine.run (fun _ _ => True) machine.init labels = some s) :
    (∀ u ∈ machine.visits machine.init labels, ByteQueue u) ↔
      machine.run NoWrap machine.init labels = some s := by
  refine machine.always_iff_run NoWrap (I := fun _ => True) (fun _ _ _ _ _ => trivial) ?_ labels
    machine.init s trivial byteQueue_init hrun
  exact fun _ _ _ _ hs hstep => hs.step_iff hstep

/-- Calls that grow, swap and prepend, on two buffers. -/
def queueCalls : List PoolAction :=
  [.call 0 (.appendInt32 0x01020304), .call 0 .readInt16, .call 0 (.prependInt16 0x0506),
    .swap 0 1, .call 1 .readInt32, .call 1 (.ensureWritableBytes 5000)]

theorem byteQueue_iff_noWrap_calls :
    ∃ s, machine.run (fun _ _ => True) machine.init queueCalls = some s ∧
      s.returned.length = 5 ∧ ∀ u ∈ machine.visits machine.init queueCalls, ByteQueue u := by
  have hrun : (machine.run NoWrap machine.init queueCalls).map (fun s => s.returned.length) =
      some 5 := by decide +kernel
  obtain ⟨s, hs, hlen⟩ := Option.map_eq_some_iff.mp hrun
  have hfree : machine.run (fun _ _ => True) machine.init queueCalls = some s :=
    Machine.run_mono (fun _ _ _ => trivial) queueCalls machine.init s hs
  exact ⟨s, hfree, hlen, (byteQueue_iff_noWrap queueCalls s hfree).mpr hs⟩

/-- With one byte in the buffer, ensureWritableBytes(SIZE_MAX) resizes the vector to nothing. -/
theorem not_byteQueue : ¬ ∀ s, machine.Reachable s → ByteQueue s := by
  intro hall
  have hrun : (machine.run (fun _ _ => True) machine.init
      [.call 0 (.appendInt8 1), .call 0 (.ensureWritableBytes (-1))]).map
      (fun s => ((s.buffers 0).writerIndex, (s.buffers 0).buffer.size)) = some (1, 0) := by
    decide +kernel
  obtain ⟨s, hs, hsizes⟩ := Option.map_eq_some_iff.mp hrun
  obtain ⟨hwriter, hsize⟩ := Prod.mk.inj hsizes
  have hindices := (hall s (Machine.reachableWhen_of_run _ hs)).indices 0
  rw [hwriter, hsize] at hindices
  exact absurd hindices.2 (by decide)

end BufferPool

end AsioMsg
