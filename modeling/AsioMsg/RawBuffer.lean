import AsioMsg.Buffer

/-!
Buffer.h with its machine types: indices and lengths are size_t and wrap
around, the vector has a largest size, and every assertion is recorded with the
two values it compares. A raw buffer whose indices are in order represents a
Buffer, and its operations are those of Buffer unless writerIndex_ + len wraps.
-/

namespace AsioMsg

abbrev SizeT := BitVec 64

/-- The size that no vector and no other object exceeds. -/
def maxSize : ℕ := 2 ^ 63 - 1

/-- A std::vector of bytes, or the bytes that a pointer and a length denote. -/
structure CharVector where
  elems : Bytes
  size_le : elems.length ≤ maxSize

/-- The assertions of Buffer: assert(a <= b), assert(a < b) and assert(a == b). -/
inductive Assertion
  | le (a b : SizeT)
  | lt (a b : SizeT)
  | eq (a b : SizeT)

def Assertion.Holds : Assertion → Prop
  | .le a b => a ≤ b
  | .lt a b => a < b
  | .eq a b => a = b

namespace CharVector

def size (v : CharVector) : SizeT := BitVec.ofNat 64 v.elems.length

/-- std::vector::resize, which throws above the largest size and then changes nothing. -/
def resize (v : CharVector) (n : SizeT) : Option CharVector :=
  if h : n.toNat ≤ maxSize then
    some ⟨AsioMsg.resize v.elems n.toNat, Nat.le_trans (Nat.le_of_eq (resize_length ..)) h⟩
  else none

/-- std::copy of `data` to position `pos`, as far as the vector reaches. -/
def copyTo (v : CharVector) (pos : SizeT) (data : Bytes) : CharVector where
  elems := (AsioMsg.copyTo v.elems pos.toNat data).take v.elems.length
  size_le := Nat.le_trans (List.length_take_le _ _) v.size_le

/-- The object representation of an integer of k bytes. -/
def ofInt (k : ℕ) (hk : k ≤ maxSize) {w : ℕ} (x : BitVec w) : CharVector :=
  ⟨ByteOrder.wordBytes k x, Nat.le_trans (Nat.le_of_eq (ByteOrder.wordBytes_length k x)) hk⟩

@[simp] theorem toNat_size (v : CharVector) : v.size.toNat = v.elems.length := by
  have h := v.size_le
  unfold maxSize at h
  rw [size, BitVec.toNat_ofNat, Nat.mod_eq_of_lt (by omega)]

theorem copyTo_elems (v : CharVector) (pos : SizeT) (data : Bytes)
    (h : pos.toNat + data.length ≤ v.elems.length) :
    (v.copyTo pos data).elems = AsioMsg.copyTo v.elems pos.toNat data :=
  List.take_of_length_le (Nat.le_of_eq (copyTo_length _ _ _ h))

end CharVector

structure RawBuffer where
  buffer : CharVector
  readerIndex : SizeT
  writerIndex : SizeT

namespace RawBuffer

/-- A default-constructed Buffer. -/
def init : RawBuffer where
  buffer := ⟨List.replicate (kCheapPrepend + kInitialSize) 0#8,
    by rw [List.length_replicate]; decide⟩
  readerIndex := BitVec.ofNat 64 kCheapPrepend
  writerIndex := BitVec.ofNat 64 kCheapPrepend

def swap (buf rhs : RawBuffer) : RawBuffer × RawBuffer := (rhs, buf)

def readableBytes (buf : RawBuffer) : SizeT := buf.writerIndex - buf.readerIndex

def writableBytes (buf : RawBuffer) : SizeT := buf.buffer.size - buf.writerIndex

def prependableBytes (buf : RawBuffer) : SizeT := buf.readerIndex

/-- The `len` bytes from peek() on, as far as the vector reaches. -/
def peek (buf : RawBuffer) (len : SizeT) : Bytes :=
  (buf.buffer.elems.drop buf.readerIndex.toNat).take len.toNat

def retrieveAll (buf : RawBuffer) : RawBuffer :=
  { buf with
    readerIndex := BitVec.ofNat 64 kCheapPrepend
    writerIndex := BitVec.ofNat 64 kCheapPrepend }

def retrieve (buf : RawBuffer) (len : SizeT) : Traced Assertion RawBuffer := do
  Traced.emit (.le len buf.readableBytes)
  if len < buf.readableBytes then
    return { buf with readerIndex := buf.readerIndex + len }
  else
    return buf.retrieveAll

/-- A pointer into the buffer is its distance from begin(). -/
def retrieveUntil (buf : RawBuffer) (endPos : SizeT) : Traced Assertion RawBuffer := do
  Traced.emit (.le buf.readerIndex endPos)
  Traced.emit (.le endPos buf.writerIndex)
  buf.retrieve (endPos - buf.readerIndex)

def retrieveInt32 (buf : RawBuffer) : Traced Assertion RawBuffer := buf.retrieve 4

def retrieveInt16 (buf : RawBuffer) : Traced Assertion RawBuffer := buf.retrieve 2

def retrieveInt8 (buf : RawBuffer) : Traced Assertion RawBuffer := buf.retrieve 1

def retrieveAsString (buf : RawBuffer) (len : SizeT) : Traced Assertion (Bytes × RawBuffer) := do
  Traced.emit (.le len buf.readableBytes)
  let result := buf.peek len
  let buf ← buf.retrieve len
  return (result, buf)

def retrieveAllAsString (buf : RawBuffer) : Traced Assertion (Bytes × RawBuffer) :=
  buf.retrieveAsString buf.readableBytes

/-- Copies `data` to beginWrite() and calls hasWritten. -/
def write (buf : RawBuffer) (data : CharVector) : RawBuffer :=
  { buf with
    buffer := buf.buffer.copyTo buf.writerIndex data.elems
    writerIndex := buf.writerIndex + data.size }

def makeSpace (buf : RawBuffer) (len : SizeT) : Option (Traced Assertion RawBuffer) :=
  if buf.writableBytes + buf.prependableBytes < len + BitVec.ofNat 64 kCheapPrepend then
    (buf.buffer.resize (buf.writerIndex + len)).map fun v => pure { buf with buffer := v }
  else some do
    Traced.emit (.lt (BitVec.ofNat 64 kCheapPrepend) buf.readerIndex)
    let readable := buf.readableBytes
    let buf : RawBuffer := {
      buffer := buf.buffer.copyTo (BitVec.ofNat 64 kCheapPrepend) (buf.peek readable)
      readerIndex := BitVec.ofNat 64 kCheapPrepend
      writerIndex := BitVec.ofNat 64 kCheapPrepend + readable }
    Traced.emit (.eq readable buf.readableBytes)
    return buf

def ensureWritableBytes (buf : RawBuffer) (len : SizeT) : Option (Traced Assertion RawBuffer) :=
  (if buf.writableBytes < len then buf.makeSpace len else some (pure buf)).map fun made => do
    let buf ← made
    Traced.emit (.le len buf.writableBytes)
    return buf

def append (buf : RawBuffer) (data : CharVector) : Option (Traced Assertion RawBuffer) :=
  (buf.ensureWritableBytes data.size).map fun made => do
    let buf ← made
    return buf.write data

def appendInt32 (buf : RawBuffer) (x : BitVec 32) : Option (Traced Assertion RawBuffer) :=
  buf.append (.ofInt 4 (by decide) x)

def appendInt16 (buf : RawBuffer) (x : BitVec 16) : Option (Traced Assertion RawBuffer) :=
  buf.append (.ofInt 2 (by decide) x)

def appendInt8 (buf : RawBuffer) (x : BitVec 8) : Option (Traced Assertion RawBuffer) :=
  buf.append (.ofInt 1 (by decide) x)

/-- peekInt32, peekInt16 and peekInt8: the integer of k bytes that starts at peek(). -/
def peekInt (k : SizeT) (w : ℕ) (buf : RawBuffer) : Traced Assertion (BitVec w) := do
  Traced.emit (.le k buf.readableBytes)
  return ByteOrder.ofWordBytes w (buf.peek k)

def peekInt32 (buf : RawBuffer) : Traced Assertion (BitVec 32) := buf.peekInt 4 32

def peekInt16 (buf : RawBuffer) : Traced Assertion (BitVec 16) := buf.peekInt 2 16

def peekInt8 (buf : RawBuffer) : Traced Assertion (BitVec 8) := buf.peekInt 1 8

/-- readInt32, readInt16 and readInt8. -/
def readInt (k : SizeT) (w : ℕ) (buf : RawBuffer) : Traced Assertion (BitVec w × RawBuffer) := do
  let result ← buf.peekInt k w
  let buf ← buf.retrieve k
  return (result, buf)

def readInt32 (buf : RawBuffer) : Traced Assertion (BitVec 32 × RawBuffer) := buf.readInt 4 32

def readInt16 (buf : RawBuffer) : Traced Assertion (BitVec 16 × RawBuffer) := buf.readInt 2 16

def readInt8 (buf : RawBuffer) : Traced Assertion (BitVec 8 × RawBuffer) := buf.readInt 1 8

/-- The bytes copied to `data`, or none where read returns false. -/
def read (buf : RawBuffer) (data : Bool) (len : SizeT) :
    Traced Assertion (Option Bytes × RawBuffer) :=
  if data ∧ len ≤ buf.readableBytes then do
    let result := buf.peek len
    let buf ← buf.retrieve len
    return (some result, buf)
  else
    return (none, buf)

def prepend (buf : RawBuffer) (data : CharVector) : Traced Assertion RawBuffer := do
  Traced.emit (.le data.size buf.prependableBytes)
  return { buf with
    buffer := buf.buffer.copyTo (buf.readerIndex - data.size) data.elems
    readerIndex := buf.readerIndex - data.size }

def prependInt32 (buf : RawBuffer) (x : BitVec 32) : Traced Assertion RawBuffer :=
  buf.prepend (.ofInt 4 (by decide) x)

def prependInt16 (buf : RawBuffer) (x : BitVec 16) : Traced Assertion RawBuffer :=
  buf.prepend (.ofInt 2 (by decide) x)

def prependInt8 (buf : RawBuffer) (x : BitVec 8) : Traced Assertion RawBuffer :=
  buf.prepend (.ofInt 1 (by decide) x)

/-- The raw buffer has the vector and the indices of the buffer. -/
structure Represents (r : RawBuffer) (buf : Buffer) : Prop where
  buffer_eq : r.buffer.elems = buf.buffer
  readerIndex_eq : r.readerIndex.toNat = buf.readerIndex
  writerIndex_eq : r.writerIndex.toNat = buf.writerIndex

/-- Exactly the raw buffers whose indices are in order represent a buffer. -/
theorem exists_represents_iff (r : RawBuffer) :
    (∃ buf, r.Represents buf) ↔ r.readerIndex ≤ r.writerIndex ∧ r.writerIndex ≤ r.buffer.size := by
  simp only [BitVec.le_def, CharVector.toNat_size]
  constructor
  · rintro ⟨buf, h⟩
    rw [h.readerIndex_eq, h.writerIndex_eq, h.buffer_eq]
    exact ⟨buf.readerIndex_le, buf.writerIndex_le⟩
  · rintro ⟨hreader, hwriter⟩
    exact ⟨⟨r.buffer.elems, r.readerIndex.toNat, r.writerIndex.toNat, hreader, hwriter⟩,
      rfl, rfl, rfl⟩

namespace Represents

variable {r : RawBuffer} {buf : Buffer}

theorem length_le (h : r.Represents buf) : buf.buffer.length ≤ maxSize :=
  h.buffer_eq ▸ r.buffer.size_le

theorem readableBytes_eq (h : r.Represents buf) : r.readableBytes.toNat = buf.readableBytes := by
  have hle : r.readerIndex ≤ r.writerIndex := ((exists_represents_iff r).mp ⟨buf, h⟩).1
  rw [RawBuffer.readableBytes, BitVec.toNat_sub_of_le hle, h.readerIndex_eq, h.writerIndex_eq]
  rfl

theorem writableBytes_eq (h : r.Represents buf) : r.writableBytes.toNat = buf.writableBytes := by
  have hle : r.writerIndex ≤ r.buffer.size := ((exists_represents_iff r).mp ⟨buf, h⟩).2
  rw [RawBuffer.writableBytes, BitVec.toNat_sub_of_le hle, CharVector.toNat_size,
    h.writerIndex_eq, h.buffer_eq]
  rfl

theorem prependableBytes_eq (h : r.Represents buf) :
    r.prependableBytes.toNat = buf.prependableBytes :=
  h.readerIndex_eq

theorem peek_eq (h : r.Represents buf) {len : SizeT} (hlen : len.toNat ≤ buf.readableBytes) :
    r.peek len = buf.readable.take len.toNat := by
  unfold Buffer.readableBytes at hlen
  rw [peek, h.buffer_eq, h.readerIndex_eq, Buffer.readable, List.drop_take, List.take_take,
    Nat.min_eq_left hlen]

theorem retrieveAll (h : r.Represents buf) : r.retrieveAll.Represents buf.retrieveAll :=
  ⟨h.buffer_eq, rfl, rfl⟩

theorem retrieve (h : r.Represents buf) (len : SizeT) :
    (r.retrieve len).value.Represents (buf.retrieve len.toNat).value := by
  have hlt : len < r.readableBytes ↔ len.toNat < buf.readableBytes := by
    rw [BitVec.lt_def, h.readableBytes_eq]
  simp only [RawBuffer.retrieve, Buffer.retrieve, Traced.bind_value]
  by_cases hlen : len.toNat < buf.readableBytes
  · rw [if_pos (hlt.mpr hlen), dif_pos hlen]
    refine ⟨h.buffer_eq, ?_, h.writerIndex_eq⟩
    have hle := buf.writerIndex_le
    have hmax := h.length_le
    unfold Buffer.readableBytes at hlen
    unfold maxSize at hmax
    simp only [Traced.pure_value]
    rw [BitVec.toNat_add_of_lt (by rw [h.readerIndex_eq]; omega), h.readerIndex_eq]
  · rw [if_neg (fun hr => hlen (hlt.mp hr)), dif_neg hlen]
    exact h.retrieveAll

theorem write (h : r.Represents buf) {data : CharVector}
    (hlen : data.elems.length ≤ buf.writableBytes) :
    (r.write data).Represents (buf.write data.elems) := by
  have hle := buf.writerIndex_le
  have hmax := h.length_le
  unfold Buffer.writableBytes at hlen
  unfold maxSize at hmax
  refine ⟨?_, h.readerIndex_eq, ?_⟩
  · simp only [RawBuffer.write, Buffer.write]
    rw [CharVector.copyTo_elems _ _ _ (by rw [h.writerIndex_eq, h.buffer_eq]; omega),
      h.writerIndex_eq, h.buffer_eq]
  · simp only [RawBuffer.write, Buffer.write]
    rw [BitVec.toNat_add_of_lt (by rw [h.writerIndex_eq, CharVector.toNat_size]; omega),
      h.writerIndex_eq, CharVector.toNat_size]

theorem prepend (h : r.Represents buf) {data : CharVector}
    (hlen : data.elems.length ≤ buf.prependableBytes) :
    (r.prepend data).value.Represents (buf.prepend data.elems) := by
  have hreader := buf.readerIndex_le
  have hwriter := buf.writerIndex_le
  have hsub : (r.readerIndex - data.size).toNat = buf.readerIndex - data.elems.length := by
    rw [BitVec.toNat_sub_of_le
      (by rw [BitVec.le_def, CharVector.toNat_size, h.readerIndex_eq]; exact hlen),
      h.readerIndex_eq, CharVector.toNat_size]
  unfold Buffer.prependableBytes at hlen
  refine ⟨?_, hsub, h.writerIndex_eq⟩
  simp only [RawBuffer.prepend, Traced.bind_value, Traced.pure_value, Buffer.prepend]
  rw [CharVector.copyTo_elems _ _ _ (by rw [hsub, h.buffer_eq]; omega), hsub, h.buffer_eq]

/-- The room in front and behind does not wrap around, so it is compared as it is. -/
theorem grows_iff (h : r.Represents buf) (len : SizeT) :
    r.writableBytes + r.prependableBytes < len + BitVec.ofNat 64 kCheapPrepend ↔
      buf.writableBytes + buf.prependableBytes < len.toNat + kCheapPrepend := by
  have hreader := buf.readerIndex_le
  have hwriter := buf.writerIndex_le
  have hmax := h.length_le
  unfold maxSize at hmax
  have hroom : buf.writableBytes + buf.prependableBytes < 2 ^ 64 := by
    unfold Buffer.writableBytes Buffer.prependableBytes
    omega
  rw [BitVec.lt_def, BitVec.toNat_add_of_lt (by rwa [h.writableBytes_eq, h.prependableBytes_eq]),
    h.writableBytes_eq, h.prependableBytes_eq]
  simp [kCheapPrepend]

/-- Unless writerIndex_ + len wraps around, the vector has room for `len` bytes afterwards. -/
theorem makeSpace (h : r.Represents buf) {len : SizeT} {made : Traced Assertion RawBuffer}
    (hneed : buf.writableBytes < len.toNat) (hwrap : buf.writerIndex + len.toNat < 2 ^ 64)
    (hmade : r.makeSpace len = some made) :
    made.value.Represents (buf.makeSpace len.toNat) ∧ made.All Assertion.Holds := by
  unfold RawBuffer.makeSpace at hmade
  unfold Buffer.makeSpace
  by_cases hgrows : buf.writableBytes + buf.prependableBytes < len.toNat + kCheapPrepend
  · rw [if_pos ((h.grows_iff len).mpr hgrows)] at hmade
    rw [if_pos hgrows]
    obtain ⟨v, hv, rfl⟩ := Option.map_eq_some_iff.mp hmade
    obtain ⟨hfits, hv⟩ := Option.dite_none_right_eq_some.mp hv
    obtain rfl := Option.some.inj hv
    have hsize : (r.writerIndex + len).toNat = buf.writerIndex + len.toNat := by
      rw [BitVec.toNat_add_of_lt (by rwa [h.writerIndex_eq]), h.writerIndex_eq]
    refine ⟨⟨?_, h.readerIndex_eq, h.writerIndex_eq⟩, Traced.all_pure _ _⟩
    simp only [Traced.pure_value]
    rw [hsize, h.buffer_eq]
  · rw [if_neg (fun hr => hgrows ((h.grows_iff len).mp hr))] at hmade
    rw [if_neg hgrows]
    obtain rfl := Option.some.inj hmade
    have hreader := buf.readerIndex_le
    have hwriter := buf.writerIndex_le
    have hpeek : r.peek r.readableBytes = buf.readable := by
      rw [h.peek_eq (Nat.le_of_eq h.readableBytes_eq), h.readableBytes_eq,
        ← Buffer.readable_length, List.take_length]
    have hlength := Buffer.readable_length buf
    unfold Buffer.readableBytes at hlength
    refine ⟨⟨?_, rfl, ?_⟩, ?_⟩
    · simp only [Traced.bind_value, Traced.pure_value]
      rw [hpeek, CharVector.copyTo_elems _ _ _ (by
        rw [h.buffer_eq, hlength]
        simp only [kCheapPrepend, BitVec.toNat_ofNat]
        omega), h.buffer_eq]
      rfl
    · simp only [Traced.bind_value, Traced.pure_value]
      rw [← h.readableBytes_eq]
      simp [kCheapPrepend]
    · rw [Traced.all_bind, Traced.all_emit, Traced.all_bind, Traced.all_emit]
      refine ⟨?_, ?_, Traced.all_pure _ _⟩
      · unfold Buffer.writableBytes Buffer.prependableBytes kCheapPrepend at *
        simp only [Assertion.Holds, BitVec.lt_def, h.readerIndex_eq, BitVec.toNat_ofNat]
        omega
      · simp [Assertion.Holds, RawBuffer.readableBytes, kCheapPrepend]

theorem ensureWritableBytes (h : r.Represents buf) {len : SizeT}
    {made : Traced Assertion RawBuffer} (hwrap : buf.writerIndex + len.toNat < 2 ^ 64)
    (hmade : r.ensureWritableBytes len = some made) :
    made.value.Represents (buf.ensureWritableBytes len.toNat) ∧ made.All Assertion.Holds := by
  obtain ⟨made, hspace, rfl⟩ := Option.map_eq_some_iff.mp hmade
  have hrep : made.value.Represents (buf.ensureWritableBytes len.toNat) ∧
      made.All Assertion.Holds := by
    unfold Buffer.ensureWritableBytes
    by_cases hneed : buf.writableBytes < len.toNat
    · rw [if_pos (by rwa [BitVec.lt_def, h.writableBytes_eq])] at hspace
      rw [if_pos hneed]
      exact h.makeSpace hneed hwrap hspace
    · rw [if_neg (by rwa [BitVec.lt_def, h.writableBytes_eq])] at hspace
      rw [if_neg hneed]
      obtain rfl := Option.some.inj hspace
      exact ⟨h, Traced.all_pure _ _⟩
  refine ⟨hrep.1, ?_⟩
  rw [Traced.all_bind, Traced.all_bind, Traced.all_emit]
  refine ⟨hrep.2, ?_, Traced.all_pure _ _⟩
  rw [Assertion.Holds, BitVec.le_def, hrep.1.writableBytes_eq]
  exact Buffer.writableBytes_ensureWritableBytes buf len.toNat

/-- No object is so long that appending it wraps around. -/
theorem append (h : r.Represents buf) {data : CharVector} {made : Traced Assertion RawBuffer}
    (hmade : r.append data = some made) :
    made.value.Represents (buf.append data.elems) ∧ made.All Assertion.Holds := by
  obtain ⟨made, hspace, rfl⟩ := Option.map_eq_some_iff.mp hmade
  have hwrap : buf.writerIndex + data.size.toNat < 2 ^ 64 := by
    have hwriter := buf.writerIndex_le
    have hmax := h.length_le
    have hdata := data.size_le
    rw [CharVector.toNat_size]
    unfold maxSize at hmax hdata
    omega
  obtain ⟨hrep, hall⟩ := h.ensureWritableBytes hwrap hspace
  rw [CharVector.toNat_size] at hrep
  refine ⟨hrep.write (Buffer.writableBytes_ensureWritableBytes buf _), ?_⟩
  rw [Traced.all_bind]
  exact ⟨hall, Traced.all_pure _ _⟩

/-- Where writerIndex_ + len wraps around, the vector shrinks to end before the write index. -/
theorem ensureWritableBytes_wraps (h : r.Represents buf) {len : SizeT}
    {made : Traced Assertion RawBuffer} (hwrap : 2 ^ 64 ≤ buf.writerIndex + len.toNat)
    (hmade : r.ensureWritableBytes len = some made) :
    ¬ made.value.writerIndex ≤ made.value.buffer.size := by
  have hreader := buf.readerIndex_le
  have hwriter := buf.writerIndex_le
  have hmax := h.length_le
  have hlen := len.isLt
  unfold maxSize at hmax
  obtain ⟨made, hspace, rfl⟩ := Option.map_eq_some_iff.mp hmade
  have hneed : buf.writableBytes < len.toNat := by
    unfold Buffer.writableBytes
    omega
  have hgrows : buf.writableBytes + buf.prependableBytes < len.toNat + kCheapPrepend := by
    unfold Buffer.writableBytes Buffer.prependableBytes
    omega
  rw [if_pos (by rwa [BitVec.lt_def, h.writableBytes_eq]), RawBuffer.makeSpace,
    if_pos ((h.grows_iff len).mpr hgrows)] at hspace
  obtain ⟨v, hv, rfl⟩ := Option.map_eq_some_iff.mp hspace
  obtain ⟨hfits, hv⟩ := Option.dite_none_right_eq_some.mp hv
  obtain rfl := Option.some.inj hv
  simp only [Traced.bind_value, Traced.pure_value, BitVec.le_def, CharVector.toNat_size,
    resize_length, BitVec.toNat_add, h.writerIndex_eq]
  omega

end Represents

end RawBuffer

end AsioMsg
