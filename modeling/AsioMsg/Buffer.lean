import AsioMsg.Lib.ByteOrder
import AsioMsg.Lib.Traced
import Mathlib.Data.Int.Notation

/-!
The byte buffer of Buffer.h: a vector with a read and a write index. The
order of the two indices and the end of the vector is part of the type, so
every operation has to keep it. Reads past the write index see the stale
bytes of the vector, and past its end whatever the memory holds.
-/

namespace AsioMsg

def kCheapPrepend : ℕ := 0

def kInitialSize : ℕ := 4096

structure Buffer where
  buffer : Bytes
  readerIndex : ℕ
  writerIndex : ℕ
  readerIndex_le : readerIndex ≤ writerIndex
  writerIndex_le : writerIndex ≤ buffer.length
  deriving DecidableEq

/-- What an over-long read finds behind the vector of a buffer or behind the
characters of a string. -/
structure Memory where
  pastBuffer : Buffer → ℕ → Byte
  pastString : Bytes → ℕ → Byte

/-- What the code relies on when it touches the buffer: the leading assertions
of retrieve and retrieveAsString, the range a pointer and a length denote
against the bytes that are really there, and an int passed as a size. -/
inductive Access
  | retrieve (len readable : ℕ)
  | retrieveAsString (len readable : ℕ)
  | range (len : ℤ) (available : ℕ)
  | toUnsigned (n : ℤ)
  deriving DecidableEq

def Access.Safe : Access → Prop
  | .retrieve len readable => len ≤ readable
  | .retrieveAsString len readable => len ≤ readable
  | .range len available => 0 ≤ len ∧ len ≤ available
  | .toUnsigned n => 0 ≤ n

instance (a : Access) : Decidable a.Safe := by
  cases a <;> unfold Access.Safe <;> infer_instance

/-- std::vector::resize: new elements are zero. -/
def resize (v : Bytes) (n : ℕ) : Bytes := v.take n ++ List.replicate (n - v.length) 0#8

/-- std::copy of `data` to position `pos`. -/
def copyTo (v : Bytes) (pos : ℕ) (data : Bytes) : Bytes :=
  v.take pos ++ data ++ v.drop (pos + data.length)

@[simp] theorem resize_length (v : Bytes) (n : ℕ) : (resize v n).length = n := by
  simp only [resize, List.length_append, List.length_take, List.length_replicate]
  omega

theorem copyTo_length (v : Bytes) (pos : ℕ) (data : Bytes) (h : pos + data.length ≤ v.length) :
    (copyTo v pos data).length = v.length := by
  simp only [copyTo, List.length_append, List.length_take, List.length_drop]
  omega

theorem take_resize (v : Bytes) (m n : ℕ) (hm : m ≤ v.length) (hn : m ≤ n) :
    (resize v n).take m = v.take m := by
  rw [resize, List.take_append_of_le_length (by simp only [List.length_take]; omega),
    List.take_take, Nat.min_eq_left hn]

theorem take_copyTo (v : Bytes) (pos : ℕ) (data : Bytes) (h : pos ≤ v.length) :
    (copyTo v pos data).take (pos + data.length) = v.take pos ++ data := by
  have hlen : (v.take pos ++ data).length = pos + data.length := by
    simp only [List.length_append, List.length_take]
    omega
  rw [copyTo, ← hlen, List.take_left]

namespace Buffer

def empty : Buffer where
  buffer := List.replicate (kCheapPrepend + kInitialSize) 0#8
  readerIndex := kCheapPrepend
  writerIndex := kCheapPrepend
  readerIndex_le := Nat.le_refl _
  writerIndex_le := by simp [kCheapPrepend]

def readableBytes (buf : Buffer) : ℕ := buf.writerIndex - buf.readerIndex

def writableBytes (buf : Buffer) : ℕ := buf.buffer.length - buf.writerIndex

def prependableBytes (buf : Buffer) : ℕ := buf.readerIndex

/-- The bytes between the two indices. -/
def readable (buf : Buffer) : Bytes := (buf.buffer.take buf.writerIndex).drop buf.readerIndex

/-- The `len` bytes from peek() on, wherever they lie. -/
def peekBytes (mem : Memory) (buf : Buffer) (len : ℕ) : Bytes :=
  ((buf.buffer ++ (List.range len).map (mem.pastBuffer buf)).drop buf.readerIndex).take len

def retrieveAll (buf : Buffer) : Buffer where
  buffer := buf.buffer
  readerIndex := kCheapPrepend
  writerIndex := kCheapPrepend
  readerIndex_le := Nat.le_refl _
  writerIndex_le := Nat.zero_le _

def retrieve (buf : Buffer) (len : ℕ) : Traced Access Buffer := do
  Traced.emit (.retrieve len buf.readableBytes)
  if h : len < buf.readableBytes then
    return { buf with
      readerIndex := buf.readerIndex + len
      readerIndex_le := by unfold readableBytes at h; omega }
  else
    return buf.retrieveAll

def retrieveAsString (mem : Memory) (buf : Buffer) (len : ℕ) : Traced Access (Bytes × Buffer) := do
  Traced.emit (.retrieveAsString len buf.readableBytes)
  let result := buf.peekBytes mem len
  let buf ← buf.retrieve len
  return (result, buf)

/-- Copies out and consumes `len` bytes when the destination is not null and they are there. -/
def read (buf : Buffer) (data : Bool) (len : ℕ) : Traced Access (Option Bytes × Buffer) :=
  if data ∧ len ≤ buf.readableBytes then do
    let result := buf.readable.take len
    let buf ← buf.retrieve len
    return (some result, buf)
  else
    return (none, buf)

/-- Room for `len` more bytes: grow the vector, or slide the readable bytes to its front. -/
def makeSpace (buf : Buffer) (len : ℕ) : Buffer :=
  if buf.writableBytes + buf.prependableBytes < len + kCheapPrepend then
    { buf with
      buffer := resize buf.buffer (buf.writerIndex + len)
      writerIndex_le := by rw [resize_length]; omega }
  else
    { buffer := copyTo buf.buffer kCheapPrepend buf.readable
      readerIndex := kCheapPrepend
      writerIndex := kCheapPrepend + buf.readableBytes
      readerIndex_le := Nat.le_add_right _ _
      writerIndex_le := by
        have h1 := buf.readerIndex_le
        have h2 := buf.writerIndex_le
        simp only [copyTo, readable, readableBytes, kCheapPrepend, List.length_append,
          List.length_take, List.length_drop]
        omega }

def ensureWritableBytes (buf : Buffer) (len : ℕ) : Buffer :=
  if buf.writableBytes < len then buf.makeSpace len else buf

def append (buf : Buffer) (data : Bytes) : Buffer :=
  let buf := buf.ensureWritableBytes data.length
  { buffer := copyTo buf.buffer buf.writerIndex data
    readerIndex := buf.readerIndex
    writerIndex := buf.writerIndex + data.length
    readerIndex_le := Nat.le_trans buf.readerIndex_le (Nat.le_add_right _ _)
    writerIndex_le := by
      have h := buf.writerIndex_le
      simp only [copyTo, List.length_append, List.length_take, List.length_drop]
      omega }

@[simp] theorem readable_length (buf : Buffer) : buf.readable.length = buf.readableBytes := by
  have h := buf.writerIndex_le
  simp only [readable, readableBytes, List.length_drop, List.length_take]
  omega

@[simp] theorem readable_empty : empty.readable = [] := by
  simp [readable, empty, kCheapPrepend]

@[simp] theorem readable_retrieveAll (buf : Buffer) : buf.retrieveAll.readable = [] := by
  simp [readable, retrieveAll, kCheapPrepend]

@[simp] theorem retrieve_log (buf : Buffer) (len : ℕ) :
    (buf.retrieve len).log = [.retrieve len buf.readableBytes] := by
  unfold retrieve
  split <;> rfl

@[simp] theorem readable_retrieve (buf : Buffer) (len : ℕ) :
    (buf.retrieve len).value.readable = buf.readable.drop len := by
  unfold retrieve
  split
  · simp only [Traced.bind_value, Traced.pure_value, readable, List.drop_drop]
  · next h =>
    simp only [Traced.bind_value, Traced.pure_value, readable_retrieveAll]
    rw [List.drop_of_length_le (by rw [readable_length]; omega)]

@[simp] theorem readableBytes_retrieve (buf : Buffer) (len : ℕ) :
    (buf.retrieve len).value.readableBytes = buf.readableBytes - len := by
  rw [← readable_length, readable_retrieve, List.length_drop, readable_length]

/-- A peek within the readable bytes sees exactly them. -/
theorem peekBytes_eq (mem : Memory) (buf : Buffer) (len : ℕ) (h : len ≤ buf.readableBytes) :
    buf.peekBytes mem len = buf.readable.take len := by
  have h1 := buf.readerIndex_le
  have h2 := buf.writerIndex_le
  unfold readableBytes at h
  rw [peekBytes, readable, List.drop_append_of_le_length (by omega),
    List.take_append_of_le_length (by simp only [List.length_drop]; omega), List.drop_take,
    List.take_take, Nat.min_eq_left h]

@[simp] theorem retrieveAsString_log (mem : Memory) (buf : Buffer) (len : ℕ) :
    (buf.retrieveAsString mem len).log =
      [.retrieveAsString len buf.readableBytes, .retrieve len buf.readableBytes] := by
  simp [retrieveAsString]

theorem readable_makeSpace (buf : Buffer) (len : ℕ) :
    (buf.makeSpace len).readable = buf.readable := by
  have h1 := buf.readerIndex_le
  have h2 := buf.writerIndex_le
  unfold makeSpace
  split
  · simp only [readable]
    rw [take_resize _ _ _ h2 (Nat.le_add_right _ _)]
  · have h := take_copyTo buf.buffer 0 buf.readable (Nat.zero_le _)
    rw [readable_length, List.take_zero, List.nil_append] at h
    simpa only [readable, kCheapPrepend, List.drop_zero] using h

/-- After makeSpace the room asked for is there. -/
theorem writableBytes_makeSpace (buf : Buffer) (len : ℕ) :
    len ≤ (buf.makeSpace len).writableBytes := by
  have h1 := buf.readerIndex_le
  have h2 := buf.writerIndex_le
  unfold makeSpace
  split
  · simp only [writableBytes, resize_length]
    omega
  · next h =>
    simp only [writableBytes, prependableBytes, kCheapPrepend] at h
    simp only [writableBytes, kCheapPrepend]
    rw [copyTo_length _ _ _ (by rw [readable_length]; unfold readableBytes; omega)]
    unfold readableBytes
    omega

@[simp] theorem readable_ensureWritableBytes (buf : Buffer) (len : ℕ) :
    (buf.ensureWritableBytes len).readable = buf.readable := by
  unfold ensureWritableBytes
  split
  · exact readable_makeSpace buf len
  · rfl

theorem writableBytes_ensureWritableBytes (buf : Buffer) (len : ℕ) :
    len ≤ (buf.ensureWritableBytes len).writableBytes := by
  unfold ensureWritableBytes
  split
  · exact writableBytes_makeSpace buf len
  · omega

/-- Copies `data` to beginWrite() and calls hasWritten. -/
def write (buf : Buffer) (data : Bytes) : Buffer where
  buffer := copyTo buf.buffer buf.writerIndex data
  readerIndex := buf.readerIndex
  writerIndex := buf.writerIndex + data.length
  readerIndex_le := Nat.le_trans buf.readerIndex_le (Nat.le_add_right _ _)
  writerIndex_le := by
    have h := buf.writerIndex_le
    simp only [copyTo, List.length_append, List.length_take, List.length_drop]
    omega

def prepend (buf : Buffer) (data : Bytes) : Buffer where
  buffer := copyTo buf.buffer (buf.readerIndex - data.length) data
  readerIndex := buf.readerIndex - data.length
  writerIndex := buf.writerIndex
  readerIndex_le := Nat.le_trans (Nat.sub_le _ _) buf.readerIndex_le
  writerIndex_le := by
    have h := buf.writerIndex_le
    simp only [copyTo, List.length_append, List.length_take, List.length_drop]
    omega

theorem append_eq_write (buf : Buffer) (data : Bytes) :
    buf.append data = (buf.ensureWritableBytes data.length).write data :=
  rfl

@[simp] theorem readable_write (buf : Buffer) (data : Bytes) :
    (buf.write data).readable = buf.readable ++ data := by
  have h1 := buf.readerIndex_le
  have h2 := buf.writerIndex_le
  simp only [write, readable]
  rw [take_copyTo _ _ _ h2, List.drop_append_of_le_length]
  simp only [List.length_take]
  omega

@[simp] theorem readable_append (buf : Buffer) (data : Bytes) :
    (buf.append data).readable = buf.readable ++ data := by
  rw [append_eq_write, readable_write, readable_ensureWritableBytes]

/-- The bytes in front of the read index give way to `data`. -/
theorem readable_prepend (buf : Buffer) (data : Bytes) (h : data.length ≤ buf.prependableBytes) :
    (buf.prepend data).readable = data ++ buf.readable := by
  have h1 := buf.readerIndex_le
  have h2 := buf.writerIndex_le
  have hlen : (buf.buffer.take (buf.readerIndex - data.length)).length =
      buf.readerIndex - data.length := by
    rw [List.length_take]
    omega
  have hdrop : (copyTo buf.buffer (buf.readerIndex - data.length) data).drop
      (buf.readerIndex - data.length) = data ++ buf.buffer.drop buf.readerIndex := by
    unfold prependableBytes at h
    rw [copyTo, List.append_assoc, List.drop_left' hlen, Nat.sub_add_cancel h]
  have hcount : buf.writerIndex - (buf.readerIndex - data.length) =
      data.length + (buf.writerIndex - buf.readerIndex) := by
    unfold prependableBytes at h
    omega
  rw [readable, prepend, List.drop_take, hdrop, hcount, List.take_length_add_append, readable,
    List.drop_take]

theorem readable_empty_append (data : Bytes) : (empty.append data).readable = data := by
  rw [readable_append, readable_empty, List.nil_append]

end Buffer

end AsioMsg
