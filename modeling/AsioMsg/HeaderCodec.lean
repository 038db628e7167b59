import AsioMsg.Package

/-!
The header codec in both directions. bufferAppendHeader swaps the bytes of a
copy of the header; bufferPeekHeader copies 20 bytes over its header and swaps
the fields in place. Written out over what they get by reference they are the
pure functions of the package header.
-/

namespace AsioMsg

open ByteOrder

/-- ProtoHelp's conversions, on a little-endian host. -/
def short2net (i : BitVec 16) : BitVec 16 := byteSwap 2 i

def net2short (i : BitVec 16) : BitVec 16 := byteSwap 2 i

def int2net (i : BitVec 32) : BitVec 32 := byteSwap 4 i

def net2int (i : BitVec 32) : BitVec 32 := byteSwap 4 i

/-- What both functions get by reference. -/
structure HeaderArgs where
  buffer : Buffer
  header : PacHeader

namespace HeaderArgs

def appendHeader (args : HeaderArgs) : HeaderArgs :=
  let newHeader := args.header
  let newHeader := { newHeader with msgType := short2net args.header.msgType }
  let newHeader := { newHeader with typeNameLen := short2net args.header.typeNameLen }
  let newHeader := { newHeader with extInfo := short2net args.header.extInfo }
  let newHeader := { newHeader with msgId := int2net args.header.msgId }
  let newHeader := { newHeader with msgSize := int2net args.header.msgSize }
  let newHeader := { newHeader with pacSize := int2net args.header.pacSize }
  { args with buffer := args.buffer.append newHeader.toMemory }

def peekHeader (mem : Memory) (args : HeaderArgs) : HeaderArgs :=
  let header := PacHeader.ofMemory (args.buffer.peekBytes mem kPackageHeaderSize)
  let header := { header with msgType := net2short header.msgType }
  let header := { header with typeNameLen := net2short header.typeNameLen }
  let header := { header with extInfo := net2short header.extInfo }
  let header := { header with msgId := net2int header.msgId }
  let header := { header with msgSize := net2int header.msgSize }
  let header := { header with pacSize := net2int header.pacSize }
  { args with header := header }

theorem appendHeader_eq (args : HeaderArgs) :
    args.appendHeader = { args with buffer := bufferAppendHeader args.buffer args.header } :=
  rfl

theorem peekHeader_eq (mem : Memory) (args : HeaderArgs) :
    args.peekHeader mem = { args with header := bufferPeekHeader mem args.buffer } :=
  rfl

end HeaderArgs

/-- The k bytes of the integer stand in `bs` from `pos` on, the most significant one first. -/
def BigEndianAt (bs : Bytes) (pos k : ℕ) {w : ℕ} (x : BitVec w) : Prop :=
  ∀ j < k, bs[pos + j]? = some (BitVec.ofNat 8 (x.toNat / 256 ^ (k - 1 - j)))

/-- The wire form of a header, byte for byte. -/
structure IsWire (header : PacHeader) (bs : Bytes) : Prop where
  length_eq : bs.length = kPackageHeaderSize
  flag_fst : bs[0]? = some header.flag.1
  flag_snd : bs[1]? = some header.flag.2
  msgType : BigEndianAt bs 2 2 header.msgType
  typeNameLen : BigEndianAt bs 4 2 header.typeNameLen
  extInfo : BigEndianAt bs 6 2 header.extInfo
  msgId : BigEndianAt bs 8 4 header.msgId
  msgSize : BigEndianAt bs 12 4 header.msgSize
  pacSize : BigEndianAt bs 16 4 header.pacSize
  iszip : (bs.getD 7 0).getLsbD 0 = header.iszip
  isorder : (bs.getD 7 0).getLsbD 1 = header.isorder

/-- A word stored with its bytes swapped. -/
theorem bigEndianAt_of_slice {bs : Bytes} {pos k : ℕ} {w : ℕ} {x : BitVec w}
    (hw : 256 ^ k = 2 ^ w) (h : PacHeader.slice bs pos k = wordBytes k (byteSwap k x)) :
    BigEndianAt bs pos k x := by
  intro j hj
  rw [wordBytes_byteSwap k x hw] at h
  have hget : (PacHeader.slice bs pos k)[j]? = bs[pos + j]? := by
    rw [PacHeader.slice, List.getElem?_take_of_lt hj, List.getElem?_drop]
  rw [← hget, h, List.getElem?_reverse (by rw [wordBytes_length]; exact hj), wordBytes_length,
    wordBytes, getElem_leBytes _ _ _ (by omega)]

theorem isWire_toWire (header : PacHeader) : IsWire header header.toWire := by
  have hextInfo : BigEndianAt header.toWire 6 2 header.extInfo :=
    bigEndianAt_of_slice (by decide) rfl
  -- the low byte of extInfo comes second
  have hbit : ∀ i < 8, (header.toWire.getD 7 0).getLsbD i = header.extInfo.getLsbD i := by
    intro i hi
    rw [List.getD_eq_getElem?_getD, hextInfo 1 (by decide), Option.getD_some, BitVec.getLsbD_ofNat,
      decide_eq_true hi, Bool.true_and, Nat.sub_self, Nat.pow_zero, Nat.div_one,
      BitVec.testBit_toNat]
  exact {
    length_eq := PacHeader.toWire_length header
    flag_fst := rfl
    flag_snd := rfl
    msgType := bigEndianAt_of_slice (by decide) rfl
    typeNameLen := bigEndianAt_of_slice (by decide) rfl
    extInfo := hextInfo
    msgId := bigEndianAt_of_slice (by decide) rfl
    msgSize := bigEndianAt_of_slice (by decide) rfl
    pacSize := bigEndianAt_of_slice (by decide) rfl
    iszip := hbit 0 (by decide)
    isorder := hbit 1 (by decide) }

theorem peekHeader_of_readable (mem : Memory) (args : HeaderArgs) (bs rest : Bytes)
    (hlen : bs.length = kPackageHeaderSize) (hbuf : args.buffer.readable = bs ++ rest) :
    args.peekHeader mem = { args with header := PacHeader.ofWire bs } := by
  have hlong : kPackageHeaderSize ≤ args.buffer.readableBytes := by
    rw [← Buffer.readable_length, hbuf, List.length_append]
    omega
  rw [HeaderArgs.peekHeader_eq, bufferPeekHeader_eq mem _ hlong, hbuf,
    PacHeader.ofWire_append bs rest (Nat.le_of_eq hlen.symm)]

/-- What bufferAppendHeader appends is the wire form of its header, and bufferPeekHeader reads the
header back from it; and what bufferPeekHeader reads from any 20 bytes is appended as these. The
header passed in and the buffer peeked at stay as they are. -/
theorem header_codec (mem : Memory) :
    (∀ args : HeaderArgs, ∃ bs, IsWire args.header bs ∧
      args.appendHeader.buffer.readable = args.buffer.readable ++ bs ∧
      args.appendHeader.header = args.header ∧
      ∀ (other : HeaderArgs) (rest : Bytes), other.buffer.readable = bs ++ rest →
        (other.peekHeader mem).header = args.header ∧
        (other.peekHeader mem).header.iszip = args.header.iszip ∧
        (other.peekHeader mem).header.isorder = args.header.isorder ∧
        (other.peekHeader mem).buffer = other.buffer) ∧
    ∀ (args : HeaderArgs) (bs rest : Bytes), bs.length = kPackageHeaderSize →
      args.buffer.readable = bs ++ rest →
      (args.peekHeader mem).buffer = args.buffer ∧ IsWire (args.peekHeader mem).header bs ∧
      ∀ buffer : Buffer,
        (HeaderArgs.mk buffer (args.peekHeader mem).header).appendHeader.buffer.readable =
          buffer.readable ++ bs := by
  constructor
  · intro args
    refine ⟨args.header.toWire, isWire_toWire args.header, ?_, rfl, ?_⟩
    · rw [HeaderArgs.appendHeader_eq, bufferAppendHeader, Buffer.readable_append, PacHeader.toWire]
    · intro other rest hbuf
      rw [peekHeader_of_readable mem other _ rest (PacHeader.toWire_length _) hbuf,
        PacHeader.ofWire_toWire]
      exact ⟨rfl, rfl, rfl, rfl⟩
  · intro args bs rest hlen hbuf
    have hwire : (PacHeader.ofWire bs).toWire = bs := by
      rw [PacHeader.toWire_ofWire bs (Nat.le_of_eq hlen.symm), ← hlen, List.take_length]
    rw [peekHeader_of_readable mem args bs rest hlen hbuf]
    refine ⟨rfl, ?_, fun buffer => ?_⟩
    · have hisWire := isWire_toWire (PacHeader.ofWire bs)
      rwa [hwire] at hisWire
    · rw [HeaderArgs.appendHeader_eq, bufferAppendHeader, Buffer.readable_append,
        ← PacHeader.toWire, hwire]

end AsioMsg
