import AsioMsg.Buffer

/-!
The package header of Package.h and its wire form. In memory the header is a
packed struct of a little-endian host; on the wire every integer is in network
order. The bits iszip and isorder share their storage with extInfo.
-/

namespace AsioMsg

open ByteOrder

/-- The character '`'. -/
def flag0 : Byte := 0x60#8

/-- The character '~'. -/
def flag1 : Byte := 0x7E#8

inductive MsgType
  | REQREP
  | PUBSUB
  | DELIVER
  deriving DecidableEq

def MsgType.code : MsgType → BitVec 16
  | .REQREP => 1
  | .PUBSUB => 2
  | .DELIVER => 3

inductive ErrorCode
  | eSuccess
  | eUnkown
  | eTimeout
  | eDisconnect
  | eServiceStopped
  | eParams
  deriving DecidableEq

structure PacHeader where
  flag : Byte × Byte := (flag0, flag1)
  msgType : BitVec 16 := 0
  typeNameLen : BitVec 16 := 0
  extInfo : BitVec 16 := 0
  msgId : BitVec 32 := 0
  msgSize : BitVec 32 := 0
  pacSize : BitVec 32 := 0
  deriving DecidableEq

def kPackageHeaderSize : ℕ := 20

def kMaxPackageLen : ℤ := 1024 * 1024 * 100

structure Package (M : Type) where
  header : PacHeader := {}
  typeName : Bytes := []
  body : Bytes := []
  msgPtr : Option M := none
  deriving DecidableEq

namespace PacHeader

def iszip (header : PacHeader) : Bool := header.extInfo.getLsbD 0

def isorder (header : PacHeader) : Bool := header.extInfo.getLsbD 1

def setIszip (header : PacHeader) (bit : Bool) : PacHeader :=
  { header with extInfo := if bit then header.extInfo ||| 1#16 else header.extInfo &&& ~~~1#16 }

def setIsorder (header : PacHeader) (bit : Bool) : PacHeader :=
  { header with extInfo := if bit then header.extInfo ||| 2#16 else header.extInfo &&& ~~~2#16 }

/-- The packed struct in the memory of a little-endian host. -/
def toMemory (header : PacHeader) : Bytes :=
  [header.flag.1, header.flag.2] ++ wordBytes 2 header.msgType ++
    wordBytes 2 header.typeNameLen ++ wordBytes 2 header.extInfo ++ wordBytes 4 header.msgId ++
    wordBytes 4 header.msgSize ++ wordBytes 4 header.pacSize

def slice (bs : Bytes) (pos len : ℕ) : Bytes := (bs.drop pos).take len

/-- memcpy of a byte string over the packed struct. -/
def ofMemory (bs : Bytes) : PacHeader where
  flag := (bs.getD 0 0, bs.getD 1 0)
  msgType := ofWordBytes 16 (slice bs 2 2)
  typeNameLen := ofWordBytes 16 (slice bs 4 2)
  extInfo := ofWordBytes 16 (slice bs 6 2)
  msgId := ofWordBytes 32 (slice bs 8 4)
  msgSize := ofWordBytes 32 (slice bs 12 4)
  pacSize := ofWordBytes 32 (slice bs 16 4)

/-- short2net, net2short, int2net and net2int on the six integers. -/
def netOrder (header : PacHeader) : PacHeader :=
  { header with
    msgType := byteSwap 2 header.msgType
    typeNameLen := byteSwap 2 header.typeNameLen
    extInfo := byteSwap 2 header.extInfo
    msgId := byteSwap 4 header.msgId
    msgSize := byteSwap 4 header.msgSize
    pacSize := byteSwap 4 header.pacSize }

def toWire (header : PacHeader) : Bytes := header.netOrder.toMemory

def ofWire (bs : Bytes) : PacHeader := (ofMemory bs).netOrder

@[simp] theorem toMemory_length (header : PacHeader) :
    header.toMemory.length = kPackageHeaderSize := by
  simp [toMemory, kPackageHeaderSize]

@[simp] theorem toWire_length (header : PacHeader) :
    header.toWire.length = kPackageHeaderSize := toMemory_length _

theorem netOrder_netOrder (header : PacHeader) : header.netOrder.netOrder = header := by
  simp only [netOrder, byteSwap_byteSwap 2 _ (show 256 ^ 2 = 2 ^ 16 by decide),
    byteSwap_byteSwap 4 _ (show 256 ^ 4 = 2 ^ 32 by decide)]

theorem ofMemory_toMemory (header : PacHeader) : ofMemory header.toMemory = header := by
  have h2 : ∀ x : BitVec 16, ofWordBytes 16 (wordBytes 2 x) = x :=
    fun x => ofWordBytes_wordBytes 2 x (by decide)
  have h4 : ∀ x : BitVec 32, ofWordBytes 32 (wordBytes 4 x) = x :=
    fun x => ofWordBytes_wordBytes 4 x (by decide)
  change PacHeader.mk (header.flag.1, header.flag.2) (ofWordBytes 16 (wordBytes 2 header.msgType))
    (ofWordBytes 16 (wordBytes 2 header.typeNameLen)) (ofWordBytes 16 (wordBytes 2 header.extInfo))
    (ofWordBytes 32 (wordBytes 4 header.msgId)) (ofWordBytes 32 (wordBytes 4 header.msgSize))
    (ofWordBytes 32 (wordBytes 4 header.pacSize)) = header
  simp only [h2, h4]

theorem ofWire_toWire (header : PacHeader) : ofWire header.toWire = header := by
  rw [ofWire, toWire, ofMemory_toMemory, netOrder_netOrder]

theorem slice_append (bs rest : Bytes) (pos len : ℕ) (h : pos + len ≤ bs.length) :
    slice (bs ++ rest) pos len = slice bs pos len := by
  rw [slice, List.drop_append_of_le_length (by omega),
    List.take_append_of_le_length (by simp only [List.length_drop]; omega), slice]

/-- Only the first 20 bytes are read. -/
theorem ofWire_append (bs rest : Bytes) (h : kPackageHeaderSize ≤ bs.length) :
    ofWire (bs ++ rest) = ofWire bs := by
  unfold kPackageHeaderSize at h
  have h0 : (bs ++ rest).getD 0 0 = bs.getD 0 0 := by
    simp only [List.getD_eq_getElem?_getD, List.getElem?_append_left (show 0 < bs.length by omega)]
  have h1 : (bs ++ rest).getD 1 0 = bs.getD 1 0 := by
    simp only [List.getD_eq_getElem?_getD, List.getElem?_append_left (show 1 < bs.length by omega)]
  simp only [ofWire, ofMemory, h0, h1]
  rw [slice_append bs rest 2 2 (by omega), slice_append bs rest 4 2 (by omega),
    slice_append bs rest 6 2 (by omega), slice_append bs rest 8 4 (by omega),
    slice_append bs rest 12 4 (by omega), slice_append bs rest 16 4 (by omega)]

theorem ofWire_toWire_append (header : PacHeader) (rest : Bytes) :
    ofWire (header.toWire ++ rest) = header := by
  rw [ofWire_append _ _ (Nat.le_of_eq (toWire_length header).symm), ofWire_toWire]

theorem ofWire_take (bs : Bytes) (h : kPackageHeaderSize ≤ bs.length) :
    ofWire (bs.take kPackageHeaderSize) = ofWire bs := by
  have hlen : (bs.take kPackageHeaderSize).length = kPackageHeaderSize := by
    simp only [List.length_take, Nat.min_eq_left h]
  rw [← ofWire_append _ (bs.drop kPackageHeaderSize) (Nat.le_of_eq hlen.symm),
    List.take_append_drop]

theorem slice_append_drop (bs : Bytes) (pos len : ℕ) :
    slice bs pos len ++ bs.drop (pos + len) = bs.drop pos := by
  rw [slice, ← List.drop_drop, List.take_append_drop]

/-- Every 20 bytes are the memory of a header. -/
theorem toMemory_ofMemory (bs : Bytes) (h : bs.length = kPackageHeaderSize) :
    (ofMemory bs).toMemory = bs := by
  unfold kPackageHeaderSize at h
  have hslice : ∀ pos len, pos + len ≤ 20 → (slice bs pos len).length = len := by
    intro pos len hle
    simp only [slice, List.length_take, List.length_drop]
    omega
  have h2 : ∀ pos, pos + 2 ≤ 20 →
      wordBytes 2 (ofWordBytes 16 (slice bs pos 2)) = slice bs pos 2 := by
    intro pos hle
    have hword := wordBytes_ofWordBytes 16 (slice bs pos 2) (by rw [hslice pos 2 hle]; decide)
    rwa [hslice pos 2 hle] at hword
  have h4 : ∀ pos, pos + 4 ≤ 20 →
      wordBytes 4 (ofWordBytes 32 (slice bs pos 4)) = slice bs pos 4 := by
    intro pos hle
    have hword := wordBytes_ofWordBytes 32 (slice bs pos 4) (by rw [hslice pos 4 hle]; decide)
    rwa [hslice pos 4 hle] at hword
  have hflag : [bs.getD 0 0, bs.getD 1 0] ++ bs.drop 2 = bs := by
    match bs, h with
    | x :: y :: rest, _ => rfl
  have hend : slice bs 16 4 = bs.drop 16 := by
    rw [slice, List.take_of_length_le (by simp only [List.length_drop, h]; decide)]
  simp only [toMemory, ofMemory, h2 2 (by decide), h2 4 (by decide), h2 6 (by decide),
    h4 8 (by decide), h4 12 (by decide), h4 16 (by decide), List.append_assoc]
  rw [hend, slice_append_drop bs 12 4, slice_append_drop bs 8 4, slice_append_drop bs 6 2,
    slice_append_drop bs 4 2, slice_append_drop bs 2 2, hflag]

theorem toWire_ofWire (bs : Bytes) (h : kPackageHeaderSize ≤ bs.length) :
    (ofWire bs).toWire = bs.take kPackageHeaderSize := by
  have hlen : (bs.take kPackageHeaderSize).length = kPackageHeaderSize := by
    rw [List.length_take, Nat.min_eq_left h]
  rw [← ofWire_take bs h, ofWire, toWire, netOrder_netOrder, toMemory_ofMemory _ hlen]

theorem iszip_setIszip (header : PacHeader) (bit : Bool) : (header.setIszip bit).iszip = bit := by
  cases bit <;> simp [iszip, setIszip]

/-- Setting the bit and clearing it again restores a header whose bit was clear. -/
theorem setIszip_setIszip (header : PacHeader) (h : header.iszip = false) :
    (header.setIszip true).setIszip false = header := by
  have hbits : (header.extInfo ||| 1#16) &&& ~~~1#16 = header.extInfo := by
    apply BitVec.eq_of_getLsbD_eq
    intro i hi
    rcases Nat.eq_zero_or_pos i with rfl | hpos
    · simpa [iszip] using h.symm
    · have hone : (1#16).getLsbD i = false := by
        rw [BitVec.getLsbD_one]
        simp only [Bool.and_eq_false_iff, decide_eq_false_iff_not]
        omega
      simp only [BitVec.getLsbD_and, BitVec.getLsbD_or, BitVec.getLsbD_not, hone, hi, Bool.or_false,
        decide_true, Bool.not_false, Bool.and_true]
  simp only [setIszip, if_true, Bool.false_eq_true, if_false, hbits]

end PacHeader

def bufferAppendHeader (buffer : Buffer) (header : PacHeader) : Buffer :=
  buffer.append header.netOrder.toMemory

def bufferPeekHeader (mem : Memory) (buffer : Buffer) : PacHeader :=
  (PacHeader.ofMemory (buffer.peekBytes mem kPackageHeaderSize)).netOrder

theorem bufferPeekHeader_eq (mem : Memory) (buffer : Buffer)
    (h : kPackageHeaderSize ≤ buffer.readableBytes) :
    bufferPeekHeader mem buffer = PacHeader.ofWire buffer.readable := by
  rw [bufferPeekHeader, Buffer.peekBytes_eq mem buffer _ h, ← PacHeader.ofWire_take buffer.readable
    (by rwa [Buffer.readable_length]), PacHeader.ofWire]

end AsioMsg
