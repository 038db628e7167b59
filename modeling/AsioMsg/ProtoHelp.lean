import AsioMsg.FlagScan

/-!
ProtoHelp::encode and ProtoHelp::decode. Protobuf and zlib are parameters;
a build fixes them together with the MSGBUS switch. A pass of decode either
returns or, where the source calls decode again, hands on the remaining buffer.
Sizes are those of an LP64 host: int is sign-extended when it becomes a size.
-/

namespace AsioMsg

def INT_MAX : ℕ := 2 ^ 31 - 1

/-- ++id_ % INT_MAX, for the value of id_ before. -/
def nextMsgId (id : BitVec 32) : BitVec 32 := (id + 1).srem (BitVec.ofNat 32 INT_MAX)

/-- What the code uses of a message library over messages `M`. -/
structure Protobuf (M : Type) where
  getTypeName : M → Bytes
  /-- The wire form of a message. -/
  serialize : M → Bytes
  /-- Descriptor lookup, prototype and New() in one; `none` where any of them is null. -/
  newMessage : Bytes → Option M
  parseFromArray : M → Bytes → ℤ → Option M
  /-- Nothing of the array is read when the size is negative. -/
  parseFromArray_negative : ∀ msg data data' size, size < 0 →
    parseFromArray msg data size = parseFromArray msg data' size

/-- compress and uncompress return `none` where zlib does not return Z_OK. -/
structure Zlib where
  compress : Bytes → Option Bytes
  uncompress : Bytes → ℕ → Option Bytes
  uncompress_length : ∀ source size out, uncompress source size = some out → out.length ≤ size

structure Build (M : Type) where
  protobuf : Protobuf M
  zlib : Zlib
  MSGBUS : Bool

variable {M : Type}

namespace Protobuf

def byteSizeLong (pb : Protobuf M) (msg : M) : ℕ := (pb.serialize msg).length

/-- Fails for messages past 2 GiB. -/
def serializePartialToArray (pb : Protobuf M) (msg : M) : Option Bytes :=
  if pb.byteSizeLong msg ≤ INT_MAX then some (pb.serialize msg) else none

def Registered (pb : Protobuf M) (msg : M) : Prop := (pb.newMessage (pb.getTypeName msg)).isSome

/-- Parsing undoes serializing for every message of a registered type. -/
def ParseUndoesSerialize (pb : Protobuf M) : Prop :=
  ∀ msg proto, pb.newMessage (pb.getTypeName msg) = some proto →
    pb.parseFromArray proto (pb.serialize msg) (pb.serialize msg).length = some msg

end Protobuf

def Zlib.UncompressUndoesCompress (z : Zlib) : Prop :=
  ∀ content out, z.compress content = some out → z.uncompress out content.length = some content

/-- An int or long used as a size_t. -/
def sizeT (n : ℤ) : ℕ := (n % 2 ^ 64).toNat

theorem sizeT_of_nonneg (n : ℤ) (h : 0 ≤ n) (hlt : n < 2 ^ 64) : sizeT n = n.toNat := by
  rw [sizeT, Int.emod_eq_of_lt h hlt]

/-- The bytes that the size counts decide, none when it is negative. -/
theorem Protobuf.parseFromArray_peek (pb : Protobuf M) (msg : M) (peek : ℕ → Bytes)
    (size : BitVec 32) : pb.parseFromArray msg (peek (sizeT size.toInt)) size.toInt =
      pb.parseFromArray msg (peek size.toInt.toNat) size.toInt := by
  by_cases hneg : size.toInt < 0
  · exact pb.parseFromArray_negative msg _ _ _ hneg
  · have hlt := size.toInt_lt
    rw [sizeT_of_nonneg _ (by omega) (by omega)]

def hasPrefixString (s pre : Bytes) : Bool :=
  decide (pre.length ≤ s.length) && (s.take pre.length == pre)

/-- The string "ProtoBase". -/
def protoBase : Bytes := [0x50, 0x72, 0x6F, 0x74, 0x6F, 0x42, 0x61, 0x73, 0x65]

/-- `len` bytes from the first character of `s` on. -/
def stringBytes (mem : Memory) (s : Bytes) (len : ℕ) : Bytes :=
  (s ++ (List.range len).map (mem.pastString s)).take len

/-- Appending `len` characters of `s`. A negative short becomes a size that no vector has. -/
def appendString (mem : Memory) (buffer : Buffer) (s : Bytes) (len : BitVec 16) : Option Buffer :=
  if len.toInt < 0 then none else some (buffer.append (stringBytes mem s len.toNat))

/-- A written frame with the package as encode leaves it, a returned false, or
a call without a defined result (a null message, a negative length). -/
inductive Encoded (M : Type)
  | frame (package : Package M) (buffer : Buffer)
  | refused
  | undefined
  deriving DecidableEq

def Encoded.isFrame : Encoded M → Bool
  | .frame _ _ => true
  | _ => false

namespace Build

def createMessage (b : Build M) (typeName : Bytes) : Option M := b.protobuf.newMessage typeName

/-- A package whose bytes the bus passes on without looking at the message. -/
def passesThrough (b : Build M) (typeName : Bytes) : Bool :=
  b.MSGBUS && !hasPrefixString typeName protoBase

/-- The header and the content after the compression branch of encode. -/
def compressContent (b : Build M) (enableCompressSize : BitVec 32) (header : PacHeader)
    (content : Bytes) : PacHeader × Bytes :=
  if 0 ≤ enableCompressSize.toInt ∧
      enableCompressSize.toInt < (BitVec.ofNat 32 content.length).toInt then
    match b.zlib.compress content with
    | some out => (header.setIszip true, out)
    | none => (header, content)
  else (header, content)

def encode (b : Build M) (mem : Memory) (enableCompressSize : BitVec 32) (package : Package M)
    (buffer : Buffer) : Encoded M :=
  if package.typeName = [] then .refused
  else if b.passesThrough package.typeName then
    match appendString mem (bufferAppendHeader buffer package.header) package.typeName
        package.header.typeNameLen with
    | none => .undefined
    | some buffer => .frame package (buffer.append package.body)
  else
    match package.msgPtr with
    | none => .undefined
    | some msg =>
      match b.protobuf.serializePartialToArray msg with
      | none => .refused
      | some serialized =>
        let (header, content) := b.compressContent enableCompressSize package.header serialized
        let typeName := b.protobuf.getTypeName msg
        let header := { header with
          typeNameLen := BitVec.ofNat 16 typeName.length
          msgSize := BitVec.ofNat 32 (b.protobuf.byteSizeLong msg)
          pacSize := BitVec.ofNat 32 (kPackageHeaderSize + typeName.length + content.length) }
        match appendString mem (bufferAppendHeader buffer header) typeName header.typeNameLen with
        | none => .undefined
        | some buffer =>
          .frame { package with header := header, typeName := typeName } (buffer.append content)

/-- The bytes that encode writes for a package, into an empty buffer. -/
def bytesOf (b : Build M) (mem : Memory) (enableCompressSize : BitVec 32) (package : Package M) :
    Option Bytes :=
  match b.encode mem enableCompressSize package Buffer.empty with
  | .frame _ out => some out.readable
  | _ => none

theorem bytesOf_of_frame {b : Build M} {mem : Memory} {enableCompressSize : BitVec 32}
    {package sent : Package M} {out : Buffer}
    (h : b.encode mem enableCompressSize package Buffer.empty = .frame sent out) :
    b.bytesOf mem enableCompressSize package = some out.readable := by
  rw [bytesOf, h]

end Build

/-- A package, a null pointer, or std::length_error thrown by a string or vector. -/
inductive Decoded (M : Type)
  | package (package : Package M)
  | null
  | lengthError
  deriving DecidableEq

inductive Pass (M : Type)
  | done (result : Decoded M) (buf : Buffer)
  | again (buf : Buffer)

namespace Build

/-- The MSGBUS branch: the rest of the frame is the opaque body. -/
def decodeOpaque (header : PacHeader) (typeName : Bytes) (buf : Buffer) :
    Traced Access (Pass M) := do
  let remainSize := header.pacSize.toInt - kPackageHeaderSize - header.typeNameLen.toInt
  Traced.emit (.toUnsigned remainSize)
  if remainSize < 0 then
    return .done .lengthError buf
  else
    Traced.emit (.range remainSize buf.readableBytes)
    let (bytes, buf) ← buf.read (decide (remainSize ≠ 0)) remainSize.toNat
    let body := bytes.getD (List.replicate remainSize.toNat 0#8)
    return .done (.package { header := header, typeName := typeName, body := body }) buf

/-- The end of decode: consume the body of a message that parsed. -/
def finishMessage (header : PacHeader) (typeName : Bytes) (remainSize : ℤ) (parsed : Option M)
    (buf : Buffer) : Traced Access (Pass M) :=
  match parsed with
  | some msg => do
    Traced.emit (.toUnsigned remainSize)
    let buf ← buf.retrieve (sizeT remainSize)
    return .done (.package { header := header, typeName := typeName, msgPtr := some msg }) buf
  | none => return .done .null buf

def decodeMessage (b : Build M) (mem : Memory) (header : PacHeader) (typeName : Bytes) (msg : M)
    (buf : Buffer) : Traced Access (Pass M) := do
  let remainSize := header.pacSize.toInt - kPackageHeaderSize - header.typeNameLen.toInt
  if header.iszip then
    let bufferSize := header.msgSize.toInt
    Traced.emit (.toUnsigned bufferSize)
    if bufferSize < 0 then
      return .done .lengthError buf
    else
      Traced.emit (.toUnsigned remainSize)
      Traced.emit (.range remainSize buf.readableBytes)
      match b.zlib.uncompress (buf.peekBytes mem (sizeT remainSize)) bufferSize.toNat with
      | some content =>
        Traced.emit (.range content.length bufferSize.toNat)
        let header := { header.setIszip false with
          pacSize := BitVec.ofInt 32
            (kPackageHeaderSize + header.typeNameLen.toInt + header.msgSize.toInt) }
        finishMessage header typeName remainSize
          (b.protobuf.parseFromArray msg content content.length) buf
      | none => finishMessage header typeName remainSize none buf
  else
    Traced.emit (.range header.msgSize.toInt buf.readableBytes)
    finishMessage header typeName remainSize
      (b.protobuf.parseFromArray msg (buf.peekBytes mem (sizeT header.msgSize.toInt))
        header.msgSize.toInt) buf

/-- decode behind the size checks: the type name and what it selects. -/
def decodeNamed (b : Build M) (mem : Memory) (header : PacHeader) (buf : Buffer) :
    Traced Access (Pass M) := do
  let (typeName, buf) ← buf.retrieveAsString mem header.typeNameLen.toNat
  if b.passesThrough typeName then
    decodeOpaque header typeName buf
  else
    match b.createMessage typeName with
    | none => return .again buf
    | some msg => b.decodeMessage mem header typeName msg buf

/-- pacSize outside 0..kMaxPackageLen. -/
def badPacSize (header : PacHeader) : Bool :=
  decide (header.pacSize.toInt < 0) || decide (kMaxPackageLen < header.pacSize.toInt)

/-- typeNameLen outside 1..1024. -/
def badTypeNameLen (header : PacHeader) : Bool :=
  decide (header.typeNameLen.toInt ≤ 0) || decide (1024 < header.typeNameLen.toInt)

/-- One activation of decode up to its return or its call of itself. -/
def decodePass (b : Build M) (mem : Memory) (buf : Buffer) : Traced Access (Pass M) := do
  let (found, buf) ← gotoFlag mem buf
  if found then
    let header := bufferPeekHeader mem buf
    if buf.readableBytes < sizeT header.pacSize.toInt then
      return .done .null buf
    else
      let buf ← buf.retrieve kPackageHeaderSize
      if badPacSize header || badTypeNameLen header then
        return .again buf
      else
        b.decodeNamed mem header buf
  else
    return .done .null buf

end Build

end AsioMsg
