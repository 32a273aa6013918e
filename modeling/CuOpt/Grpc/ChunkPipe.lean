import CuOpt.Grpc.ArrayChunks
import CuOpt.Library.ByteFrames

/-! The collected chunks of an upload on their way through the worker pipe: one frame for the header
and one for each array. -/

namespace CuOpt.Grpc.Chunks

open ByteFrames

def kMaxPipeArrayBytes : ℕ := 4 * 1024 * 1024 * 1024

def kMaxPipeArrayFields : ℕ := 10000

def kMaxPipeContainerArrays : ℕ := 10000000

def kMaxProtobufMessageBytes : ℕ := 2 ^ 31 - 1

def int64Max : ℤ := 2 ^ 63 - 1

def encodeI32 (x : I32) : List UInt8 := leBytes 4 (x.val % 2 ^ 32).toNat

def decodeI32 (bytes : List UInt8) : I32 :=
  ⟨Int.bmod (ofLeBytes bytes) (2 ^ 32), by
    constructor
    · exact Int.le_bmod (by decide)
    · exact Int.bmod_lt (by decide)⟩

def encodeU32 (n : ℕ) : List UInt8 := leBytes 4 (n % 2 ^ 32)

def encodeU64 (n : ℕ) : List UInt8 := leBytes 8 (n % 2 ^ 64)

structure FieldChunks where
  chunks : List ArrayChunk := []
  totalBytes : ℤ := 0

def FieldChunks.single? (fi : FieldChunks) : Option ArrayChunk :=
  match fi.chunks with
  | [ac] => if ac.elementOffset = 0 ∧ (ac.data.length : ℤ) = fi.totalBytes then some ac else none
  | _ => none

def placeChunk (totalBytes totalElements elemSize : ℤ) (covered : ℕ → Bool) (ac : ArrayChunk) :
    Option (ℕ → Bool) :=
  let size : ℤ := ac.data.length
  let chunkElements := size / elemSize
  if size % elemSize ≠ 0 then none
  else if ac.elementOffset < 0 ∨ chunkElements < 0 then none
  else if totalElements - chunkElements < ac.elementOffset then none
  else if totalBytes < ac.elementOffset * elemSize + size then none
  else markAll covered (List.range' ac.elementOffset.toNat chunkElements.toNat)

def elementWidth (fi : FieldChunks) : Option (ℤ × ℤ) :=
  match fi.chunks with
  | [] => none
  | first :: _ =>
    let totalElements := first.totalElements
    if totalElements ≤ 0 ∨ fi.totalBytes % totalElements ≠ 0 then none
    else if fi.totalBytes / totalElements ≤ 0 then none
    else some (totalElements, fi.totalBytes / totalElements)

def validateFieldChunks (fi : FieldChunks) : Bool :=
  if fi.totalBytes = 0 then true
  else if fi.single?.isSome then true
  else
    match elementWidth fi with
    | none => false
    | some (totalElements, elemSize) =>
      match fi.chunks.foldlM (placeChunk fi.totalBytes totalElements elemSize) fun _ => false with
      | none => false
      | some covered => (List.range totalElements.toNat).all covered

def assembleChunk (totalBytes totalElements elemSize : ℤ) (progress : (ℕ → Bool) × List UInt8)
    (ac : ArrayChunk) : Option ((ℕ → Bool) × List UInt8) :=
  (placeChunk totalBytes totalElements elemSize progress.1 ac).map fun covered =>
    (covered, writeAt progress.2 (ac.elementOffset * elemSize).toNat ac.data)

/-- `none` is the return value `false`. -/
def assembleFieldPayload (fi : FieldChunks) : Option (List UInt8) :=
  if fi.totalBytes = 0 then some []
  else
    match fi.single? with
    | some ac => some ac.data
    | none =>
      match elementWidth fi with
      | none => none
      | some (totalElements, elemSize) =>
        match fi.chunks.foldlM (assembleChunk fi.totalBytes totalElements elemSize)
          ((fun _ => false), List.replicate fi.totalBytes.toNat 0) with
        | none => none
        | some (covered, assembled) =>
          if (List.range totalElements.toNat).all covered then some assembled else none

structure Fields where
  top : SortedMap I32 FieldChunks := .empty
  container : SortedMap ContainerArrayKey FieldChunks := .empty

def chunkKey (ac : ArrayChunk) : ArrayKey :=
  match ac.containerFieldNum with
  | some fieldNum => .container ⟨fieldNum, ac.containerIndex.getD ⟨0, zero_inRange⟩, ac.fieldId⟩
  | none => .top ac.fieldId

def Fields.get (fields : Fields) : ArrayKey → FieldChunks
  | .top fieldId => (fields.top.get? fieldId).getD {}
  | .container key => (fields.container.get? key).getD {}

def Fields.set (fields : Fields) (key : ArrayKey) (fi : FieldChunks) : Fields :=
  match key with
  | .top fieldId => { fields with top := fields.top.insert fieldId fi }
  | .container key => { fields with container := fields.container.insert key fi }

/-- What a chunk says of the size of its array has to agree with the chunks before it. -/
def addChunk (elemSize : ℤ) (fi : FieldChunks) (ac : ArrayChunk) : Option FieldChunks :=
  let fi := { fi with chunks := fi.chunks ++ [ac] }
  let thisBytes := ac.totalElements * elemSize
  if elemSize ≤ 0 then none
  else if ac.totalElements < 0 then none
  else if ac.totalElements = 0 then if ac.data ≠ [] then none else some fi
  else if int64Max / elemSize < ac.totalElements then none
  else if kMaxPipeArrayBytes < thisBytes then none
  else if fi.totalBytes = 0 then some { fi with totalBytes := thisBytes }
  else if fi.totalBytes ≠ thisBytes then none
  else some fi

def binChunk (fields : Fields) (ac : ArrayChunk) : Option Fields :=
  let key := chunkKey ac
  (addChunk key.elementSize (fields.get key) ac).map fun fi => fields.set key fi

structure Protobuf (Header : Type) where
  serialize : Header → List UInt8
  parse : List UInt8 → Option Header

inductive PipeWriteStatus
  | success
  | validationFailed
  | pipeFailed
  deriving DecidableEq

def writePieces : List (Option (List UInt8)) → PipeWriteStatus × List UInt8
  | [] => (.success, [])
  | none :: _ => (.pipeFailed, [])
  | some bytes :: pieces => ((writePieces pieces).1, bytes ++ (writePieces pieces).2)

section Write

variable {Header : Type} (proto : Protobuf Header)

def writeProtobufToPipe (header : Header) : Option (List UInt8) :=
  let bytes := proto.serialize header
  if kMaxProtobufMessageBytes < bytes.length then none
  else some (encodeU32 bytes.length ++ bytes)

def topPieces (p : I32 × FieldChunks) : List (Option (List UInt8)) :=
  [some (encodeI32 p.1), some (encodeU64 p.2.totalBytes.toNat), assembleFieldPayload p.2]

def containerPieces (p : ContainerArrayKey × FieldChunks) : List (Option (List UInt8)) :=
  [some (encodeI32 p.1.containerFieldNum), some (encodeI32 p.1.containerIndex),
    some (encodeI32 p.1.fieldId), some (encodeU64 p.2.totalBytes.toNat), assembleFieldPayload p.2]

def writeChunkedRequestToPipe (header : Header) (chunks : List ArrayChunk) :
    PipeWriteStatus × List UInt8 :=
  if kMaxProtobufMessageBytes < (proto.serialize header).length then (.validationFailed, [])
  else
    match chunks.foldlM binChunk {} with
    | none => (.validationFailed, [])
    | some fields =>
      if kMaxPipeArrayFields < fields.top.size then (.validationFailed, [])
      else if kMaxPipeContainerArrays < fields.container.size then (.validationFailed, [])
      else if ¬fields.top.toList.all fun p => validateFieldChunks p.2 then (.validationFailed, [])
      else if ¬fields.container.toList.all fun p => validateFieldChunks p.2 then
        (.validationFailed, [])
      else
        writePieces ([writeProtobufToPipe proto header, some (encodeU32 fields.top.size)] ++
          fields.top.toList.flatMap topPieces ++ [some (encodeU32 fields.container.size)] ++
          fields.container.toList.flatMap containerPieces)

end Write

section Read

variable {Header : Type} (proto : Protobuf Header)

def readNumber (size : ℕ) (stream : List UInt8) : Option (ℕ × List UInt8) := do
  let (bytes, stream) ← readBytes size stream
  return (ofLeBytes bytes, stream)

def readI32 (stream : List UInt8) : Option (I32 × List UInt8) := do
  let (bytes, stream) ← readBytes 4 stream
  return (decodeI32 bytes, stream)

def readProtobufFromPipe (stream : List UInt8) : Option (Header × List UInt8) := do
  let (size, stream) ← readNumber 4 stream
  if kMaxProtobufMessageBytes < size then none
  let (bytes, stream) ← readBytes size stream
  let header ← proto.parse bytes
  return (header, stream)

def readPayload (stream : List UInt8) : Option (List UInt8 × List UInt8) := do
  let (totalBytes, stream) ← readNumber 8 stream
  if kMaxPipeArrayBytes < totalBytes then none
  readBytes totalBytes stream

def readTopArrays : ℕ → SortedMap I32 (List UInt8) → List UInt8 →
    Option (SortedMap I32 (List UInt8) × List UInt8)
  | 0, arrays, stream => some (arrays, stream)
  | count + 1, arrays, stream => do
    let (fieldId, stream) ← readI32 stream
    let (data, stream) ← readPayload stream
    readTopArrays count (arrays.insert fieldId data) stream

def readContainerArrays : ℕ → SortedMap ContainerArrayKey (List UInt8) → List UInt8 →
    Option (SortedMap ContainerArrayKey (List UInt8) × List UInt8)
  | 0, arrays, stream => some (arrays, stream)
  | count + 1, arrays, stream => do
    let (fieldNum, stream) ← readI32 stream
    let (index, stream) ← readI32 stream
    let (fieldId, stream) ← readI32 stream
    let (data, stream) ← readPayload stream
    readContainerArrays count (arrays.insert ⟨fieldNum, index, fieldId⟩ data) stream

/-- What a worker has read, and the bytes that it has left on the pipe. -/
structure ChunkedRequest (Header : Type) where
  header : Header
  arrays : SortedMap I32 (List UInt8)
  containerArrays : SortedMap ContainerArrayKey (List UInt8)
  rest : List UInt8

def readChunkedRequestFromPipe (stream : List UInt8) : Option (ChunkedRequest Header) := do
  let (header, stream) ← readProtobufFromPipe proto stream
  let (numArrays, stream) ← readNumber 4 stream
  if kMaxPipeArrayFields < numArrays then none
  let (arrays, stream) ← readTopArrays numArrays .empty stream
  let (numContainerArrays, stream) ← readNumber 4 stream
  if kMaxPipeContainerArrays < numContainerArrays then none
  let (containerArrays, stream) ← readContainerArrays numContainerArrays .empty stream
  return ⟨header, arrays, containerArrays, stream⟩

end Read

end CuOpt.Grpc.Chunks
