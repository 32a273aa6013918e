import CuOpt.Grpc.ChunkDelivery

/-! `write_chunked_request_to_pipe` for any chunks whatsoever, with a fault where an `int64_t` would
overflow or a buffer would be left, and a pipe whose writes may fail. -/

namespace CuOpt.Grpc.Chunks

open ByteFrames

inductive Fault
  | int64Overflow
  | outOfRange
  deriving DecidableEq

abbrev Checked := Except Fault

def int64Min : ℤ := -2 ^ 63

def int64 (x : ℤ) : Checked ℤ :=
  if x < int64Min ∨ int64Max < x then .error .int64Overflow else .ok x

abbrev Message := { ac : ArrayChunk // (ac.data.length : ℤ) ≤ int64Max }

def markChecked (totalElements elementOffset : ℤ) : ℕ → ℤ → (ℕ → Bool) → Checked (Option (ℕ → Bool))
  | 0, _, covered => .ok (some covered)
  | count + 1, e, covered =>
    match int64 (elementOffset + e) with
    | .error fault => .error fault
    | .ok idx =>
      if idx < 0 ∨ totalElements ≤ idx then .error .outOfRange
      else if covered idx.toNat then .ok none
      else markChecked totalElements elementOffset count (e + 1)
        (Function.update covered idx.toNat true)

def placeChecked (totalBytes totalElements elemSize : ℤ) (covered : ℕ → Bool) (ac : ArrayChunk) :
    Checked (Option (ℕ → Bool)) :=
  let size : ℤ := ac.data.length
  if size % elemSize ≠ 0 then .ok none
  else
    let chunkElements := size / elemSize
    if ac.elementOffset < 0 ∨ chunkElements < 0 then .ok none
    else
      match int64 (totalElements - chunkElements) with
      | .error fault => .error fault
      | .ok room =>
        if room < ac.elementOffset then .ok none
        else
          match int64 (ac.elementOffset * elemSize) with
          | .error fault => .error fault
          | .ok byteOffset =>
            match int64 (byteOffset + size) with
            | .error fault => .error fault
            | .ok last =>
              if totalBytes < last then .ok none
              else markChecked totalElements ac.elementOffset chunkElements.toNat 0 covered

def placeAllChecked (totalBytes totalElements elemSize : ℤ) :
    List ArrayChunk → (ℕ → Bool) → Checked (Option (ℕ → Bool))
  | [], covered => .ok (some covered)
  | ac :: chunks, covered =>
    match placeChecked totalBytes totalElements elemSize covered ac with
    | .error fault => .error fault
    | .ok none => .ok none
    | .ok (some covered) => placeAllChecked totalBytes totalElements elemSize chunks covered

def validateChecked (fi : FieldChunks) : Checked Bool :=
  if fi.totalBytes = 0 then .ok true
  else if fi.single?.isSome then .ok true
  else
    match elementWidth fi with
    | none => .ok false
    | some (totalElements, elemSize) =>
      match placeAllChecked fi.totalBytes totalElements elemSize fi.chunks fun _ => false with
      | .error fault => .error fault
      | .ok none => .ok false
      | .ok (some covered) => .ok ((List.range totalElements.toNat).all covered)

def copyChecked (buffer : List UInt8) (position : ℤ) (data : List UInt8) : Checked (List UInt8) :=
  if position < 0 ∨ (buffer.length : ℤ) < position + data.length then .error .outOfRange
  else .ok (writeAt buffer position.toNat data)

def assembleAllChecked (totalBytes totalElements elemSize : ℤ) :
    List ArrayChunk → (ℕ → Bool) → List UInt8 → Checked (Option ((ℕ → Bool) × List UInt8))
  | [], covered, assembled => .ok (some (covered, assembled))
  | ac :: chunks, covered, assembled =>
    match placeChecked totalBytes totalElements elemSize covered ac with
    | .error fault => .error fault
    | .ok none => .ok none
    | .ok (some covered) =>
      match copyChecked assembled (ac.elementOffset * elemSize) ac.data with
      | .error fault => .error fault
      | .ok assembled =>
        assembleAllChecked totalBytes totalElements elemSize chunks covered assembled

def payloadChecked (fi : FieldChunks) : Checked (Option (List (List UInt8))) :=
  if fi.totalBytes = 0 then .ok (some [])
  else
    match fi.single? with
    | some ac => .ok (some [ac.data])
    | none =>
      match elementWidth fi with
      | none => .ok none
      | some (totalElements, elemSize) =>
        match assembleAllChecked fi.totalBytes totalElements elemSize fi.chunks (fun _ => false)
          (List.replicate fi.totalBytes.toNat 0) with
        | .error fault => .error fault
        | .ok none => .ok none
        | .ok (some (covered, assembled)) =>
          if (List.range totalElements.toNat).all covered then .ok (some [assembled]) else .ok none

def addChecked (elemSize : ℤ) (fi : FieldChunks) (ac : ArrayChunk) : Checked (Option FieldChunks) :=
  let fi := { fi with chunks := fi.chunks ++ [ac] }
  if elemSize ≤ 0 then .ok none
  else if ac.totalElements < 0 then .ok none
  else if ac.totalElements = 0 then if ac.data ≠ [] then .ok none else .ok (some fi)
  else if int64Max / elemSize < ac.totalElements then .ok none
  else
    match int64 (ac.totalElements * elemSize) with
    | .error fault => .error fault
    | .ok thisBytes =>
      if kMaxPipeArrayBytes < thisBytes then .ok none
      else if fi.totalBytes = 0 then .ok (some { fi with totalBytes := thisBytes })
      else if fi.totalBytes ≠ thisBytes then .ok none
      else .ok (some fi)

def binChecked : List ArrayChunk → Fields → Checked (Option Fields)
  | [], fields => .ok (some fields)
  | ac :: chunks, fields =>
    match addChecked (chunkKey ac).elementSize (fields.get (chunkKey ac)) ac with
    | .error fault => .error fault
    | .ok none => .ok none
    | .ok (some fi) => binChecked chunks (fields.set (chunkKey ac) fi)

def validateAllChecked {κ : Type*} : List (κ × FieldChunks) → Checked Bool
  | [] => .ok true
  | p :: fields =>
    match validateChecked p.2 with
    | .error fault => .error fault
    | .ok false => .ok false
    | .ok true => validateAllChecked fields

def phaseOne {Header : Type} (proto : Protobuf Header) (header : Header) (chunks : List ArrayChunk) :
    Checked (Option Fields) :=
  if kMaxProtobufMessageBytes < (proto.serialize header).length then .ok none
  else
    match binChecked chunks {} with
    | .error fault => .error fault
    | .ok none => .ok none
    | .ok (some fields) =>
      if kMaxPipeArrayFields < fields.top.size then .ok none
      else if kMaxPipeContainerArrays < fields.container.size then .ok none
      else
        match validateAllChecked fields.top.toList with
        | .error fault => .error fault
        | .ok false => .ok none
        | .ok true =>
          match validateAllChecked fields.container.toList with
          | .error fault => .error fault
          | .ok false => .ok none
          | .ok true => .ok (some fields)

/-- What becomes of each call of `write_to_pipe`: it fails after some bytes, or writes all. -/
abbrev Pipe := ℕ → Option ℕ

inductive PipeFailure
  | writeToPipe
  | other
  deriving DecidableEq

structure Transfer where
  status : PipeWriteStatus
  bytes : List UInt8
  failure : Option PipeFailure

def protobufWrites {Header : Type} (proto : Protobuf Header) (header : Header) :
    Checked (Option (List (List UInt8))) :=
  let bytes := proto.serialize header
  if kMaxProtobufMessageBytes < bytes.length then .ok none
  else if bytes.length = 0 then .ok (some [encodeU32 bytes.length])
  else .ok (some [encodeU32 bytes.length, bytes])

def topSteps (p : I32 × FieldChunks) : List (Checked (Option (List (List UInt8)))) :=
  [.ok (some [encodeI32 p.1, encodeU64 p.2.totalBytes.toNat]), payloadChecked p.2]

def containerSteps (p : ContainerArrayKey × FieldChunks) :
    List (Checked (Option (List (List UInt8)))) :=
  [.ok (some [encodeI32 p.1.containerFieldNum, encodeI32 p.1.containerIndex, encodeI32 p.1.fieldId,
    encodeU64 p.2.totalBytes.toNat]), payloadChecked p.2]

def phaseTwoSteps {Header : Type} (proto : Protobuf Header) (header : Header) (fields : Fields) :
    List (Checked (Option (List (List UInt8)))) :=
  [protobufWrites proto header, .ok (some [encodeU32 fields.top.size])] ++
    fields.top.toList.flatMap topSteps ++ [.ok (some [encodeU32 fields.container.size])] ++
    fields.container.toList.flatMap containerSteps

/-- Calls of `write_to_pipe` until one fails; with the number of the next call. -/
def writeCalls (pipe : Pipe) : ℕ → List (List UInt8) → List UInt8 × Option ℕ
  | n, [] => ([], some n)
  | n, bytes :: calls =>
    match pipe n with
    | some written => (bytes.take written, none)
    | none => (bytes ++ (writeCalls pipe (n + 1) calls).1, (writeCalls pipe (n + 1) calls).2)

def phaseTwo (pipe : Pipe) : ℕ → List (Checked (Option (List (List UInt8)))) → Checked Transfer
  | _, [] => .ok ⟨.success, [], none⟩
  | n, step :: steps =>
    match step with
    | .error fault => .error fault
    | .ok none => .ok ⟨.pipeFailed, [], some .other⟩
    | .ok (some calls) =>
      match writeCalls pipe n calls with
      | (bytes, none) => .ok ⟨.pipeFailed, bytes, some .writeToPipe⟩
      | (bytes, some next) =>
        match phaseTwo pipe next steps with
        | .error fault => .error fault
        | .ok transfer => .ok { transfer with bytes := bytes ++ transfer.bytes }

def transferChunkedRequest {Header : Type} (pipe : Pipe) (proto : Protobuf Header) (header : Header)
    (chunks : List Message) : Checked Transfer :=
  match phaseOne proto header (chunks.map Subtype.val) with
  | .error fault => .error fault
  | .ok none => .ok ⟨.validationFailed, [], none⟩
  | .ok (some fields) => phaseTwo pipe 0 (phaseTwoSteps proto header fields)

end CuOpt.Grpc.Chunks
