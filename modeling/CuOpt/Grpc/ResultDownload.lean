import CuOpt.Grpc.ChunkUpload

/-! The chunked download of a result: the client asks for its arrays piece by piece, and the server
answers from the arrays that it has stored. -/

namespace CuOpt.Grpc.Downloads

open ByteFrames Chunks

structure ResultArrayDescriptor where
  fieldId : I32
  totalElements : ℤ
  elementSizeBytes : ℤ

structure GetResultChunkRequest where
  downloadId : String
  fieldId : I32
  elementOffset : ℤ
  maxElements : ℤ

structure GetResultChunkResponse where
  downloadId : String
  fieldId : I32
  elementOffset : ℤ
  elementsInChunk : ℤ
  data : List UInt8

/-- The solution message of a response; for a linear program also whether it has warm start data. -/
inductive SolutionKind
  | lp (warmStart : Bool)
  | mip
  | none

structure StartChunkedDownloadV2Response where
  downloadId : String
  result : SolutionKind
  arrays : List ResultArrayDescriptor
  maxMessageBytes : ℤ

/-- What the calls of `GetResultChunk` return, by the number of the call; an error has its message. -/
abbrev Stub := ℕ → GetResultChunkRequest → Except String GetResultChunkResponse

structure ClientState where
  chunkSizeBytes : ℤ
  serverMaxMessageBytes : ℤ

def chunkDataBudget (client : ClientState) (maxMessageBytes : ℤ) : ℤ :=
  let dlSrvMax := if 0 < maxMessageBytes then maxMessageBytes else client.serverMaxMessageBytes
  let budget := if client.chunkSizeBytes ≤ 0 then 1024 * 1024 else client.chunkSizeBytes
  if 0 < dlSrvMax ∧ (dlSrvMax * 9).tdiv 10 < budget then (dlSrvMax * 9).tdiv 10 else budget

def chunkRequests (downloadId : String) (budget : ℤ) (desc : ResultArrayDescriptor) :
    List GetResultChunkRequest :=
  let total := desc.totalElements.toNat
  let step := elemsPerChunk budget desc.elementSizeBytes.toNat
  (List.range' 0 ((total + step - 1) / step) step).map fun elemOffset : ℕ =>
    { downloadId := downloadId
      fieldId := desc.fieldId
      elementOffset := elemOffset
      maxElements := (min step (total - elemOffset) : ℕ) }

section Assembly

variable {α : Type}

structure Progress (α : Type) where
  calls : ℕ
  bytes : List α

def receiveChunk (copy : GetResultChunkRequest → GetResultChunkResponse → List α) (stub : Stub)
    (desc : ResultArrayDescriptor) (progress : Progress α) (request : GetResultChunkRequest) :
    Except String (Progress α) :=
  match stub progress.calls request with
  | .error message => .error ("GetResultChunk failed: " ++ message)
  | .ok resp =>
    if resp.elementsInChunk < 0 ∨ request.maxElements < resp.elementsInChunk ∨
        desc.totalElements - request.elementOffset < resp.elementsInChunk then
      .error "GetResultChunk: invalid element count"
    else if (resp.data.length : ℤ) ≠ resp.elementsInChunk * desc.elementSizeBytes then
      .error "GetResultChunk: data size mismatch"
    else .ok
      { calls := progress.calls + 1
        bytes := writeAt progress.bytes (request.elementOffset * desc.elementSizeBytes).toNat
          (copy request resp) }

def downloadArray (copy : GetResultChunkRequest → GetResultChunkResponse → List α) (fill : α)
    (stub : Stub) (downloadId : String) (budget : ℤ) (desc : ResultArrayDescriptor) (calls : ℕ) :
    Except String (Progress α) :=
  if desc.elementSizeBytes ≤ 0 then
    .error ("Invalid chunk metadata: non-positive element_size_bytes for field " ++
      toString desc.fieldId.val)
  else if int64Max / desc.elementSizeBytes < desc.totalElements then
    .error ("Invalid chunk metadata: total byte size overflow for field " ++
      toString desc.fieldId.val)
  else (chunkRequests downloadId budget desc).foldlM (receiveChunk copy stub desc)
    { calls := calls
      bytes := List.replicate (desc.totalElements * desc.elementSizeBytes).toNat fill }

def downloadArrays (copy : GetResultChunkRequest → GetResultChunkResponse → List α) (fill : α)
    (stub : Stub) (downloadId : String) (budget : ℤ) :
    List ResultArrayDescriptor → ℕ → Except String (List (I32 × List α))
  | [], _ => .ok []
  | desc :: descriptors, calls =>
    if desc.totalElements ≤ 0 then downloadArrays copy fill stub downloadId budget descriptors calls
    else
      match downloadArray copy fill stub downloadId budget desc calls with
      | .error message => .error message
      | .ok progress =>
        match downloadArrays copy fill stub downloadId budget descriptors progress.calls with
        | .error message => .error message
        | .ok arrays => .ok ((desc.fieldId, progress.bytes) :: arrays)

end Assembly

def chunkedArrays (arrays : List (I32 × List UInt8)) : SortedMap I32 (List UInt8) :=
  arrays.foldl (fun m p => m.insert p.1 p.2) .empty

/-- The fields that `apply_result_chunk_arrays` looks for. -/
def solutionFields : SolutionKind → List I32
  | .lp false => [⟨0, by decide⟩, ⟨1, by decide⟩, ⟨2, by decide⟩]
  | .lp true => [⟨0, by decide⟩, ⟨1, by decide⟩, ⟨2, by decide⟩, ⟨3, by decide⟩, ⟨4, by decide⟩,
      ⟨5, by decide⟩, ⟨6, by decide⟩, ⟨7, by decide⟩, ⟨8, by decide⟩, ⟨9, by decide⟩,
      ⟨10, by decide⟩, ⟨11, by decide⟩]
  | .mip => [⟨12, by decide⟩]
  | .none => []

def intMax : ℕ := 2 ^ 31 - 1

def assignDoubles (raw : List UInt8) : Except String (List UInt8) :=
  if raw.length % 8 ≠ 0 then .error "result chunk payload is not a multiple of sizeof(double)"
  else if intMax < raw.length / 8 then
    .error "result chunk has more elements than a protobuf field can store"
  else .ok raw

def applyResultChunkArrays (arrays : SortedMap I32 (List UInt8)) :
    List I32 → Except String (List (I32 × List UInt8))
  | [] => .ok []
  | field :: fields =>
    match arrays.get? field with
    | none | some [] => applyResultChunkArrays arrays fields
    | some raw =>
      match assignDoubles raw with
      | .error message => .error message
      | .ok bytes =>
        match applyResultChunkArrays arrays fields with
        | .error message => .error message
        | .ok solution => .ok ((field, bytes) :: solution)

structure DownloadedResult where
  assembled : List (I32 × List UInt8)
  solution : List (I32 × List UInt8)

/-- An error is the return value `false` with its text in `last_error_`. The reply to
`FinishChunkedDownload` changes nothing. -/
def downloadChunkedResult (client : ClientState)
    (start : Except String StartChunkedDownloadV2Response) (stub : Stub) :
    Except String DownloadedResult :=
  match start with
  | .error message => .error ("StartChunkedDownloadV2 failed: " ++ message)
  | .ok response =>
    match downloadArrays (fun _ resp => resp.data) 0 stub response.downloadId
      (chunkDataBudget client response.maxMessageBytes) response.arrays 0 with
    | .error message => .error message
    | .ok arrays =>
      match applyResultChunkArrays (chunkedArrays arrays) (solutionFields response.result) with
      | .error message => .error message
      | .ok solution => .ok ⟨arrays, solution⟩

abbrev ChunkedDownloads := String → Option (I32 → Option (List UInt8))

def getResultChunk (downloads : ChunkedDownloads) (request : GetResultChunkRequest) :
    Except String GetResultChunkResponse :=
  match downloads request.downloadId with
  | none => .error ("Unknown download_id: " ++ request.downloadId)
  | some rawArrays =>
    match rawArrays request.fieldId with
    | none | some [] =>
      .error ("Unknown or empty result field: " ++ toString request.fieldId.val)
    | some rawBytes =>
      let elemSize : ℤ := 8
      let arraySize : ℤ := (rawBytes.length : ℤ) / elemSize
      if request.elementOffset < 0 ∨ arraySize ≤ request.elementOffset then
        .error ("element_offset " ++ toString request.elementOffset ++ " out of range [0, " ++
          toString arraySize ++ ")")
      else
        let elemsAvailable := arraySize - request.elementOffset
        let elemsToSend :=
          if 0 < request.maxElements then min request.maxElements elemsAvailable else elemsAvailable
        .ok
          { downloadId := request.downloadId
            fieldId := request.fieldId
            elementOffset := request.elementOffset
            elementsInChunk := elemsToSend
            data := (rawBytes.drop (request.elementOffset * elemSize).toNat).take
              (elemsToSend * elemSize).toNat }

end CuOpt.Grpc.Downloads
