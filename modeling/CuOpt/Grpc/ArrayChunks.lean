import CuOpt.Library.SortedMap

/-! Chunked upload, client and service side: `chunk_typed_array` cuts an array into requests, and
`SendArrayChunk` checks each request against what it knows of the array. -/

namespace CuOpt.Grpc.Chunks

abbrev I32 := { x : ℤ // -2 ^ 31 ≤ x ∧ x < 2 ^ 31 }

lemma zero_inRange : -2 ^ 31 ≤ (0 : ℤ) ∧ (0 : ℤ) < 2 ^ 31 := by decide

structure ContainerArrayKey where
  containerFieldNum : I32
  containerIndex : I32
  fieldId : I32

def ContainerArrayKey.parts (key : ContainerArrayKey) : I32 ×ₗ I32 ×ₗ I32 :=
  toLex (key.containerFieldNum, toLex (key.containerIndex, key.fieldId))

instance : LinearOrder ContainerArrayKey := LinearOrder.lift' ContainerArrayKey.parts <| by
  rintro ⟨a, b, c⟩ ⟨a', b', c'⟩ h
  have hpair := toLex.injective h
  have hrest := toLex.injective (congrArg Prod.snd hpair)
  rw [ContainerArrayKey.mk.injEq]
  exact ⟨congrArg Prod.fst hpair, congrArg Prod.fst hrest, congrArg Prod.snd hrest⟩

inductive ArrayFieldId
  | variableNames | rowNames | aValues | aIndices | aOffsets | c | b
  | variableLowerBounds | variableUpperBounds | constraintLowerBounds | constraintUpperBounds
  | rowTypes | variableTypes | initialPrimalSolution | initialDualSolution
  | qValues | qIndices | qOffsets
  | vehicleStartLocations | vehicleReturnLocations | vehicleTwEarliest | vehicleTwLatest
  | vehicleTypes | dropReturnTrips | skipFirstTrips
  | vehicleMaxCosts | vehicleMaxTimes | vehicleFixedCosts
  | orderLocations | orderTwEarliest | orderTwLatest | orderPrizes
  | pickupIndices | deliveryIndices | breakLocations
  deriving DecidableEq

def ArrayFieldId.all : List ArrayFieldId :=
  [.variableNames, .rowNames, .aValues, .aIndices, .aOffsets, .c, .b,
    .variableLowerBounds, .variableUpperBounds, .constraintLowerBounds, .constraintUpperBounds,
    .rowTypes, .variableTypes, .initialPrimalSolution, .initialDualSolution,
    .qValues, .qIndices, .qOffsets,
    .vehicleStartLocations, .vehicleReturnLocations, .vehicleTwEarliest, .vehicleTwLatest,
    .vehicleTypes, .dropReturnTrips, .skipFirstTrips,
    .vehicleMaxCosts, .vehicleMaxTimes, .vehicleFixedCosts,
    .orderLocations, .orderTwEarliest, .orderTwLatest, .orderPrizes,
    .pickupIndices, .deliveryIndices, .breakLocations]

def ArrayFieldId.ofNumber? (fieldId : ℤ) : Option ArrayFieldId :=
  if fieldId < 0 then none else ArrayFieldId.all[fieldId.toNat]?

def arrayFieldIdIsValid (fieldId : ℤ) : Bool := (ArrayFieldId.ofNumber? fieldId).isSome

def ArrayFieldId.elementSize : ArrayFieldId → ℤ
  | .variableNames | .rowNames | .rowTypes => 1
  | .aIndices | .aOffsets | .variableTypes | .qIndices | .qOffsets => 4
  | .aValues | .c | .b | .variableLowerBounds | .variableUpperBounds | .constraintLowerBounds
  | .constraintUpperBounds | .initialPrimalSolution | .initialDualSolution | .qValues => 8
  | .vehicleTypes | .dropReturnTrips | .skipFirstTrips => 1
  | .vehicleStartLocations | .vehicleReturnLocations | .vehicleTwEarliest | .vehicleTwLatest
  | .vehicleMaxCosts | .vehicleMaxTimes | .vehicleFixedCosts | .orderLocations
  | .orderTwEarliest | .orderTwLatest | .orderPrizes | .pickupIndices | .deliveryIndices
  | .breakLocations => 4

def containerElementSizes : List ((ℤ × ℤ) × ℤ) :=
  [((25, 1), 4), ((25, 2), 4), ((25, 3), 4), ((25, 0), 8), ((25, 4), 8),
    ((10, 0), 4), ((11, 0), 4), ((50, 0), 4), ((50, 1), 4),
    ((61, 0), 4), ((61, 1), 4), ((61, 2), 4), ((34, 0), 4), ((70, 0), 4), ((71, 0), 4),
    ((80, 0), 4), ((62, 0), 4), ((63, 0), 4), ((90, 0), 4), ((90, 1), 4),
    ((100, 0), 4), ((100, 1), 4), ((100, 2), 4), ((100, 3), 4)]

def arrayFieldElementSize (containerFieldNum fieldId : ℤ) : ℤ :=
  if containerFieldNum < 0 then
    match ArrayFieldId.ofNumber? fieldId with
    | some field => field.elementSize
    | none => -1
  else (containerElementSizes.lookup (containerFieldNum, fieldId)).getD (-1)

structure ArrayChunk where
  fieldId : I32
  elementOffset : ℤ
  totalElements : ℤ
  data : List UInt8
  containerFieldNum : Option I32
  containerIndex : Option I32

structure SendArrayChunkRequest where
  uploadId : String
  chunk : ArrayChunk

structure TypedArray where
  elemSize : ℕ
  bytes : List UInt8
  elemSize_pos : 0 < elemSize
  dvd : elemSize ∣ bytes.length

def TypedArray.size (data : TypedArray) : ℕ := data.bytes.length / data.elemSize

/-- `elems_per_chunk`, at least one. -/
def elemsPerChunk (chunkDataBudget : ℤ) (elemSize : ℕ) : ℕ :=
  let elems := chunkDataBudget.tdiv elemSize
  if elems ≤ 0 then 1 else elems.toNat

/-- The loop over the offsets. Only a chunk that is not the last is followed by another offset, and an
array has at most 4 GiB, so that the offsets stay in range. -/
def chunkTypedArray (fieldId : I32) (data : TypedArray) (uploadId : String) (chunkDataBudget : ℤ) :
    List SendArrayChunkRequest :=
  let total := data.size
  let step := elemsPerChunk chunkDataBudget data.elemSize
  if data.bytes = [] then []
  else (List.range' 0 ((total + step - 1) / step) step).map fun offset =>
    let count := min step (total - offset)
    { uploadId := uploadId
      chunk :=
        { fieldId := fieldId
          elementOffset := offset
          totalElements := total
          data := (data.bytes.drop (offset * data.elemSize)).take (count * data.elemSize)
          containerFieldNum := none
          containerIndex := none } }

def chunkContainerTypedArray (containerFieldNum containerIndex fieldId : I32) (data : TypedArray)
    (uploadId : String) (chunkDataBudget : ℤ) : List SendArrayChunkRequest :=
  (chunkTypedArray fieldId data uploadId chunkDataBudget).map fun request =>
    { request with
      chunk :=
        { request.chunk with
          containerFieldNum := some containerFieldNum
          containerIndex := some containerIndex } }

structure FieldMeta where
  totalElements : ℤ := 0
  elementSize : ℤ := 0
  receivedBytes : ℤ := 0

structure ChunkedUploadState where
  fieldMeta : SortedMap I32 FieldMeta := .empty
  containerFieldMeta : SortedMap ContainerArrayKey FieldMeta := .empty
  chunks : List ArrayChunk := []
  totalChunks : ℤ := 0
  totalBytes : ℤ := 0

inductive StatusCode
  | invalidArgument
  | notFound
  | resourceExhausted
  deriving DecidableEq

structure Status where
  code : StatusCode
  message : String

structure SendArrayChunkResponse where
  uploadId : String
  chunksReceived : ℤ

abbrev ChunkedUploads := String → Option ChunkedUploadState

def kMaxChunkedArrayBytes : ℤ := 4 * 1024 * 1024 * 1024

inductive ArrayKey
  | top (fieldId : I32)
  | container (key : ContainerArrayKey)
  deriving DecidableEq

def ArrayKey.elementSize : ArrayKey → ℤ
  | .top fieldId => arrayFieldElementSize (-1) fieldId.val
  | .container key => arrayFieldElementSize key.containerFieldNum.val key.fieldId.val

def ChunkedUploadState.getMeta (state : ChunkedUploadState) : ArrayKey → FieldMeta
  | .top fieldId => (state.fieldMeta.get? fieldId).getD {}
  | .container key => (state.containerFieldMeta.get? key).getD {}

def ChunkedUploadState.setMeta (state : ChunkedUploadState) (key : ArrayKey) (field : FieldMeta) :
    ChunkedUploadState :=
  match key with
  | .top fieldId => { state with fieldMeta := state.fieldMeta.insert fieldId field }
  | .container key =>
    { state with containerFieldMeta := state.containerFieldMeta.insert key field }

def chunkTarget (ac : ArrayChunk) : Except Status ArrayKey :=
  if ac.containerFieldNum.isSome ≠ ac.containerIndex.isSome then
    .error ⟨.invalidArgument,
      "container_field_num and container_index must both be set or both unset"⟩
  else
    let container := ac.containerFieldNum.isSome
    if ¬container ∧ ¬arrayFieldIdIsValid ac.fieldId.val then
      .error ⟨.invalidArgument, "Unknown array field_id: " ++ toString ac.fieldId.val⟩
    else if container ∧ (ac.containerIndex.map Subtype.val).getD 0 < 0 then
      .error ⟨.invalidArgument, "container_index must be non-negative"⟩
    else if ac.elementOffset < 0 then
      .error ⟨.invalidArgument, "element_offset must be non-negative"⟩
    else if ac.totalElements < 0 then
      .error ⟨.invalidArgument, "total_elements must be non-negative"⟩
    else
      match ac.containerFieldNum, ac.containerIndex with
      | some fieldNum, some index => .ok (.container ⟨fieldNum, index, ac.fieldId⟩)
      | _, _ => .ok (.top ac.fieldId)

/-- On the first chunk of an array its size and element width are recorded. -/
def recordSize (ac : ArrayChunk) (key : ArrayKey) (field : FieldMeta) : Except Status FieldMeta :=
  if field.totalElements = 0 ∧ 0 < ac.totalElements then
    let elemSize := key.elementSize
    if elemSize ≤ 0 then
      let fieldNum := match key with
        | .top _ => -1
        | .container key => key.containerFieldNum.val
      .error ⟨.invalidArgument, "Unknown array (container_field_num=" ++ toString fieldNum ++
        ", field_id=" ++ toString ac.fieldId.val ++ ")"⟩
    else if ac.totalElements > kMaxChunkedArrayBytes / elemSize then
      .error ⟨.resourceExhausted, "Array too large (" ++ toString ac.totalElements ++ " x " ++
        toString elemSize ++ " bytes exceeds " ++ toString kMaxChunkedArrayBytes ++ " byte limit)"⟩
    else .ok { field with totalElements := ac.totalElements, elementSize := elemSize }
  else .ok field

def checkBounds (ac : ArrayChunk) (field : FieldMeta) : Except Status Unit :=
  let elemSize := if 0 < field.elementSize then field.elementSize else 1
  let rawSize : ℤ := ac.data.length
  if 1 < elemSize ∧ rawSize % elemSize ≠ 0 then
    .error ⟨.invalidArgument, "Chunk data size (" ++ toString rawSize ++
      ") not aligned to element size (" ++ toString elemSize ++ ")"⟩
  else if field.totalElements < ac.elementOffset then
    .error ⟨.invalidArgument, "ArrayChunk offset exceeds array size"⟩
  else if field.totalElements * elemSize < ac.elementOffset * elemSize + rawSize then
    .error ⟨.invalidArgument, "ArrayChunk out of bounds"⟩
  else .ok ()

/-- A chunk that is refused after its array was found leaves an entry for the array. -/
def acceptChunk (state : ChunkedUploadState) (ac : ArrayChunk) :
    ChunkedUploadState × Except Status Unit :=
  match chunkTarget ac with
  | .error status => (state, .error status)
  | .ok key =>
    match recordSize ac key (state.getMeta key) with
    | .error status => (state.setMeta key (state.getMeta key), .error status)
    | .ok field =>
      match checkBounds ac field with
      | .error status => (state.setMeta key field, .error status)
      | .ok () =>
        let field := { field with receivedBytes := field.receivedBytes + ac.data.length }
        let state := state.setMeta key field
        ({ state with
            chunks := state.chunks ++ [ac]
            totalChunks := state.totalChunks + 1
            totalBytes := state.totalBytes + ac.data.length }, .ok ())

def sendArrayChunk (uploads : ChunkedUploads) (request : SendArrayChunkRequest) :
    ChunkedUploads × Except Status SendArrayChunkResponse :=
  match uploads request.uploadId with
  | none => (uploads, .error ⟨.notFound, "Unknown upload_id: " ++ request.uploadId⟩)
  | some state =>
    let (state, result) := acceptChunk state request.chunk
    (Function.update uploads request.uploadId (some state),
      result.map fun _ => ⟨request.uploadId, state.totalChunks⟩)

def sendArrayChunks (uploads : ChunkedUploads) :
    List SendArrayChunkRequest → ChunkedUploads × List (Except Status SendArrayChunkResponse)
  | [] => (uploads, [])
  | request :: requests =>
    let (uploads, answer) := sendArrayChunk uploads request
    let (uploads, answers) := sendArrayChunks uploads requests
    (uploads, answer :: answers)

end CuOpt.Grpc.Chunks
