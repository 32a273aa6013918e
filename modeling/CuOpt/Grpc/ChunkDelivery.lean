import CuOpt.Grpc.ChunkUpload

/-! A chunked upload delivers every array: what a worker reads from the pipe are the header and the
nonempty arrays that the client had, whatever the budget and the order of the requests. -/

namespace CuOpt.Grpc.Chunks

open ByteFrames List
open Int (bmod)
open Option (bind_some)

lemma val_decodeI32 (bytes : List UInt8) :
    (decodeI32 bytes).val = bmod (ofLeBytes bytes) (2 ^ 32) := by
  unfold decodeI32
  simp only

lemma decodeI32_encodeI32 (x : I32) : decodeI32 (encodeI32 x) = x := by
  have hnonneg : 0 ≤ x.val % 2 ^ 32 := Int.emod_nonneg x.val (by decide)
  have hlt : x.val % 2 ^ 32 < 2 ^ 32 := Int.emod_lt_of_pos x.val (by decide)
  have hnumber : ofLeBytes (leBytes 4 (x.val % 2 ^ 32).toNat) = (x.val % 2 ^ 32).toNat := by
    apply ofLeBytes_leBytes
    omega
  have hmod : bmod (x.val % 2 ^ 32) (2 ^ 32) = bmod x.val (2 ^ 32) := by
    have hcast : ((2 ^ 32 : ℕ) : ℤ) = 2 ^ 32 := by norm_num
    rw [← hcast]
    exact Int.emod_bmod x.val (2 ^ 32)
  have hvalue : bmod x.val (2 ^ 32) = x.val := by
    obtain ⟨hlow, hhigh⟩ := x.property
    apply Int.bmod_eq_of_le
    · norm_num
      exact hlow
    · norm_num
      exact hhigh
  apply Subtype.ext
  rw [val_decodeI32, encodeI32, hnumber, Int.toNat_of_nonneg hnonneg, hmod, hvalue]

lemma readI32_append (x : I32) (rest : List UInt8) :
    readI32 (encodeI32 x ++ rest) = some (x, rest) := by
  have hread : readBytes 4 (encodeI32 x ++ rest) = some (encodeI32 x, rest) :=
    readBytes_eq (length_leBytes _ _) rest
  unfold readI32
  rw [hread]
  show some (decodeI32 (encodeI32 x), rest) = _
  rw [decodeI32_encodeI32]

lemma readNumber_leBytes {size n : ℕ} (h : n < 256 ^ size) (rest : List UInt8) :
    readNumber size (leBytes size n ++ rest) = some (n, rest) := by
  unfold readNumber
  rw [readBytes_eq (length_leBytes size n) rest]
  show some (ofLeBytes (leBytes size n), rest) = _
  rw [ofLeBytes_leBytes h]

lemma readNumber_encodeU32 {n : ℕ} (h : n < 2 ^ 32) (rest : List UInt8) :
    readNumber 4 (encodeU32 n ++ rest) = some (n, rest) := by
  rw [encodeU32, Nat.mod_eq_of_lt h]
  exact readNumber_leBytes h rest

lemma readNumber_encodeU64 {n : ℕ} (h : n < 2 ^ 64) (rest : List UInt8) :
    readNumber 8 (encodeU64 n ++ rest) = some (n, rest) := by
  rw [encodeU64, Nat.mod_eq_of_lt h]
  exact readNumber_leBytes h rest

lemma readPayload_append {data : List UInt8} (h : data.length ≤ kMaxPipeArrayBytes)
    (rest : List UInt8) :
    readPayload (encodeU64 data.length ++ (data ++ rest)) = some (data, rest) := by
  have hlt : data.length < 2 ^ 64 := h.trans_lt (by decide)
  unfold readPayload
  rw [readNumber_encodeU64 hlt]
  show (if kMaxPipeArrayBytes < data.length then none
    else readBytes data.length (data ++ rest)) = _
  rw [if_neg (not_lt.mpr h)]
  exact readBytes_append data rest

def topFrame (p : I32 × List UInt8) : List UInt8 :=
  encodeI32 p.1 ++ (encodeU64 p.2.length ++ p.2)

def containerFrame (p : ContainerArrayKey × List UInt8) : List UInt8 :=
  encodeI32 p.1.containerFieldNum ++ (encodeI32 p.1.containerIndex ++
    (encodeI32 p.1.fieldId ++ (encodeU64 p.2.length ++ p.2)))

lemma readTopArrays_frames (l : List (I32 × List UInt8))
    (hl : ∀ p ∈ l, p.2.length ≤ kMaxPipeArrayBytes) (arrays : SortedMap I32 (List UInt8))
    (rest : List UInt8) :
    readTopArrays l.length arrays (l.flatMap topFrame ++ rest) =
      some (l.foldl (fun m p => m.insert p.1 p.2) arrays, rest) := by
  induction l generalizing arrays with
  | nil => rfl
  | cons p l ih =>
    have hframe : (p :: l).flatMap topFrame ++ rest =
        encodeI32 p.1 ++ (encodeU64 p.2.length ++ (p.2 ++ (l.flatMap topFrame ++ rest))) := by
      rw [flatMap_cons, topFrame]
      simp only [append_assoc]
    rw [hframe, length_cons]
    simp only [readTopArrays, readI32_append, readPayload_append (hl p mem_cons_self),
      Option.bind_eq_bind, bind_some]
    exact ih (fun q hq => hl q (mem_cons_of_mem p hq)) _

lemma readContainerArrays_frames (l : List (ContainerArrayKey × List UInt8))
    (hl : ∀ p ∈ l, p.2.length ≤ kMaxPipeArrayBytes)
    (arrays : SortedMap ContainerArrayKey (List UInt8)) (rest : List UInt8) :
    readContainerArrays l.length arrays (l.flatMap containerFrame ++ rest) =
      some (l.foldl (fun m p => m.insert p.1 p.2) arrays, rest) := by
  induction l generalizing arrays with
  | nil => rfl
  | cons p l ih =>
    have hframe : (p :: l).flatMap containerFrame ++ rest =
        encodeI32 p.1.containerFieldNum ++ (encodeI32 p.1.containerIndex ++
          (encodeI32 p.1.fieldId ++ (encodeU64 p.2.length ++
            (p.2 ++ (l.flatMap containerFrame ++ rest))))) := by
      rw [flatMap_cons, containerFrame]
      simp only [append_assoc]
    rw [hframe, length_cons]
    simp only [readContainerArrays, readI32_append,
      readPayload_append (hl p mem_cons_self), Option.bind_eq_bind, bind_some]
    exact ih (fun q hq => hl q (mem_cons_of_mem p hq)) _

lemma readTopArrays_toList {m : SortedMap I32 (List UInt8)}
    (hm : ∀ p ∈ m.toList, p.2.length ≤ kMaxPipeArrayBytes) (rest : List UInt8) :
    readTopArrays m.size .empty (m.toList.flatMap topFrame ++ rest) = some (m, rest) := by
  have hread := readTopArrays_frames m.toList hm .empty rest
  rw [m.foldl_insert_toList] at hread
  exact hread

lemma readContainerArrays_toList {m : SortedMap ContainerArrayKey (List UInt8)}
    (hm : ∀ p ∈ m.toList, p.2.length ≤ kMaxPipeArrayBytes) (rest : List UInt8) :
    readContainerArrays m.size .empty (m.toList.flatMap containerFrame ++ rest) =
      some (m, rest) := by
  have hread := readContainerArrays_frames m.toList hm .empty rest
  rw [m.foldl_insert_toList] at hread
  exact hread

structure Delivers (fi : FieldChunks) (data : List UInt8) : Prop where
  validated : validateFieldChunks fi = true
  assembled : assembleFieldPayload fi = some data
  totalBytes : fi.totalBytes = data.length
  within : data.length ≤ kMaxPipeArrayBytes

def payload (fi : FieldChunks) : List UInt8 := (assembleFieldPayload fi).getD []

lemma Delivers.payload {fi : FieldChunks} {data : List UInt8} (h : Delivers fi data) :
    payload fi = data := by
  unfold Chunks.payload
  rw [h.assembled]
  rfl

lemma writePieces_map_some (l : List (List UInt8)) :
    writePieces (l.map some) = (.success, l.flatten) := by
  induction l with
  | nil => rfl
  | cons bytes l ih =>
    rw [map_cons, writePieces, ih]
    rfl

/-- The steps of all fields, if the steps of each one are the frame of its payload. -/
lemma flatMap_steps {κ γ δ : Type*} {fields : List (κ × FieldChunks)} {wrap : γ → δ}
    {bytesOf : γ → List UInt8} {stepsOf : κ × FieldChunks → List δ}
    {frameOf : κ × List UInt8 → List UInt8}
    (hsteps : ∀ p ∈ fields, ∃ calls : List γ, stepsOf p = calls.map wrap ∧
      calls.flatMap bytesOf = frameOf (p.1, payload p.2)) :
    ∃ calls : List γ, fields.flatMap stepsOf = calls.map wrap ∧
      calls.flatMap bytesOf = (fields.map fun p => (p.1, payload p.2)).flatMap frameOf := by
  induction fields with
  | nil => exact ⟨[], rfl, rfl⟩
  | cons p fields ih =>
    obtain ⟨first, hfirst, hframe⟩ := hsteps p mem_cons_self
    obtain ⟨others, hothers, hframes⟩ := ih fun q hq => hsteps q (mem_cons_of_mem p hq)
    refine ⟨first ++ others, ?_, ?_⟩
    · rw [flatMap_cons, hfirst, hothers, map_append]
    · rw [flatMap_append, hframe, hframes, map_cons, flatMap_cons]

/-- The pieces of fields that deliver are the frames of their payloads. -/
lemma flatMap_pieces {κ : Type*} {fields : List (κ × FieldChunks)}
    {piecesOf : κ × FieldChunks → List (Option (List UInt8))}
    {frameOf : κ × List UInt8 → List UInt8}
    (hpieces : ∀ p ∈ fields, ∃ bytes : List (List UInt8), piecesOf p = bytes.map some ∧
      bytes.flatten = frameOf (p.1, payload p.2)) :
    ∃ bytes : List (List UInt8), fields.flatMap piecesOf = bytes.map some ∧
      bytes.flatten = (fields.map fun p => (p.1, payload p.2)).flatMap frameOf := by
  simp only [← flatMap_id] at hpieces ⊢
  exact flatMap_steps hpieces

lemma topPieces_eq {p : I32 × FieldChunks} (h : ∃ data, Delivers p.2 data) :
    ∃ bytes : List (List UInt8), topPieces p = bytes.map some ∧
      bytes.flatten = topFrame (p.1, payload p.2) := by
  obtain ⟨data, hdata⟩ := h
  refine ⟨[encodeI32 p.1, encodeU64 data.length, data], ?_, ?_⟩
  · rw [topPieces, hdata.assembled, hdata.totalBytes]
    rfl
  · rw [hdata.payload]
    simp [topFrame]

lemma containerPieces_eq {p : ContainerArrayKey × FieldChunks} (h : ∃ data, Delivers p.2 data) :
    ∃ bytes : List (List UInt8), containerPieces p = bytes.map some ∧
      bytes.flatten = containerFrame (p.1, payload p.2) := by
  obtain ⟨data, hdata⟩ := h
  refine ⟨[encodeI32 p.1.containerFieldNum, encodeI32 p.1.containerIndex, encodeI32 p.1.fieldId,
    encodeU64 data.length, data], ?_, ?_⟩
  · rw [containerPieces, hdata.assembled, hdata.totalBytes]
    rfl
  · rw [hdata.payload]
    simp [containerFrame]

structure Deliverable (fields : Fields) : Prop where
  top : ∀ p ∈ fields.top.toList, ∃ data, Delivers p.2 data
  container : ∀ p ∈ fields.container.toList, ∃ data, Delivers p.2 data

section Transfer

variable {Header : Type} {proto : Protobuf Header} {header : Header} {chunks : List ArrayChunk}
  {fields : Fields}

def transferBytes (proto : Protobuf Header) (header : Header) (fields : Fields) : List UInt8 :=
  encodeU32 (proto.serialize header).length ++ (proto.serialize header ++
    (encodeU32 fields.top.size ++ ((fields.top.mapValues payload).toList.flatMap topFrame ++
      (encodeU32 fields.container.size ++
        (fields.container.mapValues payload).toList.flatMap containerFrame))))

lemma validate_all {κ : Type*} {l : List (κ × FieldChunks)}
    (h : ∀ p ∈ l, ∃ data, Delivers p.2 data) : (l.all fun p => validateFieldChunks p.2) = true := by
  rw [all_eq_true]
  intro p hp
  obtain ⟨data, hdata⟩ := h p hp
  exact hdata.validated

lemma write_eq (hheader : (proto.serialize header).length ≤ kMaxProtobufMessageBytes)
    (hfold : chunks.foldlM binChunk {} = some fields) (htop : fields.top.size ≤ kMaxPipeArrayFields)
    (hcontainer : fields.container.size ≤ kMaxPipeContainerArrays) (h : Deliverable fields) :
    writeChunkedRequestToPipe proto header chunks =
      (.success, transferBytes proto header fields) := by
  obtain ⟨topBytes, htopPieces, htopFrames⟩ :=
    flatMap_pieces fun p hp => topPieces_eq (h.top p hp)
  obtain ⟨containerBytes, hcontainerPieces, hcontainerFrames⟩ :=
    flatMap_pieces fun p hp => containerPieces_eq (h.container p hp)
  have hproto : writeProtobufToPipe proto header =
      some (encodeU32 (proto.serialize header).length ++ proto.serialize header) :=
    if_neg (not_lt.mpr hheader)
  have hpieces : [writeProtobufToPipe proto header, some (encodeU32 fields.top.size)] ++
      fields.top.toList.flatMap topPieces ++ [some (encodeU32 fields.container.size)] ++
      fields.container.toList.flatMap containerPieces =
      ([encodeU32 (proto.serialize header).length ++ proto.serialize header,
        encodeU32 fields.top.size] ++ topBytes ++ [encodeU32 fields.container.size] ++
        containerBytes).map some := by
    rw [hproto, htopPieces, hcontainerPieces]
    simp only [map_append]
    rfl
  have hbytes : ([encodeU32 (proto.serialize header).length ++ proto.serialize header,
      encodeU32 fields.top.size] ++ topBytes ++ [encodeU32 fields.container.size] ++
      containerBytes).flatten = transferBytes proto header fields := by
    rw [flatten_append, flatten_append, flatten_append, htopFrames, hcontainerFrames]
    simp [transferBytes, SortedMap.mapValues]
  unfold writeChunkedRequestToPipe
  rw [if_neg (not_lt.mpr hheader), hfold]
  simp only [validate_all h.top, validate_all h.container]
  rw [if_neg (not_lt.mpr htop), if_neg (not_lt.mpr hcontainer), if_neg (not_not.mpr trivial),
    if_neg (not_not.mpr trivial), hpieces, writePieces_map_some, hbytes]

lemma within_mapValues {κ : Type*} [LinearOrder κ] {m : SortedMap κ FieldChunks}
    (h : ∀ p ∈ m.toList, ∃ data, Delivers p.2 data) :
    ∀ p ∈ (m.mapValues payload).toList, p.2.length ≤ kMaxPipeArrayBytes := by
  intro p hp
  obtain ⟨q, hq, rfl⟩ := mem_map.mp hp
  obtain ⟨data, hdata⟩ := h q hq
  show (payload q.2).length ≤ _
  rw [hdata.payload]
  exact hdata.within

lemma size_mapValues {κ α β : Type*} [LinearOrder κ] (m : SortedMap κ α) (f : α → β) :
    (m.mapValues f).size = m.size :=
  length_map _

lemma readProtobufFromPipe_append (hproto : proto.parse (proto.serialize header) = some header)
    (hheader : (proto.serialize header).length ≤ kMaxProtobufMessageBytes) (rest : List UInt8) :
    readProtobufFromPipe proto (encodeU32 (proto.serialize header).length ++
      (proto.serialize header ++ rest)) = some (header, rest) := by
  unfold readProtobufFromPipe
  simp only [readNumber_encodeU32 (hheader.trans_lt (by decide)), Option.bind_eq_bind, bind_some,
    if_neg (not_lt.mpr hheader), readBytes_append, hproto]
  rfl

lemma read_eq (hproto : proto.parse (proto.serialize header) = some header)
    (hheader : (proto.serialize header).length ≤ kMaxProtobufMessageBytes)
    (htop : fields.top.size ≤ kMaxPipeArrayFields)
    (hcontainer : fields.container.size ≤ kMaxPipeContainerArrays) (h : Deliverable fields)
    (rest : List UInt8) :
    readChunkedRequestFromPipe proto (transferBytes proto header fields ++ rest) =
      some ⟨header, fields.top.mapValues payload, fields.container.mapValues payload, rest⟩ := by
  have htopRead := readTopArrays_toList (within_mapValues h.top)
    (encodeU32 fields.container.size ++
      ((fields.container.mapValues payload).toList.flatMap containerFrame ++ rest))
  have hcontainerRead := readContainerArrays_toList (within_mapValues h.container) rest
  rw [size_mapValues] at htopRead hcontainerRead
  unfold readChunkedRequestFromPipe transferBytes
  simp only [append_assoc]
  simp only [Option.bind_eq_bind, bind_some, readProtobufFromPipe_append hproto hheader,
    readNumber_encodeU32 (htop.trans_lt (by decide)), if_neg (not_lt.mpr htop), htopRead,
    readNumber_encodeU32 (hcontainer.trans_lt (by decide)), if_neg (not_lt.mpr hcontainer),
    hcontainerRead]
  rfl

end Transfer

namespace ArrayFamily

variable {family : ArrayFamily} {budget : ℤ} {uploadId : String} {chunks : List ArrayChunk}
  {fields : Fields} {p : ArrayKey × TypedArray} {key : ArrayKey} {fi : FieldChunks}

def Arrived (family : ArrayFamily) (budget : ℤ) (uploadId : String) (chunks : List ArrayChunk) :
    Prop :=
  chunks.Perm ((family.requests uploadId budget).map SendArrayChunkRequest.chunk)

lemma Arrived.isPiece (h : family.Arrived budget uploadId chunks) :
    ∀ ac ∈ chunks, family.IsPiece budget ac := by
  intro ac hac
  obtain ⟨request, hrequest, rfl⟩ := mem_map.mp (h.subset hac)
  exact (isPiece_of_mem_requests hrequest).2

lemma Arrived.chunksOf_perm (h : family.Arrived budget uploadId chunks)
    (hp : p ∈ family.arrays) : (chunksOf p.1 chunks).Perm (pieces p.1 p.2 budget) := by
  have hfilter := h.filter fun ac => chunkKey ac = p.1
  rw [← chunksOf_map_requests uploadId hp]
  exact hfilter

lemma pieces_eq_nil (key : ArrayKey) (budget : ℤ) : pieces key p.2 budget = [] ↔ p.2.bytes = [] := by
  rw [pieces, map_eq_nil_iff]
  constructor
  · intro h
    by_contra hne
    exact offsets_ne_nil hne h
  · intro h
    simp only [offsets, if_pos h]

lemma Arrived.chunksOf_eq_nil (h : family.Arrived budget uploadId chunks)
    (hp : p ∈ family.arrays) : chunksOf p.1 chunks = [] ↔ p.2.bytes = [] := by
  have hperm := h.chunksOf_perm hp
  rw [← pieces_eq_nil p.1 budget]
  constructor
  · intro hnil
    rw [hnil] at hperm
    exact nil_perm.mp hperm
  · intro hnil
    rw [hnil] at hperm
    exact perm_nil.mp hperm

lemma Binned.get?_eq_some (hbinned : family.Binned chunks fields)
    (h : family.Arrived budget uploadId chunks) : fields.get? key = some fi ↔
      ∃ p ∈ family.arrays, p.1 = key ∧ p.2.bytes ≠ [] ∧
        fi = ⟨chunksOf p.1 chunks, p.2.bytes.length⟩ := by
  constructor
  · intro hget
    have hsome : ∃ p ∈ family.arrays, p.1 = key := by
      by_contra hnone
      push Not at hnone
      rw [hbinned.other key hnone] at hget
      cases hget
    obtain ⟨p, hp, rfl⟩ := hsome
    rw [hbinned.own p hp] at hget
    split_ifs at hget with hnil
    exact ⟨p, hp, rfl, fun hbytes => hnil ((h.chunksOf_eq_nil hp).mpr hbytes),
      (Option.some_inj.mp hget).symm⟩
  · rintro ⟨p, hp, rfl, hne, rfl⟩
    rw [hbinned.own p hp, if_neg fun hnil => hne ((h.chunksOf_eq_nil hp).mp hnil)]

lemma Arrived.delivers (h : family.Arrived budget uploadId chunks) (hp : p ∈ family.arrays)
    (hne : p.2.bytes ≠ []) : Delivers ⟨chunksOf p.1 chunks, p.2.bytes.length⟩ p.2.bytes := by
  have hperm := h.chunksOf_perm hp
  constructor
  case validated => exact validate_pieces hne hperm
  case assembled => exact assemble_pieces hne hperm
  case totalBytes => rfl
  case within => exact family.within p hp

lemma Binned.delivers (key : ArrayKey) (hbinned : family.Binned chunks fields)
    (h : family.Arrived budget uploadId chunks) (hget : fields.get? key = some fi) :
    ∃ data, Delivers fi data := by
  obtain ⟨p, hp, _, hne, rfl⟩ := (hbinned.get?_eq_some h).mp hget
  exact ⟨p.2.bytes, h.delivers hp hne⟩

lemma Binned.deliverable (hbinned : family.Binned chunks fields)
    (h : family.Arrived budget uploadId chunks) : Deliverable fields := by
  constructor
  case top =>
    rintro ⟨fieldId, fi⟩ hmem
    exact hbinned.delivers (.top fieldId) h (SortedMap.mem_toList.mp hmem)
  case container =>
    rintro ⟨key, fi⟩ hmem
    exact hbinned.delivers (.container key) h (SortedMap.mem_toList.mp hmem)

lemma Binned.payload_eq (hbinned : family.Binned chunks fields)
    (h : family.Arrived budget uploadId chunks) (key : ArrayKey) :
    (fields.get? key).map payload = family.nonempty? key := by
  apply Option.ext
  intro bytes
  rw [nonempty?_eq_some, Option.map_eq_some_iff]
  constructor
  · rintro ⟨fi, hget, hpayload⟩
    obtain ⟨p, hp, hkey, hne, rfl⟩ := (hbinned.get?_eq_some h).mp hget
    rw [(h.delivers hp hne).payload] at hpayload
    exact ⟨p, hp, hkey, hne, hpayload⟩
  · rintro ⟨p, hp, hkey, hne, rfl⟩
    exact ⟨_, (hbinned.get?_eq_some h).mpr ⟨p, hp, hkey, hne, rfl⟩, (h.delivers hp hne).payload⟩

lemma ofNumber?_isSome {fieldId : ℤ} (h : (ArrayFieldId.ofNumber? fieldId).isSome = true) :
    0 ≤ fieldId ∧ fieldId < 35 := by
  unfold ArrayFieldId.ofNumber? at h
  split_ifs at h with hneg
  · cases h
  · have hlt : fieldId.toNat < ArrayFieldId.all.length := by
      rw [Option.isSome_iff_exists] at h
      obtain ⟨field, hfield⟩ := h
      exact (List.getElem?_eq_some_iff.mp hfield).1
    have hlength : ArrayFieldId.all.length = 35 := rfl
    omega

lemma top_number {fieldId : I32} (h : 0 < (ArrayKey.top fieldId).elementSize) :
    0 ≤ fieldId.val ∧ fieldId.val < 35 := by
  change 0 < arrayFieldElementSize (-1) fieldId.val at h
  unfold arrayFieldElementSize at h
  rw [if_pos (by decide)] at h
  cases hfield : ArrayFieldId.ofNumber? fieldId.val with
  | none =>
    rw [hfield] at h
    exact absurd h (by decide)
  | some field => exact ofNumber?_isSome (Option.isSome_iff_exists.mpr ⟨field, hfield⟩)

lemma top_size (hknown : ∀ q ∈ fields.top.toList, 0 < (ArrayKey.top q.1).elementSize) :
    fields.top.size ≤ kMaxPipeArrayFields := by
  have hnodup : (fields.top.toList.map fun q => q.1.val).Nodup := by
    have hkeys := fields.top.nodup_keys.map Subtype.val_injective
    rw [map_map] at hkeys
    exact hkeys
  have hsubset : (fields.top.toList.map fun q => q.1.val) ⊆ (range 35).map Nat.cast := by
    intro number hnumber
    obtain ⟨q, hmem, rfl⟩ := mem_map.mp hnumber
    obtain ⟨hlow, hhigh⟩ := top_number (hknown q hmem)
    apply mem_map.mpr
    exact ⟨q.1.val.toNat, mem_range.mpr (by omega), Int.toNat_of_nonneg hlow⟩
  have hle := (hnodup.subperm hsubset).length_le
  rw [length_map, length_map, length_range] at hle
  exact hle.trans (by decide)

lemma Binned.top_size (hbinned : family.Binned chunks fields)
    (h : family.Arrived budget uploadId chunks) : fields.top.size ≤ kMaxPipeArrayFields := by
  apply ArrayFamily.top_size
  rintro ⟨fieldId, fi⟩ hmem
  have hget : fields.get? (.top fieldId) = some fi := SortedMap.mem_toList.mp hmem
  obtain ⟨p, hp, hkey, _⟩ := (hbinned.get?_eq_some h).mp hget
  have hpos := elemSize_pos p
  rw [← family.registered p hp, hkey] at hpos
  exact hpos

lemma mem_containerKeys {key : ContainerArrayKey} : key ∈ family.containerKeys ↔
    ∃ p ∈ family.arrays, p.1 = .container key ∧ p.2.bytes ≠ [] := by
  rw [containerKeys, mem_filterMap]
  constructor
  · rintro ⟨⟨key', data⟩, hp, hkey⟩
    cases key' with
    | top fieldId => cases hkey
    | container key' =>
      simp only at hkey
      split_ifs at hkey with hempty
      cases hkey
      exact ⟨_, hp, rfl, hempty⟩
  · rintro ⟨⟨key', data⟩, hp, hkey, hne⟩
    subst hkey
    exact ⟨_, hp, if_neg hne⟩

lemma nodup_containerKeys (family : ArrayFamily) : family.containerKeys.Nodup := by
  have hkeys : family.arrays.Pairwise fun p q => p.1 ≠ q.1 := pairwise_map.mp family.nodup
  apply hkeys.filterMap
  rintro ⟨key, data⟩ ⟨key', data'⟩ hne container hcontainer container' hcontainer' heq
  cases key with
  | top fieldId => cases hcontainer
  | container k =>
    cases key' with
    | top fieldId => cases hcontainer'
    | container k' =>
      simp only at hcontainer hcontainer'
      split_ifs at hcontainer hcontainer'
      cases hcontainer
      cases hcontainer'
      exact hne (congrArg ArrayKey.container heq)

lemma Binned.container_size (hbinned : family.Binned chunks fields)
    (h : family.Arrived budget uploadId chunks) :
    fields.container.size = family.containerKeys.length := by
  have hperm : (fields.container.toList.map Prod.fst).Perm family.containerKeys := by
    apply (perm_ext_iff_of_nodup fields.container.nodup_keys (nodup_containerKeys family)).mpr
    intro key
    rw [mem_containerKeys, mem_map]
    constructor
    · rintro ⟨⟨key, fi⟩, hmem, rfl⟩
      have hget : fields.get? (.container key) = some fi := SortedMap.mem_toList.mp hmem
      obtain ⟨p, hp, hkey, hne, _⟩ := (hbinned.get?_eq_some h).mp hget
      exact ⟨p, hp, hkey, hne⟩
    · rintro ⟨p, hp, hkey, hne⟩
      have hget := (hbinned.get?_eq_some h).mpr ⟨p, hp, hkey, hne, rfl⟩
      exact ⟨(key, _), SortedMap.mem_toList.mpr hget, rfl⟩
  rw [← hperm.length_eq, length_map]
  rfl

lemma recorded_fresh (family : ArrayFamily) : family.Recorded {} := by
  rintro ⟨key, data⟩ _
  cases key with
  | top fieldId | container key => exact .inl rfl

/-- A fresh upload accepts all requests of a family, and then it has their chunks. -/
lemma upload_accepted (uploads : ChunkedUploads) (hfresh : uploads uploadId = some {})
    {requests : List SendArrayChunkRequest}
    (hperm : requests.Perm (family.requests uploadId budget)) :
    (∀ answer ∈ (sendArrayChunks uploads requests).2, answer.isOk = true) ∧
      ∃ state, (sendArrayChunks uploads requests).1 uploadId = some state ∧
        family.Arrived budget uploadId state.chunks := by
  obtain ⟨hok, state, hstate, hchunks⟩ := sendArrayChunks_accepted hfresh (recorded_fresh family)
    requests fun r hr => isPiece_of_mem_requests (hperm.subset hr)
  refine ⟨hok, state, hstate, ?_⟩
  rw [hchunks]
  exact hperm.map _

end ArrayFamily

open ArrayFamily

theorem chunked_upload_delivers {Header : Type} (proto : Protobuf Header)
    (hproto : ∀ header, proto.parse (proto.serialize header) = some header) (header : Header)
    (hheader : (proto.serialize header).length ≤ kMaxProtobufMessageBytes) (family : ArrayFamily)
    (hcount : family.containerKeys.length ≤ kMaxPipeContainerArrays) (budget : ℤ)
    (uploads : ChunkedUploads) (uploadId : String) (hfresh : uploads uploadId = some {})
    (requests : List SendArrayChunkRequest)
    (hperm : requests.Perm (family.requests uploadId budget)) :
    (∀ answer ∈ (sendArrayChunks uploads requests).2, answer.isOk = true) ∧
      ∃ state bytes, (sendArrayChunks uploads requests).1 uploadId = some state ∧
        writeChunkedRequestToPipe proto header state.chunks = (.success, bytes) ∧
        ∀ rest, ∃ request, readChunkedRequestFromPipe proto (bytes ++ rest) = some request ∧
          request.header = header ∧ request.rest = rest ∧
          (∀ fieldId, request.arrays.get? fieldId = family.nonempty? (.top fieldId)) ∧
          ∀ key, request.containerArrays.get? key = family.nonempty? (.container key) := by
  obtain ⟨hok, state, hstate, harrived⟩ := upload_accepted uploads hfresh hperm
  obtain ⟨fields, hfold, hbinned⟩ := foldlM_binChunk state.chunks harrived.isPiece
  have htop := hbinned.top_size harrived
  have hcontainer : fields.container.size ≤ kMaxPipeContainerArrays := by
    rw [hbinned.container_size harrived]
    exact hcount
  have hdeliverable := hbinned.deliverable harrived
  refine ⟨hok, state, transferBytes proto header fields, hstate,
    write_eq hheader hfold htop hcontainer hdeliverable, fun rest => ?_⟩
  refine ⟨_, read_eq (hproto header) hheader htop hcontainer hdeliverable rest, rfl, rfl,
    fun fieldId => ?_, fun key => ?_⟩
  · show (fields.top.mapValues payload).get? fieldId = _
    rw [SortedMap.get?_mapValues]
    exact hbinned.payload_eq harrived (.top fieldId)
  · show (fields.container.mapValues payload).get? key = _
    rw [SortedMap.get?_mapValues]
    exact hbinned.payload_eq harrived (.container key)

def smallFamily : ArrayFamily where
  arrays :=
    [(.top (decodeI32 [5]), ⟨8, [0, 1, 2, 3, 4, 5, 6, 7, 8, 9, 10, 11, 12, 13, 14, 15],
      by decide, by decide⟩),
    (.container ⟨decodeI32 [10], decodeI32 [0], decodeI32 [0]⟩,
      ⟨4, [1, 0, 0, 0, 2, 0, 0, 0, 3, 0, 0, 0], by decide, by decide⟩),
    (.container ⟨decodeI32 [10], decodeI32 [1], decodeI32 [0]⟩, ⟨4, [], by decide, by decide⟩)]
  nodup := by decide
  registered := by decide
  index_nonneg := by decide
  within := by decide

def bytesProto : Protobuf (List UInt8) := ⟨id, some⟩

theorem smallFamily_delivered :
    ∃ state bytes, (sendArrayChunks (fun _ => some {}) (smallFamily.requests "upload" 3).reverse).1
        "upload" = some state ∧
      writeChunkedRequestToPipe bytesProto [7] state.chunks = (.success, bytes) := by
  obtain ⟨_, state, bytes, hstate, hwrite, _⟩ := chunked_upload_delivers bytesProto (fun _ => rfl)
    [7] (by decide) smallFamily (by decide) 3 (fun _ => some {}) "upload" rfl
    (smallFamily.requests "upload" 3).reverse (reverse_perm _)
  exact ⟨state, bytes, hstate, hwrite⟩

lemma too_many_containers {Header : Type} {proto : Protobuf Header} {header : Header}
    {family : ArrayFamily} {budget : ℤ} {uploadId : String} {chunks : List ArrayChunk}
    (hcount : kMaxPipeContainerArrays < family.containerKeys.length)
    (harrived : family.Arrived budget uploadId chunks) :
    writeChunkedRequestToPipe proto header chunks = (.validationFailed, []) := by
  obtain ⟨fields, hfold, hbinned⟩ := foldlM_binChunk chunks harrived.isPiece
  rw [← hbinned.container_size harrived] at hcount
  unfold writeChunkedRequestToPipe
  split_ifs
  · rfl
  · rw [hfold]
    simp only [if_pos hcount]
    split_ifs <;> rfl

def costMatrices (n : ℕ) (hn : n ≤ 2 ^ 31) : ArrayFamily where
  arrays := (finRange n).map fun i =>
    (.container ⟨decodeI32 [10], ⟨i.val, by omega⟩, decodeI32 [0]⟩,
      ⟨4, [0, 0, 0, 0], by decide, by decide⟩)
  nodup := by
    rw [map_map]
    apply (nodup_finRange n).map
    intro i j heq
    have hkey := ArrayKey.container.inj heq
    have hindex := congrArg (fun key => key.containerIndex.val) hkey
    exact Fin.ext (Int.ofNat_inj.mp hindex)
  registered := by
    intro p hp
    obtain ⟨i, _, rfl⟩ := List.mem_map.mp hp
    rfl
  index_nonneg := by
    intro p hp index hindex
    obtain ⟨i, _, rfl⟩ := List.mem_map.mp hp
    cases hindex
    exact Int.natCast_nonneg i.val
  within := by
    intro p hp
    obtain ⟨i, _, rfl⟩ := List.mem_map.mp hp
    show 4 ≤ kMaxPipeArrayBytes
    decide

lemma length_containerKeys_costMatrices (n : ℕ) (hn : n ≤ 2 ^ 31) :
    (costMatrices n hn).containerKeys.length = n := by
  have hkeys : (costMatrices n hn).containerKeys = (finRange n).map fun i =>
      ⟨decodeI32 [10], ⟨i.val, by omega⟩, decodeI32 [0]⟩ := by
    show ((finRange n).map _).filterMap _ = _
    rw [filterMap_map, ← filterMap_eq_map]
    rfl
  rw [hkeys, length_map, length_finRange]

theorem container_cap_refuses :
    (∀ answer ∈ (sendArrayChunks (fun _ => some {})
        ((costMatrices 10000001 (by decide)).requests "upload" 1024)).2, answer.isOk = true) ∧
      ∃ state, (sendArrayChunks (fun _ => some {})
          ((costMatrices 10000001 (by decide)).requests "upload" 1024)).1 "upload" = some state ∧
        writeChunkedRequestToPipe bytesProto [] state.chunks = (.validationFailed, []) := by
  have hall := List.Perm.refl ((costMatrices 10000001 (by decide)).requests "upload" 1024)
  obtain ⟨hok, state, hstate, harrived⟩ := upload_accepted (fun _ => some {}) rfl hall
  refine ⟨hok, state, hstate, too_many_containers ?_ harrived⟩
  rw [length_containerKeys_costMatrices]
  decide

end CuOpt.Grpc.Chunks
