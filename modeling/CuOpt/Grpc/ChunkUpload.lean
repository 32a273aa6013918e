import CuOpt.Grpc.ChunkPipe

/-! A chunked upload delivers every array: the requests are accepted in any order, and what a worker
reads from the pipe are the arrays that the client had. -/

namespace CuOpt.Grpc.Chunks

open ByteFrames List
open Nat (cast_mul)
open ChunkedUploadState (getMeta setMeta)
open SendArrayChunkRequest (chunk)

section Pieces

variable {key : ArrayKey} {data : TypedArray} {uploadId : String} {budget : ℤ} {offset step : ℕ}

def ArrayKey.fieldId : ArrayKey → I32
  | .top fieldId => fieldId
  | .container key => key.fieldId

def ArrayKey.containerFieldNum : ArrayKey → Option I32
  | .top _ => none
  | .container key => some key.containerFieldNum

def ArrayKey.containerIndex : ArrayKey → Option I32
  | .top _ => none
  | .container key => some key.containerIndex

def arrayRequests (key : ArrayKey) (data : TypedArray) (uploadId : String) (budget : ℤ) :
    List SendArrayChunkRequest :=
  match key with
  | .top fieldId => chunkTypedArray fieldId data uploadId budget
  | .container key =>
    chunkContainerTypedArray key.containerFieldNum key.containerIndex key.fieldId data uploadId
      budget

def offsets (data : TypedArray) (budget : ℤ) : List ℕ :=
  let step := elemsPerChunk budget data.elemSize
  if data.bytes = [] then [] else range' 0 ((data.size + step - 1) / step) step

def pieceCount (data : TypedArray) (budget : ℤ) (offset : ℕ) : ℕ :=
  min (elemsPerChunk budget data.elemSize) (data.size - offset)

def piece (key : ArrayKey) (data : TypedArray) (budget : ℤ) (offset : ℕ) : ArrayChunk where
  fieldId := key.fieldId
  elementOffset := offset
  totalElements := data.size
  data := (data.bytes.drop (offset * data.elemSize)).take
    (pieceCount data budget offset * data.elemSize)
  containerFieldNum := key.containerFieldNum
  containerIndex := key.containerIndex

def pieces (key : ArrayKey) (data : TypedArray) (budget : ℤ) : List ArrayChunk :=
  (offsets data budget).map (piece key data budget)

lemma arrayRequests_eq : arrayRequests key data uploadId budget =
    (offsets data budget).map fun offset => ⟨uploadId, piece key data budget offset⟩ := by
  cases key with
  | top fieldId =>
    show chunkTypedArray fieldId data uploadId budget = _
    simp only [chunkTypedArray, offsets]
    split_ifs
    · rfl
    · rfl
  | container key =>
    show (chunkTypedArray key.fieldId data uploadId budget).map _ = _
    simp only [chunkTypedArray, offsets]
    split_ifs
    · rfl
    · rw [map_map]
      rfl

lemma elemsPerChunk_pos (budget : ℤ) (elemSize : ℕ) : 0 < elemsPerChunk budget elemSize := by
  simp only [elemsPerChunk]
  split_ifs <;> omega

lemma size_mul_elemSize (data : TypedArray) : data.size * data.elemSize = data.bytes.length :=
  Nat.div_mul_cancel data.dvd

lemma size_pos (h : data.bytes ≠ []) : 0 < data.size := by
  have hlength : 0 < data.bytes.length := length_pos_of_ne_nil h
  rw [← size_mul_elemSize] at hlength
  exact Nat.pos_of_mul_pos_right hlength

lemma mem_offsets : offset ∈ offsets data budget → data.bytes ≠ [] ∧ offset < data.size := by
  intro h
  simp only [offsets] at h
  split_ifs at h with hempty
  · cases h
  · refine ⟨hempty, ?_⟩
    obtain ⟨k, hk, rfl⟩ := mem_range'.mp h
    have hstep := elemsPerChunk_pos budget data.elemSize
    have hmul := (Nat.lt_div_iff_mul_lt hstep).mp hk
    rw [Nat.zero_add, Nat.mul_comm]
    omega

lemma offsets_ne_nil (h : data.bytes ≠ []) : offsets data budget ≠ [] := by
  have hsize := size_pos h
  have hstep := elemsPerChunk_pos budget data.elemSize
  have hcount : 0 < (data.size + elemsPerChunk budget data.elemSize - 1) /
      elemsPerChunk budget data.elemSize := Nat.div_pos (by omega) hstep
  simp only [offsets, if_neg h]
  intro hnil
  rw [← length_eq_zero_iff, length_range'] at hnil
  omega

lemma pieceCount_le (budget : ℤ) (h : offset ≤ data.size) :
    offset + pieceCount data budget offset ≤ data.size := by
  unfold pieceCount
  omega

lemma length_piece (key : ArrayKey) (budget : ℤ) (h : offset ≤ data.size) :
    (piece key data budget offset).data.length = pieceCount data budget offset * data.elemSize := by
  show ((data.bytes.drop _).take _).length = _
  rw [length_take, length_drop, ← size_mul_elemSize, ← Nat.sub_mul]
  apply Nat.min_eq_left
  exact Nat.mul_le_mul_right _ (Nat.le_sub_of_add_le' (pieceCount_le budget h))

lemma chunkKey_piece : chunkKey (piece key data budget offset) = key := by
  cases key with
  | top fieldId | container key => rfl

lemma flatMap_range' (step total : ℕ) (n : ℕ) :
    ((range' 0 n step).flatMap fun offset =>
      range' offset (min step (total - offset))) = range (min (step * n) total) := by
  induction n with
  | zero => simp
  | succ n ih =>
    have happend : range (min (step * n) total) ++
        range' (0 + step * n) (min step (total - (0 + step * n))) =
        range (min (step * (n + 1)) total) := by
      rw [range_eq_range', range_eq_range', Nat.zero_add]
      by_cases hle : step * n ≤ total
      · have hmin : min (step * n) total = step * n := Nat.min_eq_left hle
        have happend := range'_append_1 (s := 0) (m := step * n) (n := min step (total - step * n))
        rw [Nat.zero_add] at happend
        rw [hmin, happend]
        congr 1
        rw [Nat.mul_succ]
        omega
      · have hzero : min step (total - step * n) = 0 := by omega
        have hmin : min (step * n) total = min (step * (n + 1)) total := by
          rw [Nat.mul_succ]
          omega
        rw [hzero, hmin]
        exact append_nil _
    rw [range'_concat, flatMap_append, ih, flatMap_singleton]
    exact happend

def pieceElements (elemSize : ℕ) (ac : ArrayChunk) : List ℕ :=
  range' ac.elementOffset.toNat (ac.data.length / elemSize)

lemma pieceElements_piece (h : offset ≤ data.size) :
    pieceElements data.elemSize (piece key data budget offset) =
      range' offset (pieceCount data budget offset) := by
  rw [pieceElements, length_piece key budget h, Nat.mul_div_cancel _ data.elemSize_pos]
  rfl

lemma flatMap_pieceElements (key : ArrayKey) (budget : ℤ) (h : data.bytes ≠ []) :
    (pieces key data budget).flatMap (pieceElements data.elemSize) = range data.size := by
  have hstep := elemsPerChunk_pos budget data.elemSize
  have hall : (pieces key data budget).flatMap (pieceElements data.elemSize) =
      (offsets data budget).flatMap fun offset =>
        range' offset (pieceCount data budget offset) := by
    rw [pieces, flatMap_map]
    apply flatMap_congr
    intro offset hoffset
    exact pieceElements_piece (mem_offsets hoffset).2.le
  have hcover : min (elemsPerChunk budget data.elemSize *
      ((data.size + elemsPerChunk budget data.elemSize - 1) /
        elemsPerChunk budget data.elemSize)) data.size = data.size := by
    apply Nat.min_eq_right
    have hdiv := Nat.div_add_mod (data.size + elemsPerChunk budget data.elemSize - 1)
      (elemsPerChunk budget data.elemSize)
    have hmod := Nat.mod_lt (data.size + elemsPerChunk budget data.elemSize - 1) hstep
    omega
  rw [hall, offsets, if_neg h]
  exact (flatMap_range' _ _ _).trans (by rw [hcover])

end Pieces

/-- Arrays under different keys, of the registered element sizes and within the byte limit. -/
structure ArrayFamily where
  arrays : List (ArrayKey × TypedArray)
  nodup : (arrays.map Prod.fst).Nodup
  registered : ∀ p ∈ arrays, p.1.elementSize = p.2.elemSize
  index_nonneg : ∀ p ∈ arrays, ∀ index ∈ p.1.containerIndex, 0 ≤ index.val
  within : ∀ p ∈ arrays, p.2.bytes.length ≤ kMaxPipeArrayBytes

namespace ArrayFamily

variable {family : ArrayFamily} {p q : ArrayKey × TypedArray} {budget : ℤ} {ac : ArrayChunk}

def requests (family : ArrayFamily) (uploadId : String) (budget : ℤ) : List SendArrayChunkRequest :=
  family.arrays.flatMap fun p => arrayRequests p.1 p.2 uploadId budget

def nonempty? (family : ArrayFamily) (key : ArrayKey) : Option (List UInt8) :=
  (family.arrays.find? fun p => p.1 = key ∧ p.2.bytes ≠ []).map fun p => p.2.bytes

def containerKeys (family : ArrayFamily) : List ContainerArrayKey :=
  family.arrays.filterMap fun p =>
    match p.1 with
    | .top _ => none
    | .container key => if p.2.bytes = [] then none else some key

lemma eq_of_key (hp : p ∈ family.arrays) (hq : q ∈ family.arrays) (h : p.1 = q.1) : p = q :=
  inj_on_of_nodup_map family.nodup hp hq h

lemma nonempty?_eq_some {key : ArrayKey} {bytes : List UInt8} :
    family.nonempty? key = some bytes ↔
      ∃ p ∈ family.arrays, p.1 = key ∧ p.2.bytes ≠ [] ∧ p.2.bytes = bytes := by
  rw [nonempty?, Option.map_eq_some_iff]
  constructor
  · rintro ⟨p, hfind, hbytes⟩
    have hmem := mem_of_find?_eq_some hfind
    have hkeep := find?_some hfind
    rw [decide_eq_true_eq] at hkeep
    obtain ⟨hkey, hne⟩ := hkeep
    exact ⟨p, hmem, hkey, hne, hbytes⟩
  · rintro ⟨p, hp, hkey, hne, hbytes⟩
    cases hfind : family.arrays.find? fun p => decide (p.1 = key ∧ p.2.bytes ≠ []) with
    | none =>
      have hnone := find?_eq_none.mp hfind p hp
      exact absurd (decide_eq_true ⟨hkey, hne⟩) hnone
    | some q =>
      have hq := mem_of_find?_eq_some hfind
      have hkeep := find?_some hfind
      rw [decide_eq_true_eq] at hkeep
      refine ⟨q, rfl, ?_⟩
      rw [eq_of_key hq hp (hkeep.1.trans hkey.symm), hbytes]

def IsPiece (family : ArrayFamily) (budget : ℤ) (ac : ArrayChunk) : Prop :=
  ∃ p ∈ family.arrays, ∃ offset ∈ offsets p.2 budget, ac = piece p.1 p.2 budget offset

lemma isPiece_of_mem_requests {uploadId : String} {request : SendArrayChunkRequest}
    (h : request ∈ family.requests uploadId budget) :
    request.uploadId = uploadId ∧ family.IsPiece budget request.chunk := by
  obtain ⟨p, hp, hrequest⟩ := mem_flatMap.mp h
  rw [arrayRequests_eq] at hrequest
  obtain ⟨offset, hoffset, rfl⟩ := mem_map.mp hrequest
  exact ⟨rfl, p, hp, offset, hoffset, rfl⟩

lemma elemSize_pos (p : ArrayKey × TypedArray) : (0 : ℤ) < p.2.elemSize :=
  Int.natCast_pos.mpr p.2.elemSize_pos

lemma size_mul (p : ArrayKey × TypedArray) :
    (p.2.size : ℤ) * p.2.elemSize = p.2.bytes.length := by
  rw [← cast_mul, size_mul_elemSize]

lemma size_le (hp : p ∈ family.arrays) {bound : ℤ} (hbound : (kMaxPipeArrayBytes : ℤ) ≤ bound) :
    (p.2.size : ℤ) ≤ bound / p.2.elemSize := by
  rw [Int.le_ediv_iff_mul_le (elemSize_pos p), size_mul]
  exact (Int.ofNat_le.mpr (family.within p hp)).trans hbound

def Recorded (family : ArrayFamily) (state : ChunkedUploadState) : Prop :=
  ∀ p ∈ family.arrays, (state.getMeta p.1).totalElements = 0 ∨
    (state.getMeta p.1).totalElements = p.2.size ∧ (state.getMeta p.1).elementSize = p.2.elemSize

lemma getMeta_setMeta (state : ChunkedUploadState) (key key' : ArrayKey) (field : FieldMeta) :
    (state.setMeta key field).getMeta key' = if key' = key then field else state.getMeta key' := by
  cases key with
  | top fieldId =>
    cases key' with
    | top fieldId' =>
      simp only [setMeta, getMeta, SortedMap.get?_insert,
        ArrayKey.top.injEq]
      split_ifs <;> rfl
    | container key' => rw [if_neg (by simp)]; rfl
  | container key =>
    cases key' with
    | top fieldId' => rw [if_neg (by simp)]; rfl
    | container key' =>
      simp only [setMeta, getMeta, SortedMap.get?_insert,
        ArrayKey.container.injEq]
      split_ifs <;> rfl

lemma chunkTarget_piece (hp : p ∈ family.arrays) {offset : ℕ} :
    chunkTarget (piece p.1 p.2 budget offset) = .ok p.1 := by
  obtain ⟨key, data⟩ := p
  have hoffset : ¬((offset : ℤ) < 0) := not_lt.mpr (Int.natCast_nonneg _)
  have htotal : ¬((data.size : ℤ) < 0) := not_lt.mpr (Int.natCast_nonneg _)
  cases key with
  | top fieldId =>
    have hvalid : arrayFieldIdIsValid fieldId.val = true := by
      have hsize : arrayFieldElementSize (-1) fieldId.val = data.elemSize :=
        family.registered _ hp
      have hpos := elemSize_pos (ArrayKey.top fieldId, data)
      unfold arrayFieldElementSize at hsize
      rw [if_pos (by decide)] at hsize
      unfold arrayFieldIdIsValid
      cases hfield : ArrayFieldId.ofNumber? fieldId.val with
      | none =>
        rw [hfield] at hsize
        simp only at hsize hpos
        omega
      | some field => rfl
    simp [chunkTarget, piece, ArrayKey.containerFieldNum, ArrayKey.containerIndex,
      ArrayKey.fieldId, hvalid, hoffset, htotal]
  | container key =>
    have hindex : ¬(key.containerIndex.val < 0) :=
      not_lt.mpr (family.index_nonneg _ hp key.containerIndex rfl)
    simp [chunkTarget, piece, ArrayKey.containerFieldNum, ArrayKey.containerIndex,
      ArrayKey.fieldId, hindex, hoffset, htotal]

lemma recordSize_piece (budget : ℤ) (offset : ℕ) (hp : p ∈ family.arrays) (hne : p.2.bytes ≠ [])
    {field : FieldMeta} (hfield : field.totalElements = 0 ∨
      field.totalElements = p.2.size ∧ field.elementSize = p.2.elemSize) :
    ∃ received, recordSize (piece p.1 p.2 budget offset) p.1 field =
      .ok ⟨p.2.size, p.2.elemSize, received⟩ := by
  have hpos : (0 : ℤ) < p.2.size := Int.natCast_pos.mpr (size_pos hne)
  have helem := elemSize_pos p
  unfold recordSize
  by_cases hfirst : field.totalElements = 0
  · have hsmall : ¬(kMaxChunkedArrayBytes / (p.2.elemSize : ℤ) < p.2.size) :=
      not_lt.mpr (size_le hp (by decide))
    refine ⟨field.receivedBytes, ?_⟩
    rw [if_pos ⟨hfirst, hpos⟩]
    simp only [family.registered p hp]
    rw [if_neg (not_le.mpr helem)]
    exact if_neg hsmall
  · obtain ⟨htotal, hsize⟩ := hfield.resolve_left hfirst
    refine ⟨field.receivedBytes, ?_⟩
    rw [if_neg fun h => hfirst h.1, ← htotal, ← hsize]

lemma checkBounds_piece {offset : ℕ} (hoffset : offset < p.2.size) (received : ℤ) :
    checkBounds (piece p.1 p.2 budget offset) ⟨p.2.size, p.2.elemSize, received⟩ = .ok () := by
  have helem := elemSize_pos p
  have hlength := length_piece p.1 budget hoffset.le
  have hin := pieceCount_le budget hoffset.le
  have haligned : ((piece p.1 p.2 budget offset).data.length : ℤ) % p.2.elemSize = 0 := by
    rw [hlength, cast_mul]
    exact Int.mul_emod_left _ _
  have hbound : (piece p.1 p.2 budget offset).elementOffset * p.2.elemSize +
      (piece p.1 p.2 budget offset).data.length ≤ p.2.size * p.2.elemSize := by
    show (offset : ℤ) * p.2.elemSize + _ ≤ _
    rw [hlength, cast_mul, ← add_mul]
    exact Int.mul_le_mul_of_nonneg_right (by exact_mod_cast hin) helem.le
  unfold checkBounds
  simp only [if_pos helem]
  rw [if_neg fun h => h.2 haligned, if_neg, if_neg (not_lt.mpr hbound)]
  exact not_lt.mpr (Int.ofNat_le.mpr hoffset.le)

lemma acceptChunk_piece {state : ChunkedUploadState} (hstate : family.Recorded state)
    (hac : family.IsPiece budget ac) : ∃ state', acceptChunk state ac = (state', .ok ()) ∧
      family.Recorded state' ∧ state'.chunks = state.chunks ++ [ac] := by
  obtain ⟨p, hp, offset, hoffset, rfl⟩ := hac
  obtain ⟨hne, hlt⟩ := mem_offsets hoffset
  obtain ⟨received, hrecord⟩ := recordSize_piece budget offset hp hne (hstate p hp)
  unfold acceptChunk
  rw [chunkTarget_piece hp]
  simp only [hrecord, checkBounds_piece hlt]
  refine ⟨_, rfl, ?_, ?_⟩
  · intro q hq
    have hmeta : ∀ (s : ChunkedUploadState) (key : ArrayKey) (cs : List ArrayChunk) (a b : ℤ),
        getMeta { s with chunks := cs, totalChunks := a, totalBytes := b } key =
          s.getMeta key := by
      intro s key cs a b
      cases key <;> rfl
    rw [hmeta, getMeta_setMeta]
    by_cases hkey : q.1 = p.1
    · rw [if_pos hkey, eq_of_key hq hp hkey]
      exact .inr ⟨rfl, rfl⟩
    · rw [if_neg hkey]
      exact hstate q hq
  · cases p.1 <;> rfl

lemma sendArrayChunks_accepted {uploads : ChunkedUploads} {state : ChunkedUploadState}
    {uploadId : String} (hupload : uploads uploadId = some state) (hstate : family.Recorded state)
    (requests : List SendArrayChunkRequest)
    (hrequests : ∀ r ∈ requests, r.uploadId = uploadId ∧ family.IsPiece budget r.chunk) :
    (∀ answer ∈ (sendArrayChunks uploads requests).2, answer.isOk = true) ∧
      ∃ state', (sendArrayChunks uploads requests).1 uploadId = some state' ∧
        state'.chunks = state.chunks ++ requests.map chunk := by
  induction requests generalizing uploads state with
  | nil =>
    refine ⟨nofun, state, hupload, ?_⟩
    rw [map_nil, append_nil]
  | cons request requests ih =>
    obtain ⟨hid, hpiece⟩ := hrequests request mem_cons_self
    obtain ⟨state', haccept, hstate', hchunks⟩ := acceptChunk_piece hstate hpiece
    have hsend : sendArrayChunk uploads request =
        (Function.update uploads uploadId (some state'), .ok ⟨uploadId, state'.totalChunks⟩) := by
      unfold sendArrayChunk
      rw [hid, hupload]
      simp only [haccept]
      rfl
    obtain ⟨hok, final, hfinal, hlist⟩ := ih (Function.update_self uploadId _ uploads) hstate'
      fun r hr => hrequests r (mem_cons_of_mem _ hr)
    simp only [sendArrayChunks, hsend]
    refine ⟨fun answer hanswer => ?_, final, hfinal, ?_⟩
    · rcases mem_cons.mp hanswer with rfl | hanswer
      · rfl
      · exact hok answer hanswer
    · rw [hlist, hchunks, append_assoc]
      rfl

def chunksOf (key : ArrayKey) (chunks : List ArrayChunk) : List ArrayChunk :=
  chunks.filter fun ac => chunkKey ac = key

lemma flatMap_eq_of_mem {α β : Type*} {l : List α} (hl : l.Nodup) {a : α} (ha : a ∈ l)
    {f : α → List β} (hf : ∀ b ∈ l, b ≠ a → f b = []) : l.flatMap f = f a := by
  obtain ⟨before, after, rfl⟩ := append_of_mem ha
  obtain ⟨_, hcons, hdisjoint⟩ := nodup_append.mp hl
  have hbefore : before.flatMap f = [] := by
    apply flatMap_eq_nil_iff.mpr
    intro b hb
    exact hf b (mem_append_left _ hb) (hdisjoint b hb a mem_cons_self)
  have hafter : after.flatMap f = [] := by
    apply flatMap_eq_nil_iff.mpr
    intro b hb
    refine hf b (mem_append_right _ (mem_cons_of_mem _ hb)) ?_
    rintro rfl
    exact (nodup_cons.mp hcons).1 hb
  rw [flatMap_append, flatMap_cons, hbefore, hafter, nil_append, append_nil]

lemma chunksOf_map_requests (uploadId : String) (hp : p ∈ family.arrays) :
    chunksOf p.1 ((family.requests uploadId budget).map chunk) =
      pieces p.1 p.2 budget := by
  have hrequests : (family.requests uploadId budget).map chunk =
      family.arrays.flatMap fun q => pieces q.1 q.2 budget := by
    rw [requests, map_flatMap]
    apply flatMap_congr
    intro q _
    rw [arrayRequests_eq, map_map]
    rfl
  have hown : chunksOf p.1 (pieces p.1 p.2 budget) = pieces p.1 p.2 budget := by
    apply filter_eq_self.mpr
    intro ac hac
    obtain ⟨offset, _, rfl⟩ := mem_map.mp hac
    exact decide_eq_true chunkKey_piece
  have hother : ∀ q ∈ family.arrays, q ≠ p → chunksOf p.1 (pieces q.1 q.2 budget) = [] := by
    intro q hq hne
    apply filter_eq_nil_iff.mpr
    intro ac hac hkey
    obtain ⟨offset, _, rfl⟩ := mem_map.mp hac
    rw [decide_eq_true_eq, chunkKey_piece] at hkey
    exact hne (eq_of_key hq hp hkey)
  rw [hrequests, chunksOf, filter_flatMap]
  exact (flatMap_eq_of_mem (family.nodup.of_map _) hp hother).trans hown

lemma addChunk_piece (hp : p ∈ family.arrays) {offset : ℕ} (hoffset : offset ∈ offsets p.2 budget)
    {fi : FieldChunks} (hfi : fi.totalBytes = 0 ∨ fi.totalBytes = p.2.bytes.length) :
    addChunk p.1.elementSize fi (piece p.1 p.2 budget offset) =
      some ⟨fi.chunks ++ [piece p.1 p.2 budget offset], p.2.bytes.length⟩ := by
  have hne := (mem_offsets hoffset).1
  have helem := elemSize_pos p
  have hpos : (0 : ℤ) < (piece p.1 p.2 budget offset).totalElements :=
    Int.natCast_pos.mpr (size_pos hne)
  have hbytes : (piece p.1 p.2 budget offset).totalElements * p.2.elemSize = p.2.bytes.length :=
    size_mul p
  have hmax : ¬(int64Max / (p.2.elemSize : ℤ) < (piece p.1 p.2 budget offset).totalElements) :=
    not_lt.mpr (size_le hp (by decide))
  have hcap : ¬((kMaxPipeArrayBytes : ℤ) < p.2.bytes.length) :=
    not_lt.mpr (Int.ofNat_le.mpr (family.within p hp))
  unfold addChunk
  rw [family.registered p hp]
  simp only [hbytes]
  rw [if_neg (not_le.mpr helem), if_neg (not_lt.mpr hpos.le), if_neg hpos.ne', if_neg hmax,
    if_neg hcap]
  rcases hfi with hzero | htotal
  · rw [if_pos hzero]
  · by_cases hzero : fi.totalBytes = 0
    · rw [if_pos hzero]
    · rw [if_neg hzero, if_neg (not_not.mpr htotal), htotal]

end ArrayFamily

def Fields.get? (fields : Fields) : ArrayKey → Option FieldChunks
  | .top fieldId => fields.top.get? fieldId
  | .container key => fields.container.get? key

lemma Fields.get_eq (fields : Fields) (key : ArrayKey) :
    fields.get key = (fields.get? key).getD {} := by
  cases key <;> rfl

lemma Fields.get?_set (fields : Fields) (key key' : ArrayKey) (fi : FieldChunks) :
    (fields.set key fi).get? key' = if key' = key then some fi else fields.get? key' := by
  cases key with
  | top fieldId =>
    cases key' with
    | top fieldId' =>
      simp only [Fields.set, Fields.get?, SortedMap.get?_insert, ArrayKey.top.injEq]
      split_ifs <;> rfl
    | container key' => rw [if_neg (by simp)]; rfl
  | container key =>
    cases key' with
    | top fieldId' => rw [if_neg (by simp)]; rfl
    | container key' =>
      simp only [Fields.set, Fields.get?, SortedMap.get?_insert, ArrayKey.container.injEq]

namespace ArrayFamily

variable {family : ArrayFamily} {p : ArrayKey × TypedArray} {budget : ℤ} {chunks : List ArrayChunk}
  {fields : Fields}

structure Binned (family : ArrayFamily) (chunks : List ArrayChunk) (fields : Fields) : Prop where
  own : ∀ p ∈ family.arrays, fields.get? p.1 =
    if chunksOf p.1 chunks = [] then none else some ⟨chunksOf p.1 chunks, p.2.bytes.length⟩
  other : ∀ key, (∀ p ∈ family.arrays, p.1 ≠ key) → fields.get? key = none

lemma binned_nil (family : ArrayFamily) : family.Binned [] {} := by
  constructor
  case own => exact fun p _ => by cases p.1 <;> rfl
  case other => exact fun key _ => by cases key <;> rfl

lemma Binned.binChunk (h : family.Binned chunks fields) {ac : ArrayChunk}
    (hac : family.IsPiece budget ac) :
    ∃ fields', binChunk fields ac = some fields' ∧ family.Binned (chunks ++ [ac]) fields' := by
  obtain ⟨p, hp, offset, hoffset, rfl⟩ := hac
  have hget := h.own p hp
  have hchunks : (fields.get p.1).chunks = chunksOf p.1 chunks := by
    rw [Fields.get_eq, hget]
    split_ifs with hnil
    · exact hnil.symm
    · rfl
  have htotal : (fields.get p.1).totalBytes = 0 ∨
      (fields.get p.1).totalBytes = p.2.bytes.length := by
    rw [Fields.get_eq, hget]
    split_ifs
    · exact .inl rfl
    · exact .inr rfl
  have hadd := addChunk_piece hp hoffset htotal
  rw [hchunks] at hadd
  have hown : chunksOf p.1 (chunks ++ [piece p.1 p.2 budget offset]) =
      chunksOf p.1 chunks ++ [piece p.1 p.2 budget offset] := by
    rw [chunksOf, filter_append]
    congr 1
    exact filter_cons_of_pos (decide_eq_true chunkKey_piece)
  refine ⟨fields.set p.1 ⟨chunksOf p.1 chunks ++ [piece p.1 p.2 budget offset],
    p.2.bytes.length⟩, ?_, ?_⟩
  · show (addChunk (chunkKey (piece p.1 p.2 budget offset)).elementSize
      (fields.get (chunkKey (piece p.1 p.2 budget offset))) _).map _ = _
    simp only [chunkKey_piece, hadd]
    rfl
  · constructor
    case own =>
      intro q hq
      rw [Fields.get?_set]
      by_cases hkey : q.1 = p.1
      · rw [if_pos hkey, eq_of_key hq hp hkey, hown, if_neg (append_ne_nil_of_right_ne_nil _
          (cons_ne_nil _ _))]
      · have hskip : chunksOf q.1 (chunks ++ [piece p.1 p.2 budget offset]) =
            chunksOf q.1 chunks := by
          have hnot : chunksOf q.1 [piece p.1 p.2 budget offset] = [] := by
            apply filter_eq_nil_iff.mpr
            intro ac hac heq
            rw [mem_singleton.mp hac, decide_eq_true_eq, chunkKey_piece] at heq
            exact hkey heq.symm
          rw [chunksOf, filter_append]
          exact (congrArg _ hnot).trans (append_nil _)
        rw [if_neg hkey, h.own q hq, hskip]
    case other =>
      intro key hkey
      rw [Fields.get?_set, if_neg fun heq => hkey p hp heq.symm]
      exact h.other key hkey

lemma foldlM_binChunk (chunks : List ArrayChunk) (hchunks : ∀ ac ∈ chunks, family.IsPiece budget ac) :
    ∃ fields, chunks.foldlM Chunks.binChunk {} = some fields ∧ family.Binned chunks fields := by
  induction chunks using reverseRecOn with
  | nil => exact ⟨{}, rfl, binned_nil family⟩
  | append_singleton chunks ac ih =>
    obtain ⟨fields, hfold, hbinned⟩ := ih fun c hc => hchunks c (mem_append_left _ hc)
    obtain ⟨fields', hstep, hbinned'⟩ := hbinned.binChunk
      (hchunks ac (mem_append_right _ (mem_singleton_self ac)))
    refine ⟨fields', ?_, hbinned'⟩
    rw [foldlM_append, hfold]
    show foldlM Chunks.binChunk fields [ac] = _
    rw [foldlM_cons, hstep]
    rfl

end ArrayFamily

section Assembly

variable {key : ArrayKey} {data : TypedArray} {budget : ℤ} {chunks done : List ArrayChunk}
  {ac : ArrayChunk}

lemma placeChunk_piece {offset : ℕ} (hoffset : offset ∈ offsets data budget)
    {covered : ℕ → Bool}
    (hfree : ∀ i ∈ pieceElements data.elemSize (piece key data budget offset), covered i = false) :
    placeChunk data.bytes.length data.size data.elemSize covered (piece key data budget offset) =
      some fun i => covered i ||
        decide (i ∈ pieceElements data.elemSize (piece key data budget offset)) := by
  have hle := (mem_offsets hoffset).2.le
  have helem : (0 : ℤ) < data.elemSize := Int.natCast_pos.mpr data.elemSize_pos
  have hlength := length_piece key budget hle
  have hin := pieceCount_le budget hle
  have hsize : ((piece key data budget offset).data.length : ℤ) =
      pieceCount data budget offset * data.elemSize := by
    rw [hlength, cast_mul]
  have hcount : ((piece key data budget offset).data.length : ℤ) / data.elemSize =
      pieceCount data budget offset := by
    rw [hsize]
    exact Int.mul_ediv_cancel _ helem.ne'
  have hoff : (piece key data budget offset).elementOffset = offset := rfl
  have hbound : (offset : ℤ) * data.elemSize + pieceCount data budget offset * data.elemSize ≤
      data.bytes.length := by
    rw [← size_mul_elemSize, ← add_mul, cast_mul]
    exact Int.mul_le_mul_of_nonneg_right (by exact_mod_cast hin) helem.le
  have hmod : ((piece key data budget offset).data.length : ℤ) % data.elemSize = 0 := by
    rw [hsize]
    exact Int.mul_emod_left _ _
  have helements : pieceElements data.elemSize (piece key data budget offset) =
      range' offset (pieceCount data budget offset) := pieceElements_piece hle
  unfold placeChunk
  simp only [hcount, hmod, hoff]
  rw [if_neg (not_not.mpr rfl), if_neg (by omega), if_neg (by omega), if_neg (by omega)]
  rw [helements] at hfree ⊢
  exact markAll_eq_some nodup_range' hfree

def Holds (data : TypedArray) (covered : ℕ → Bool) (buffer : List UInt8) : Prop :=
  buffer.length = data.bytes.length ∧
    ∀ i, covered (i / data.elemSize) = true → buffer[i]? = data.bytes[i]?

lemma Holds.write (key : ArrayKey) {covered : ℕ → Bool} {buffer : List UInt8} (h : Holds data covered buffer)
    {offset : ℕ} (hoffset : offset ∈ offsets data budget) :
    Holds data (fun i => covered i ||
        decide (i ∈ pieceElements data.elemSize (piece key data budget offset)))
      (writeAt buffer (offset * data.elemSize) (piece key data budget offset).data) := by
  have hle := (mem_offsets hoffset).2.le
  have hpos := data.elemSize_pos
  have hlength := length_piece key budget hle
  have hfit : offset * data.elemSize + (piece key data budget offset).data.length ≤
      buffer.length := by
    rw [hlength, h.1, ← size_mul_elemSize, ← add_mul]
    exact Nat.mul_le_mul_right _ (pieceCount_le budget hle)
  refine ⟨(length_writeAt hfit).trans h.1, fun i hi => ?_⟩
  rw [getElem?_writeAt hfit, hlength, ← add_mul]
  have hinside : (offset * data.elemSize ≤ i ∧
      i < (offset + pieceCount data budget offset) * data.elemSize) ↔
      i / data.elemSize ∈ pieceElements data.elemSize (piece key data budget offset) := by
    rw [pieceElements_piece hle, mem_range'_1, Nat.le_div_iff_mul_le hpos,
      Nat.div_lt_iff_lt_mul hpos]
  by_cases hmem : i / data.elemSize ∈ pieceElements data.elemSize (piece key data budget offset)
  · obtain ⟨hlow, hhigh⟩ := hinside.mpr hmem
    rw [if_pos ⟨hlow, hhigh⟩]
    rw [add_mul] at hhigh
    show ((data.bytes.drop _).take _)[_]? = _
    rw [getElem?_take_of_lt (by omega), getElem?_drop]
    congr 1
    omega
  · rw [if_neg (fun hand => hmem (hinside.mp hand))]
    apply h.2
    simpa [hmem] using hi

/-- Chunks of an array that share no element, one after the other. -/
lemma foldlM_assembleChunk (chunks : List ArrayChunk)
    (hchunks : ∀ ac ∈ chunks, ac ∈ pieces key data budget)
    (hnodup : (chunks.flatMap (pieceElements data.elemSize)).Nodup) :
    ∃ buffer, chunks.foldlM (assembleChunk data.bytes.length data.size data.elemSize)
        ((fun _ => false), replicate data.bytes.length 0) =
        some ((fun i => decide (i ∈ chunks.flatMap (pieceElements data.elemSize))), buffer) ∧
      Holds data (fun i => decide (i ∈ chunks.flatMap (pieceElements data.elemSize))) buffer := by
  induction chunks using reverseRecOn with
  | nil =>
    refine ⟨replicate data.bytes.length 0, rfl, length_replicate, fun i hi => ?_⟩
    simp at hi
  | append_singleton chunks ac ih =>
    rw [flatMap_append, flatMap_singleton] at hnodup ⊢
    obtain ⟨hnodup, _, hdisjoint⟩ := nodup_append.mp hnodup
    obtain ⟨buffer, hfold, hholds⟩ := ih (fun c hc => hchunks c (mem_append_left _ hc)) hnodup
    obtain ⟨offset, hoffset, rfl⟩ := mem_map.mp
      (hchunks ac (mem_append_right _ (mem_singleton_self ac)))
    have hfree : ∀ i ∈ pieceElements data.elemSize (piece key data budget offset),
        decide (i ∈ chunks.flatMap (pieceElements data.elemSize)) = false := by
      intro i hi
      rw [decide_eq_false_iff_not]
      exact fun hmem => hdisjoint i hmem i hi rfl
    have hcovered : (fun i => decide (i ∈ chunks.flatMap (pieceElements data.elemSize)) ||
        decide (i ∈ pieceElements data.elemSize (piece key data budget offset))) =
        fun i => decide (i ∈ chunks.flatMap (pieceElements data.elemSize) ++
          pieceElements data.elemSize (piece key data budget offset)) := by
      funext i
      simp
    have hposition : ((piece key data budget offset).elementOffset *
        (data.elemSize : ℤ)).toNat = offset * data.elemSize := by
      show ((offset : ℤ) * (data.elemSize : ℤ)).toNat = _
      rw [← cast_mul, Int.toNat_natCast]
    have hnext := hholds.write key hoffset
    rw [hcovered] at hnext
    refine ⟨_, ?_, hnext⟩
    rw [foldlM_append, hfold]
    show foldlM (assembleChunk data.bytes.length data.size data.elemSize) (_, buffer)
      [piece key data budget offset] = _
    rw [foldlM_cons]
    simp only [assembleChunk, placeChunk_piece hoffset hfree, hcovered, hposition, Option.map_some]
    rfl

lemma foldlM_placeChunk_eq (totalBytes totalElements elemSize : ℤ) (chunks : List ArrayChunk)
    (progress : (ℕ → Bool) × List UInt8) :
    chunks.foldlM (placeChunk totalBytes totalElements elemSize) progress.1 =
      (chunks.foldlM (assembleChunk totalBytes totalElements elemSize) progress).map Prod.fst := by
  induction chunks generalizing progress with
  | nil => rfl
  | cons ac chunks ih =>
    rw [foldlM_cons, foldlM_cons]
    cases hplace : placeChunk totalBytes totalElements elemSize progress.1 ac with
    | none =>
      have hnone : assembleChunk totalBytes totalElements elemSize progress ac = none := by
        rw [assembleChunk, hplace]
        rfl
      rw [hnone]
      rfl
    | some covered =>
      have hsome : assembleChunk totalBytes totalElements elemSize progress ac =
          some (covered, writeAt progress.2 (ac.elementOffset * elemSize).toNat ac.data) := by
        rw [assembleChunk, hplace]
        rfl
      rw [hsome]
      exact ih (covered, _)

lemma foldlM_placeChunk (chunks : List ArrayChunk)
    (hchunks : ∀ ac ∈ chunks, ac ∈ pieces key data budget)
    (hnodup : (chunks.flatMap (pieceElements data.elemSize)).Nodup) :
    chunks.foldlM (placeChunk data.bytes.length data.size data.elemSize) (fun _ => false) =
      some fun i => decide (i ∈ chunks.flatMap (pieceElements data.elemSize)) := by
  obtain ⟨buffer, hfold, _⟩ := foldlM_assembleChunk chunks hchunks hnodup
  have heq := foldlM_placeChunk_eq data.bytes.length data.size data.elemSize chunks
    ((fun _ => false), replicate data.bytes.length 0)
  rw [hfold] at heq
  exact heq

variable (hne : data.bytes ≠ []) (hperm : chunks.Perm (pieces key data budget))

include hne hperm

lemma flatMap_perm :
    (chunks.flatMap (pieceElements data.elemSize)).Perm (range data.size) := by
  rw [← flatMap_pieceElements key budget hne]
  exact hperm.flatMap_right _

lemma elementWidth_pieces :
    elementWidth ⟨chunks, data.bytes.length⟩ = some ((data.size : ℤ), (data.elemSize : ℤ)) := by
  have hpos : (0 : ℤ) < data.size := Int.natCast_pos.mpr (size_pos hne)
  have helem : (0 : ℤ) < data.elemSize := Int.natCast_pos.mpr data.elemSize_pos
  have hbytes : (data.bytes.length : ℤ) = data.size * data.elemSize := by
    rw [← cast_mul, size_mul_elemSize]
  have hpieces : pieces key data budget ≠ [] := by
    intro hnil
    exact offsets_ne_nil hne (map_eq_nil_iff.mp hnil)
  cases hlist : chunks with
  | nil =>
    rw [hlist] at hperm
    exact absurd (nil_perm.mp hperm) hpieces
  | cons first rest =>
    have hfirst : first ∈ pieces key data budget :=
      hperm.subset (hlist ▸ mem_cons_self)
    obtain ⟨offset, _, rfl⟩ := mem_map.mp hfirst
    have htotal : (piece key data budget offset).totalElements = data.size := rfl
    have hdiv : (data.bytes.length : ℤ) / data.size = data.elemSize := by
      rw [hbytes]
      exact Int.mul_ediv_cancel_left _ hpos.ne'
    have hmod : (data.bytes.length : ℤ) % data.size = 0 := by
      rw [hbytes]
      exact Int.mul_emod_right _ _
    simp only [elementWidth, htotal, hdiv, hmod]
    rw [if_neg (by omega), if_neg (not_le.mpr helem)]

omit hne in
theorem single_pieces {fi : FieldChunks} (hfi : fi = ⟨chunks, data.bytes.length⟩)
    (hsingle : fi.single? = some ac) : ac.data = data.bytes := by
  subst hfi
  unfold FieldChunks.single? at hsingle
  split at hsingle
  case h_2 => cases hsingle
  case h_1 first hlist =>
    split at hsingle
    case isFalse => cases hsingle
    case isTrue hwhole =>
    cases hsingle
    have hmem : ac ∈ pieces key data budget := by
      apply hperm.subset
      rw [show chunks = [ac] from hlist]
      exact mem_singleton_self ac
    obtain ⟨offset, hoffset, rfl⟩ := mem_map.mp hmem
    obtain ⟨hzero, hlength⟩ := hwhole
    have hoff : offset = 0 := by
      have : (offset : ℤ) = 0 := hzero
      omega
    subst hoff
    have hle := (mem_offsets hoffset).2.le
    have hlen : (piece key data budget 0).data.length = data.bytes.length := Int.ofNat_inj.mp hlength
    have hfront : (piece key data budget 0).data =
        data.bytes.take (pieceCount data budget 0 * data.elemSize) := by
      show ((data.bytes.drop (0 * data.elemSize)).take _) = _
      rw [Nat.zero_mul, drop_zero]
    rw [hfront] at hlen ⊢
    apply take_of_length_le
    rw [length_take] at hlen
    omega

omit hperm in
theorem total_ne_zero : ((data.bytes.length : ℤ)) ≠ 0 := by
  have := length_pos_of_ne_nil hne
  omega

lemma all_covered : (range (data.size : ℤ).toNat).all
    (fun i => decide (i ∈ chunks.flatMap (pieceElements data.elemSize))) = true := by
  rw [Int.toNat_natCast, all_eq_true]
  intro i hi
  exact decide_eq_true ((flatMap_perm hne hperm).mem_iff.mpr hi)

lemma validate_pieces : validateFieldChunks ⟨chunks, data.bytes.length⟩ = true := by
  have hnodup := (flatMap_perm hne hperm).nodup_iff.mpr nodup_range
  have hfold := foldlM_placeChunk chunks (fun ac hac => hperm.subset hac) hnodup
  unfold validateFieldChunks
  rw [if_neg (total_ne_zero hne)]
  split_ifs
  · rfl
  · simp only [elementWidth_pieces hne hperm, hfold]
    exact all_covered hne hperm

lemma assemble_pieces : assembleFieldPayload ⟨chunks, data.bytes.length⟩ = some data.bytes := by
  have hnodup := (flatMap_perm hne hperm).nodup_iff.mpr nodup_range
  obtain ⟨buffer, hfold, hlength, hholds⟩ := foldlM_assembleChunk chunks
    (fun ac hac => hperm.subset hac) hnodup
  unfold assembleFieldPayload
  rw [if_neg (total_ne_zero hne)]
  cases hsingle : FieldChunks.single? ⟨chunks, data.bytes.length⟩ with
  | some ac => exact congrArg some (single_pieces hperm rfl hsingle)
  | none =>
    simp only [elementWidth_pieces hne hperm, Int.toNat_natCast, hfold]
    have hall := all_covered hne hperm
    rw [Int.toNat_natCast] at hall
    rw [if_pos hall]
    congr 1
    apply ext_getElem?
    intro i
    by_cases hi : i < data.bytes.length
    · apply hholds
      apply decide_eq_true
      rw [(flatMap_perm hne hperm).mem_iff, mem_range, Nat.div_lt_iff_lt_mul data.elemSize_pos,
        size_mul_elemSize]
      exact hi
    · rw [getElem?_eq_none (by omega), getElem?_eq_none (by omega)]

end Assembly

end CuOpt.Grpc.Chunks
