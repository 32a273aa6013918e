import CuOpt.Grpc.ResultDownload

/-! Where the bytes of a downloaded array are from: each from the reply for its place, if and only if
each reply has all the elements that were asked for. -/

namespace CuOpt.Grpc.Downloads

open ByteFrames Chunks List
open Int (toNat_of_nonneg)
open Prod (fst)

structure Origin where
  request : GetResultChunkRequest
  response : GetResultChunkResponse
  place : ℕ

def origins (request : GetResultChunkRequest) (response : GetResultChunkResponse) :
    List (Option Origin) :=
  (List.range response.data.length).map fun place => some ⟨request, response, place⟩

def originByte : Option Origin → UInt8
  | some o => o.response.data.getD o.place 0
  | none => 0

lemma length_origins (request : GetResultChunkRequest) (response : GetResultChunkResponse) :
    (origins request response).length = response.data.length := by
  rw [origins, length_map, length_range]

lemma getElem?_origins (request : GetResultChunkRequest) {response : GetResultChunkResponse}
    {q : ℕ} (hq : q < response.data.length) :
    (origins request response)[q]? = some (some ⟨request, response, q⟩) := by
  rw [origins, getElem?_map, getElem?_range hq]
  rfl

lemma map_originByte (request : GetResultChunkRequest) (response : GetResultChunkResponse) :
    (origins request response).map originByte = response.data := by
  rw [origins, map_map]
  apply ext_getElem
  · rw [length_map, length_range]
  · intro q hq hq'
    rw [getElem_map, getElem_range]
    exact getD_eq_getElem _ _ hq'

lemma map_writeAt {α β : Type} (f : α → β) (buffer data : List α) (position : ℕ) :
    (writeAt buffer position data).map f = writeAt (buffer.map f) position (data.map f) := by
  simp only [writeAt, map_append, map_take, map_drop, length_map]

section Track

variable {stub : Stub} {desc : ResultArrayDescriptor} {downloadId : String} {budget : ℤ}

def Progress.bytesOf (progress : Progress (Option Origin)) : Progress UInt8 :=
  ⟨progress.calls, progress.bytes.map originByte⟩

lemma receiveChunk_data (progress : Progress (Option Origin)) (request : GetResultChunkRequest) :
    receiveChunk (fun _ resp => resp.data) stub desc progress.bytesOf request =
      (receiveChunk origins stub desc progress request).map Progress.bytesOf := by
  have hcalls : progress.bytesOf.calls = progress.calls := rfl
  rw [receiveChunk, receiveChunk, hcalls]
  cases stub progress.calls request with
  | error message => rfl
  | ok resp =>
    dsimp only
    split_ifs
    · rfl
    · rfl
    · simp only [Except.map, Progress.bytesOf, map_writeAt, map_originByte]

lemma foldlM_receiveChunk_data (requests : List GetResultChunkRequest)
    (progress : Progress (Option Origin)) :
    requests.foldlM (receiveChunk (fun _ resp => resp.data) stub desc) progress.bytesOf =
      (requests.foldlM (receiveChunk origins stub desc) progress).map Progress.bytesOf := by
  induction requests generalizing progress with
  | nil => rfl
  | cons request requests ih =>
    rw [foldlM_cons, foldlM_cons, receiveChunk_data]
    cases receiveChunk origins stub desc progress request with
    | error message => rfl
    | ok next => exact ih next

lemma downloadArray_data (calls : ℕ) :
    downloadArray (fun _ resp => resp.data) 0 stub downloadId budget desc calls =
      (downloadArray origins none stub downloadId budget desc calls).map Progress.bytesOf := by
  rw [downloadArray, downloadArray]
  split_ifs
  · rfl
  · rfl
  · rw [← foldlM_receiveChunk_data]
    congr 1
    rw [Progress.bytesOf, map_replicate]
    rfl

lemma downloadArrays_data (descriptors : List ResultArrayDescriptor) (calls : ℕ) :
    downloadArrays (fun _ resp => resp.data) 0 stub downloadId budget descriptors calls =
      (downloadArrays origins none stub downloadId budget descriptors calls).map
        (List.map fun p => (p.1, p.2.map originByte)) := by
  induction descriptors generalizing calls with
  | nil => rfl
  | cons desc descriptors ih =>
    rw [downloadArrays, downloadArrays]
    split_ifs with hempty
    · exact ih calls
    · rw [downloadArray_data]
      cases downloadArray origins none stub downloadId budget desc calls with
      | error message => rfl
      | ok progress =>
        have hcalls : progress.bytesOf.calls = progress.calls := rfl
        simp only [Except.map, hcalls, ih]
        cases downloadArrays origins none stub downloadId budget descriptors progress.calls with
        | error message => rfl
        | ok arrays => rfl

end Track

namespace ResultArrayDescriptor

def total (desc : ResultArrayDescriptor) : ℕ := desc.totalElements.toNat

def elemSize (desc : ResultArrayDescriptor) : ℕ := desc.elementSizeBytes.toNat

def wanted (desc : ResultArrayDescriptor) (budget : ℤ) (offset : ℕ) : ℕ :=
  min (elemsPerChunk budget desc.elemSize) (desc.total - offset)

def request (desc : ResultArrayDescriptor) (downloadId : String) (budget : ℤ) (offset : ℕ) :
    GetResultChunkRequest :=
  ⟨downloadId, desc.fieldId, offset, desc.wanted budget offset⟩

def offsets (desc : ResultArrayDescriptor) (budget : ℤ) : List ℕ :=
  let step := elemsPerChunk budget desc.elemSize
  List.range' 0 ((desc.total + step - 1) / step) step

end ResultArrayDescriptor

lemma chunkRequests_eq (downloadId : String) (budget : ℤ) (desc : ResultArrayDescriptor) :
    chunkRequests downloadId budget desc =
      (desc.offsets budget).map (desc.request downloadId budget) := rfl

section Receive

variable {stub : Stub} {desc : ResultArrayDescriptor} {downloadId : String} {budget : ℤ}
  {exchanges : List (ℕ × GetResultChunkResponse)} {bytes : List (Option Origin)} {next : ℕ}

structure Accepted (desc : ResultArrayDescriptor) (budget : ℤ)
    (x : ℕ × GetResultChunkResponse) : Prop where
  nonneg : 0 ≤ x.2.elementsInChunk
  le_wanted : x.2.elementsInChunk ≤ desc.wanted budget x.1
  length : (x.2.data.length : ℤ) = x.2.elementsInChunk * desc.elementSizeBytes

/-- What the buffer holds after some replies: the data of each reply at its place, behind it unwritten
cells up to the next offset. -/
structure Received (desc : ResultArrayDescriptor) (downloadId : String) (budget : ℤ)
    (exchanges : List (ℕ × GetResultChunkResponse)) (next : ℕ) (bytes : List (Option Origin)) :
    Prop where
  length : bytes.length = desc.total * desc.elemSize
  accepted : ∀ x ∈ exchanges, Accepted desc budget x
  before : ∀ x ∈ exchanges, x.1 + desc.wanted budget x.1 ≤ next
  copied : ∀ x ∈ exchanges, ∀ q < x.2.data.length, bytes[x.1 * desc.elemSize + q]? =
    some (some ⟨desc.request downloadId budget x.1, x.2, q⟩)
  missing : ∀ x ∈ exchanges, ∀ q, x.2.data.length ≤ q →
    q < desc.wanted budget x.1 * desc.elemSize → bytes[x.1 * desc.elemSize + q]? = some none
  fresh : ∀ p, next * desc.elemSize ≤ p → p < desc.total * desc.elemSize → bytes[p]? = some none

lemma received_start (hpos : 0 < desc.totalElements) (helem : 0 < desc.elementSizeBytes) :
    Received desc downloadId budget [] 0
      (replicate (desc.totalElements * desc.elementSizeBytes).toNat none) := by
  have hsize : (desc.totalElements * desc.elementSizeBytes).toNat = desc.total * desc.elemSize :=
    Int.toNat_mul hpos.le helem.le
  constructor
  case length => rw [length_replicate, hsize]
  case fresh =>
    intro p _ hp
    rw [getElem?_replicate, if_pos (by rwa [hsize])]
  all_goals exact fun x hx => absurd hx not_mem_nil

variable {x : ℕ × GetResultChunkResponse}

lemma Accepted.length_le (h : Accepted desc budget x) (helem : 0 < desc.elementSizeBytes) :
    x.2.data.length ≤ desc.wanted budget x.1 * desc.elemSize := by
  have hcast : (desc.elemSize : ℤ) = desc.elementSizeBytes := toNat_of_nonneg helem.le
  have hle : (x.2.data.length : ℤ) ≤ desc.wanted budget x.1 * desc.elementSizeBytes := by
    rw [h.length]
    exact mul_le_mul_of_nonneg_right h.le_wanted helem.le
  rw [← hcast] at hle
  exact_mod_cast hle

lemma Accepted.full_iff (h : Accepted desc budget x) (helem : 0 < desc.elementSizeBytes) :
    x.2.elementsInChunk = desc.wanted budget x.1 ↔
      x.2.data.length = desc.wanted budget x.1 * desc.elemSize := by
  have hcast : (desc.elemSize : ℤ) = desc.elementSizeBytes := toNat_of_nonneg helem.le
  have hlength := h.length
  constructor
  · intro hfull
    rw [hfull, ← hcast] at hlength
    exact_mod_cast hlength
  · intro hfull
    rw [hfull, Nat.cast_mul, hcast] at hlength
    exact (mul_right_cancel₀ helem.ne' hlength).symm

lemma Received.receive (h : Received desc downloadId budget exchanges next bytes)
    (helem : 0 < desc.elementSizeBytes) (hnext : next < desc.total)
    {resp : GetResultChunkResponse} (hacc : Accepted desc budget (next, resp)) :
    Received desc downloadId budget (exchanges ++ [(next, resp)])
      (next + elemsPerChunk budget desc.elemSize)
      (writeAt bytes (next * desc.elemSize)
        (origins (desc.request downloadId budget next) resp)) := by
  have hlength : resp.data.length ≤ desc.wanted budget next * desc.elemSize :=
    hacc.length_le helem
  have hwanted : next + desc.wanted budget next ≤ desc.total := by
    unfold ResultArrayDescriptor.wanted
    omega
  have hend : next * desc.elemSize + desc.wanted budget next * desc.elemSize ≤
      desc.total * desc.elemSize := by
    rw [← Nat.add_mul]
    exact Nat.mul_le_mul_right _ hwanted
  have hroom : next * desc.elemSize +
      (origins (desc.request downloadId budget next) resp).length ≤ bytes.length := by
    rw [length_origins, h.length]
    omega
  have hold : ∀ x ∈ exchanges, ∀ q < desc.wanted budget x.1 * desc.elemSize,
      x.1 * desc.elemSize + q < next * desc.elemSize := by
    intro x hx q hq
    have hle := Nat.mul_le_mul_right desc.elemSize (h.before x hx)
    rw [Nat.add_mul] at hle
    omega
  have hcell := getElem?_writeAt hroom
  rw [length_origins] at hcell
  constructor
  case length => rw [length_writeAt hroom, h.length]
  case accepted =>
    intro x hx
    rcases mem_append.mp hx with hx | hx
    · exact h.accepted x hx
    · rw [mem_singleton.mp hx]
      exact hacc
  case before =>
    intro x hx
    rcases mem_append.mp hx with hx | hx
    · exact (h.before x hx).trans (Nat.le_add_right _ _)
    · rw [mem_singleton.mp hx]
      exact Nat.add_le_add_left (min_le_left _ _) _
  case copied =>
    intro x hx q hq
    rcases mem_append.mp hx with hx | hx
    · have hbefore := hold x hx q (hq.trans_le ((h.accepted x hx).length_le helem))
      rw [hcell, if_neg fun hin => by omega]
      exact h.copied x hx q hq
    · rw [mem_singleton.mp hx] at hq ⊢
      rw [hcell, if_pos ⟨Nat.le_add_right _ _, Nat.add_lt_add_left hq _⟩, Nat.add_sub_cancel_left]
      exact getElem?_origins _ hq
  case missing =>
    intro x hx q hq hlt
    rcases mem_append.mp hx with hx | hx
    · have hbefore := hold x hx q hlt
      rw [hcell, if_neg fun hin => by omega]
      exact h.missing x hx q hq hlt
    · rw [mem_singleton.mp hx] at hq hlt ⊢
      dsimp only at hq hlt ⊢
      rw [hcell, if_neg fun hin => by omega]
      exact h.fresh _ (Nat.le_add_right _ _) (by omega)
  case fresh =>
    intro p hp hlt
    have hstep : desc.wanted budget next * desc.elemSize ≤
        elemsPerChunk budget desc.elemSize * desc.elemSize :=
      Nat.mul_le_mul_right _ (min_le_left _ _)
    rw [Nat.add_mul] at hp
    rw [hcell, if_neg fun hin => by omega]
    exact h.fresh p (by omega) hlt

variable {progress : Progress (Option Origin)}

lemma receiveChunk_ok (helem : 0 < desc.elementSizeBytes) {progress' : Progress (Option Origin)}
    {offset : ℕ}
    (h : receiveChunk origins stub desc progress (desc.request downloadId budget offset) =
      .ok progress') :
    ∃ resp, stub progress.calls (desc.request downloadId budget offset) = .ok resp ∧
      Accepted desc budget (offset, resp) ∧
      progress' = ⟨progress.calls + 1, writeAt progress.bytes (offset * desc.elemSize)
        (origins (desc.request downloadId budget offset) resp)⟩ := by
  rw [receiveChunk] at h
  cases hstub : stub progress.calls (desc.request downloadId budget offset) with
  | error message =>
    rw [hstub] at h
    cases h
  | ok resp =>
    rw [hstub] at h
    dsimp only at h
    split_ifs at h with hcount hlength
    simp only [not_or, not_lt] at hcount
    have hplace : ((offset : ℤ) * desc.elementSizeBytes).toNat = offset * desc.elemSize := by
      rw [Int.toNat_mul (Int.natCast_nonneg _) helem.le]
      rfl
    refine ⟨resp, rfl, ⟨hcount.1, hcount.2.1, not_not.mp hlength⟩, ?_⟩
    rw [← Except.ok.inj h]
    exact congrArg _ (congrArg (writeAt progress.bytes · _) hplace)

/-- The exchanges of a part of the offsets: the calls have consecutive numbers. -/
lemma foldlM_receiveChunk (helem : 0 < desc.elementSizeBytes) (n : ℕ) (start : ℕ)
    (hlt : ∀ offset ∈ range' start n (elemsPerChunk budget desc.elemSize), offset < desc.total)
    {progress' : Progress (Option Origin)}
    (hreceived : Received desc downloadId budget exchanges start progress.bytes)
    (h : ((range' start n (elemsPerChunk budget desc.elemSize)).map
      (desc.request downloadId budget)).foldlM (receiveChunk origins stub desc) progress =
        .ok progress') :
    ∃ later : List (ℕ × GetResultChunkResponse),
      later.map fst = range' start n (elemsPerChunk budget desc.elemSize) ∧
      (∀ (j : ℕ) (x : ℕ × GetResultChunkResponse), later[j]? = some x →
        stub (progress.calls + j) (desc.request downloadId budget x.1) = .ok x.2) ∧
      progress'.calls = progress.calls + n ∧
      ∃ last, Received desc downloadId budget (exchanges ++ later) last progress'.bytes := by
  induction n generalizing start progress exchanges with
  | zero =>
    rw [← Except.ok.inj h]
    refine ⟨[], rfl, fun j x hx => ?_, rfl, start, ?_⟩
    · rw [getElem?_nil] at hx
      cases hx
    · rwa [append_nil]
  | succ n ih =>
    rw [range'_succ] at h hlt
    rw [map_cons, foldlM_cons] at h
    cases hstep : receiveChunk origins stub desc progress (desc.request downloadId budget start) with
    | error message =>
      rw [hstep] at h
      cases h
    | ok middle =>
      rw [hstep] at h
      obtain ⟨resp, hstub, hacc, hmiddle⟩ := receiveChunk_ok helem hstep
      have hnext := hreceived.receive helem (hlt start mem_cons_self) hacc
      have hbytes : middle.bytes = writeAt progress.bytes (start * desc.elemSize)
          (origins (desc.request downloadId budget start) resp) := by rw [hmiddle]
      have hcalls : middle.calls = progress.calls + 1 := by rw [hmiddle]
      rw [← hbytes] at hnext
      obtain ⟨later, hfst, hcall, hcount, last, hlast⟩ :=
        ih _ (fun offset ho => hlt offset (mem_cons_of_mem start ho)) hnext h
      refine ⟨(start, resp) :: later, ?_, ?_, ?_, last, ?_⟩
      · rw [map_cons, hfst, range'_succ]
      · intro j x hx
        cases j with
        | zero =>
          rw [getElem?_cons_zero] at hx
          rw [← Option.some.inj hx]
          exact hstub
        | succ j =>
          rw [getElem?_cons_succ] at hx
          have hlater := hcall j x hx
          rw [hcalls] at hlater
          rw [← hlater]
          congr 1
          omega
      · rw [hcount, hcalls]
        omega
      · rwa [append_assoc] at hlast

lemma mem_offsets_lt {offset : ℕ} (h : offset ∈ desc.offsets budget) : offset < desc.total := by
  obtain ⟨k, hk, rfl⟩ := mem_range'.mp h
  have hstep := elemsPerChunk_pos budget desc.elemSize
  have hmul := (Nat.lt_div_iff_mul_lt hstep).mp hk
  rw [Nat.zero_add, Nat.mul_comm]
  omega

lemma exists_offset {e : ℕ} (he : e < desc.total) :
    ∃ offset ∈ desc.offsets budget, offset ≤ e ∧ e < offset + desc.wanted budget offset := by
  have hstep := elemsPerChunk_pos budget desc.elemSize
  have hcover : min (elemsPerChunk budget desc.elemSize *
      ((desc.total + elemsPerChunk budget desc.elemSize - 1) /
        elemsPerChunk budget desc.elemSize)) desc.total = desc.total := by
    apply Nat.min_eq_right
    have hdiv := Nat.div_add_mod (desc.total + elemsPerChunk budget desc.elemSize - 1)
      (elemsPerChunk budget desc.elemSize)
    have hmod := Nat.mod_lt (desc.total + elemsPerChunk budget desc.elemSize - 1) hstep
    omega
  have hmem := mem_range.mpr he
  rw [← hcover, ← flatMap_range'] at hmem
  obtain ⟨offset, hoffset, hin⟩ := mem_flatMap.mp hmem
  obtain ⟨hle, hlt⟩ := mem_range'_1.mp hin
  exact ⟨offset, hoffset, hle, hlt⟩

/-- The bytes of an array are from the replies that the calls from `calls` on got. -/
lemma downloadArray_received (hpos : 0 < desc.totalElements) {calls : ℕ}
    (h : downloadArray origins none stub downloadId budget desc calls = .ok progress) :
    0 < desc.elementSizeBytes ∧ ∃ exchanges : List (ℕ × GetResultChunkResponse),
      exchanges.map fst = desc.offsets budget ∧
      (∀ (j : ℕ) (x : ℕ × GetResultChunkResponse), exchanges[j]? = some x →
        stub (calls + j) (desc.request downloadId budget x.1) = .ok x.2) ∧
      progress.calls = calls + (desc.offsets budget).length ∧
      ∃ last, Received desc downloadId budget exchanges last progress.bytes := by
  rw [downloadArray] at h
  split_ifs at h with helem hsize
  have helem' : 0 < desc.elementSizeBytes := not_le.mp helem
  obtain ⟨later, hfst, hcall, hcount, last, hlast⟩ := foldlM_receiveChunk helem' _ 0
    (fun offset ho => mem_offsets_lt ho) (received_start hpos helem') h
  refine ⟨helem', later, hfst, hcall, ?_, last, hlast⟩
  rw [hcount, ResultArrayDescriptor.offsets, length_range']

/-- Each byte was copied from a reply for the field and for its position, by what `field` and `offset`
say of the reply. -/
def CopiedFrom (field : Origin → I32) (offset : Origin → ℤ) (desc : ResultArrayDescriptor)
    (cells : List (Option Origin)) : Prop :=
  ∀ p < cells.length, ∃ o, cells[p]? = some (some o) ∧ field o = desc.fieldId ∧
    offset o * desc.elementSizeBytes + o.place = p

def Answered : ResultArrayDescriptor → List (Option Origin) → Prop :=
  CopiedFrom (fun o => o.request.fieldId) fun o => o.request.elementOffset

def Labelled : ResultArrayDescriptor → List (Option Origin) → Prop :=
  CopiedFrom (fun o => o.response.fieldId) fun o => o.response.elementOffset

def Names (request : GetResultChunkRequest) (response : GetResultChunkResponse) : Prop :=
  response.fieldId = request.fieldId ∧ response.elementOffset = request.elementOffset

variable {last : ℕ}

section

variable (h : Received desc downloadId budget exchanges last bytes)
include h

lemma Received.exists_exchange (helem : 0 < desc.elementSizeBytes)
    (hfst : exchanges.map fst = desc.offsets budget) {p : ℕ} (hp : p < bytes.length) :
    ∃ x ∈ exchanges, ∃ q < desc.wanted budget x.1 * desc.elemSize, p = x.1 * desc.elemSize + q := by
  have hsize : 0 < desc.elemSize := by
    unfold ResultArrayDescriptor.elemSize
    omega
  rw [h.length] at hp
  have he : p / desc.elemSize < desc.total := Nat.div_lt_of_lt_mul (by rwa [Nat.mul_comm])
  obtain ⟨offset, hoffset, hle, hlt⟩ := exists_offset he
  rw [← hfst] at hoffset
  obtain ⟨x, hx, rfl⟩ := mem_map.mp hoffset
  have hlow : x.1 * desc.elemSize ≤ p :=
    (Nat.mul_le_mul_right _ hle).trans (Nat.div_mul_le_self p desc.elemSize)
  have hhigh : p < (x.1 + desc.wanted budget x.1) * desc.elemSize :=
    (Nat.div_lt_iff_lt_mul hsize).mp hlt
  rw [Nat.add_mul] at hhigh
  exact ⟨x, hx, p - x.1 * desc.elemSize, by omega, by omega⟩

lemma Received.place_lt (hfst : exchanges.map fst = desc.offsets budget) (hx : x ∈ exchanges)
    {q : ℕ} (hq : q < desc.wanted budget x.1 * desc.elemSize) :
    x.1 * desc.elemSize + q < bytes.length := by
  have hlt : x.1 < desc.total := mem_offsets_lt (hfst ▸ mem_map_of_mem hx)
  have hwanted : x.1 + desc.wanted budget x.1 ≤ desc.total := by
    unfold ResultArrayDescriptor.wanted
    omega
  have hle := Nat.mul_le_mul_right desc.elemSize hwanted
  rw [Nat.add_mul] at hle
  rw [h.length]
  omega

/-- Each byte is copied exactly if each reply is full. -/
lemma Received.copied_iff (helem : 0 < desc.elementSizeBytes)
    (hfst : exchanges.map fst = desc.offsets budget) :
    (∀ p < bytes.length, ∃ o, bytes[p]? = some (some o)) ↔
      ∀ x ∈ exchanges, x.2.elementsInChunk = desc.wanted budget x.1 := by
  constructor
  · intro hall x hx
    have hacc := h.accepted x hx
    rw [hacc.full_iff helem]
    apply le_antisymm (hacc.length_le helem)
    by_contra hshort
    rw [not_le] at hshort
    obtain ⟨o, ho⟩ := hall _ (h.place_lt hfst hx hshort)
    rw [h.missing x hx _ le_rfl hshort] at ho
    cases ho
  · intro hfull p hp
    obtain ⟨x, hx, q, hq, rfl⟩ := h.exists_exchange helem hfst hp
    rw [← ((h.accepted x hx).full_iff helem).mp (hfull x hx)] at hq
    exact ⟨_, h.copied x hx q hq⟩

lemma Received.answered_iff (helem : 0 < desc.elementSizeBytes)
    (hfst : exchanges.map fst = desc.offsets budget) :
    Answered desc bytes ↔ ∀ x ∈ exchanges, x.2.elementsInChunk = desc.wanted budget x.1 := by
  have hcast : (desc.elemSize : ℤ) = desc.elementSizeBytes := toNat_of_nonneg helem.le
  rw [← h.copied_iff helem hfst]
  constructor
  · intro hall p hp
    obtain ⟨o, ho, -⟩ := hall p hp
    exact ⟨o, ho⟩
  · intro hall p hp
    have hfull := (h.copied_iff helem hfst).mp hall
    obtain ⟨x, hx, q, hq, rfl⟩ := h.exists_exchange helem hfst hp
    rw [← ((h.accepted x hx).full_iff helem).mp (hfull x hx)] at hq
    refine ⟨_, h.copied x hx q hq, rfl, ?_⟩
    rw [← hcast]
    push_cast
    rfl

lemma Received.labelled_iff (helem : 0 < desc.elementSizeBytes)
    (hfst : exchanges.map fst = desc.offsets budget) :
    Labelled desc bytes ↔ ∀ x ∈ exchanges, x.2.elementsInChunk = desc.wanted budget x.1 ∧
      Names (desc.request downloadId budget x.1) x.2 := by
  have hcast : (desc.elemSize : ℤ) = desc.elementSizeBytes := toNat_of_nonneg helem.le
  constructor
  · intro hall x hx
    have hfull := (h.copied_iff helem hfst).mp fun p hp =>
      let ⟨o, ho, _⟩ := hall p hp
      ⟨o, ho⟩
    refine ⟨hfull x hx, ?_⟩
    have hlength := ((h.accepted x hx).full_iff helem).mp (hfull x hx)
    have hlt : x.1 < desc.total := mem_offsets_lt (hfst ▸ mem_map_of_mem hx)
    have hstep := elemsPerChunk_pos budget desc.elemSize
    have hsize : 0 < desc.elemSize := by
      unfold ResultArrayDescriptor.elemSize
      omega
    have hwanted : 0 < desc.wanted budget x.1 * desc.elemSize := by
      apply Nat.mul_pos _ hsize
      unfold ResultArrayDescriptor.wanted
      omega
    -- the first byte of the reply tells what it names
    obtain ⟨o, ho, hfield, hplace⟩ := hall _ (h.place_lt hfst hx hwanted)
    rw [h.copied x hx 0 (by omega)] at ho
    cases ho
    refine ⟨hfield, ?_⟩
    dsimp only at hplace
    push_cast at hplace
    rw [add_zero, add_zero, hcast] at hplace
    exact mul_right_cancel₀ helem.ne' hplace
  · intro hall p hp
    obtain ⟨x, hx, q, hq, rfl⟩ := h.exists_exchange helem hfst hp
    obtain ⟨hfull, hfield, hoffset⟩ := hall x hx
    rw [← ((h.accepted x hx).full_iff helem).mp hfull] at hq
    refine ⟨_, h.copied x hx q hq, hfield, ?_⟩
    dsimp only
    rw [hoffset, ← hcast]
    push_cast
    rfl

end

end Receive

section Arrays

variable {stub : Stub} {downloadId : String} {budget : ℤ}

def nonempty (descriptors : List ResultArrayDescriptor) : List ResultArrayDescriptor :=
  descriptors.filter fun desc => 0 < desc.totalElements

def requests (downloadId : String) (budget : ℤ) (descriptors : List ResultArrayDescriptor) :
    List GetResultChunkRequest :=
  (nonempty descriptors).flatMap (chunkRequests downloadId budget)

def Replies (good : GetResultChunkRequest → GetResultChunkResponse → Prop) (stub : Stub)
    (calls : ℕ) (requests : List GetResultChunkRequest) : Prop :=
  ∀ (i : ℕ) (request : GetResultChunkRequest), requests[i]? = some request →
    ∀ response, stub (calls + i) request = .ok response → good request response

def Full (request : GetResultChunkRequest) (response : GetResultChunkResponse) : Prop :=
  response.elementsInChunk = request.maxElements

variable {good : GetResultChunkRequest → GetResultChunkResponse → Prop}

lemma replies_append {calls : ℕ} (l l' : List GetResultChunkRequest) :
    Replies good stub calls (l ++ l') ↔
      Replies good stub calls l ∧ Replies good stub (calls + l.length) l' := by
  constructor
  · intro h
    constructor
    · intro i request hi
      have hlt : i < l.length := (List.getElem?_eq_some_iff.mp hi).1
      exact h i request (by rwa [getElem?_append_left hlt])
    · intro i request hi response hstub
      rw [add_assoc] at hstub
      refine h (l.length + i) request ?_ response hstub
      rw [getElem?_append_right (Nat.le_add_right _ _), Nat.add_sub_cancel_left]
      exact hi
  · rintro ⟨hl, hl'⟩ i request hi response hstub
    rcases Nat.lt_or_ge i l.length with hlt | hge
    · rw [getElem?_append_left hlt] at hi
      exact hl i request hi response hstub
    · rw [getElem?_append_right hge] at hi
      refine hl' (i - l.length) request hi response ?_
      rw [← hstub]
      congr 1
      omega

lemma replies_exchanges {desc : ResultArrayDescriptor} {calls : ℕ}
    {exchanges : List (ℕ × GetResultChunkResponse)}
    (hfst : exchanges.map fst = desc.offsets budget)
    (hcall : ∀ (j : ℕ) (x : ℕ × GetResultChunkResponse), exchanges[j]? = some x →
      stub (calls + j) (desc.request downloadId budget x.1) = .ok x.2) :
    Replies good stub calls (chunkRequests downloadId budget desc) ↔
      ∀ x ∈ exchanges, good (desc.request downloadId budget x.1) x.2 := by
  have hrequests : chunkRequests downloadId budget desc =
      exchanges.map fun x => desc.request downloadId budget x.1 := by
    rw [chunkRequests_eq, ← hfst, map_map]
    rfl
  rw [hrequests]
  constructor
  · intro h x hx
    obtain ⟨j, hj⟩ := mem_iff_getElem?.mp hx
    refine h j _ ?_ x.2 (hcall j x hj)
    rw [getElem?_map, hj]
    rfl
  · intro h i request hi response hstub
    rw [getElem?_map] at hi
    obtain ⟨x, hx, rfl⟩ := Option.map_eq_some_iff.mp hi
    rw [hcall i x hx] at hstub
    rw [← Except.ok.inj hstub]
    exact h x (mem_of_getElem? hx)

/-- What holds of an array exactly if its replies are good holds of all arrays exactly if all are. -/
lemma forall₂_iff_replies {P : ResultArrayDescriptor → List (Option Origin) → Prop}
    (hP : ∀ (desc : ResultArrayDescriptor) exchanges last bytes, 0 < desc.elementSizeBytes →
      exchanges.map fst = desc.offsets budget →
      Received desc downloadId budget exchanges last bytes →
      (P desc bytes ↔ ∀ x ∈ exchanges, good (desc.request downloadId budget x.1) x.2))
    (descriptors : List ResultArrayDescriptor) (calls : ℕ)
    {arrays : List (I32 × List (Option Origin))}
    (h : downloadArrays origins none stub downloadId budget descriptors calls = .ok arrays) :
    Forall₂ (fun desc array => P desc array.2) (nonempty descriptors) arrays ↔
      Replies good stub calls (requests downloadId budget descriptors) := by
  induction descriptors generalizing calls arrays with
  | nil =>
    rw [← Except.ok.inj h]
    refine iff_of_true Forall₂.nil fun i request hi => ?_
    cases hi
  | cons desc descriptors ih =>
    rw [downloadArrays] at h
    split_ifs at h with hempty
    · have hskip : nonempty (desc :: descriptors) = nonempty descriptors :=
        filter_cons_of_neg (by rw [decide_eq_true_eq]; exact not_lt.mpr hempty)
      rw [requests, hskip]
      exact ih calls h
    · have hpos : 0 < desc.totalElements := not_le.mp hempty
      have hkeep : nonempty (desc :: descriptors) = desc :: nonempty descriptors :=
        filter_cons_of_pos (decide_eq_true hpos)
      cases harray : downloadArray origins none stub downloadId budget desc calls with
      | error message =>
        rw [harray] at h
        cases h
      | ok progress =>
        rw [harray] at h
        dsimp only at h
        cases hrest : downloadArrays origins none stub downloadId budget descriptors
            progress.calls with
        | error message =>
          rw [hrest] at h
          cases h
        | ok rest =>
          rw [hrest] at h
          rw [← Except.ok.inj h, hkeep, forall₂_cons]
          obtain ⟨helem, exchanges, hfst, hcall, hcalls, last, hreceived⟩ :=
            downloadArray_received hpos harray
          have hlength : (chunkRequests downloadId budget desc).length =
              (desc.offsets budget).length := by
            rw [chunkRequests_eq, length_map]
          rw [requests, hkeep, flatMap_cons, replies_append, hlength, ← hcalls,
            replies_exchanges hfst hcall, hP desc exchanges last _ helem hfst hreceived,
            ih progress.calls hrest]
          rfl

end Arrays

section Server

variable {downloads : ChunkedDownloads} {rawArrays : I32 → Option (List UInt8)}
  {desc : ResultArrayDescriptor} {downloadId : String} {budget : ℤ} {stored : List UInt8}

def Matches (rawArrays : I32 → Option (List UInt8)) (desc : ResultArrayDescriptor) : Prop :=
  ∃ stored, rawArrays desc.fieldId = some stored ∧
    (stored.length : ℤ) = desc.totalElements * desc.elementSizeBytes ∧
    (stored.length : ℤ) ≤ int64Max

def sentElements (stored : List UInt8) (request : GetResultChunkRequest) : ℤ :=
  if 0 < request.maxElements then
    min request.maxElements ((stored.length : ℤ) / 8 - request.elementOffset)
  else (stored.length : ℤ) / 8 - request.elementOffset

lemma getResultChunk_eq {request : GetResultChunkRequest}
    (hsession : downloads request.downloadId = some rawArrays)
    (hstored : rawArrays request.fieldId = some stored) (hne : stored ≠ []) :
    getResultChunk downloads request =
      if request.elementOffset < 0 ∨ (stored.length : ℤ) / 8 ≤ request.elementOffset then
        .error ("element_offset " ++ toString request.elementOffset ++ " out of range [0, " ++
          toString ((stored.length : ℤ) / 8) ++ ")")
      else .ok ⟨request.downloadId, request.fieldId, request.elementOffset,
        sentElements stored request, (stored.drop (request.elementOffset * 8).toNat).take
          (sentElements stored request * 8).toNat⟩ := by
  unfold getResultChunk
  rw [hsession]
  cases stored with
  | nil => exact absurd rfl hne
  | cons byte stored =>
    dsimp only
    rw [hstored]
    rfl

/-- A reply that the client accepts is full, and has the bytes of its place. -/
lemma server_exchange (hpos : 0 < desc.totalElements) (helem : 0 < desc.elementSizeBytes)
    (hsession : downloads downloadId = some rawArrays) (hstored : rawArrays desc.fieldId = some stored)
    (hlength : (stored.length : ℤ) = desc.totalElements * desc.elementSizeBytes)
    {x : ℕ × GetResultChunkResponse} (hlt : x.1 < desc.total) (hacc : Accepted desc budget x)
    (h : getResultChunk downloads (desc.request downloadId budget x.1) = .ok x.2) :
    x.2.elementsInChunk = desc.wanted budget x.1 ∧
      ∀ q < x.2.data.length, x.2.data[q]? = stored[x.1 * desc.elemSize + q]? := by
  have hne : stored ≠ [] := by
    intro hnil
    rw [hnil, length_nil] at hlength
    exact absurd hlength (mul_pos hpos helem).ne
  have hcast : (desc.elemSize : ℤ) = desc.elementSizeBytes := toNat_of_nonneg helem.le
  have htotal : (desc.total : ℤ) = desc.totalElements := toNat_of_nonneg hpos.le
  rw [getResultChunk_eq hsession hstored hne] at h
  split_ifs at h with hrange
  simp only [not_or, not_lt, not_le] at hrange
  have hwanted : 0 < desc.wanted budget x.1 := by
    have hstep := elemsPerChunk_pos budget desc.elemSize
    unfold ResultArrayDescriptor.wanted
    omega
  have hsent : sentElements stored (desc.request downloadId budget x.1) =
      min (desc.wanted budget x.1 : ℤ) ((stored.length : ℤ) / 8 - x.1) :=
    if_pos (Int.natCast_pos.mpr hwanted)
  set sent := sentElements stored (desc.request downloadId budget x.1) with hsentDef
  have hoffset : (desc.request downloadId budget x.1).elementOffset = x.1 := rfl
  rw [hoffset] at hrange h
  have hresponse := Except.ok.inj h
  have hcount : x.2.elementsInChunk = sent := by rw [← hresponse]
  have hdata : x.2.data = (stored.drop (x.1 * 8)).take (sent * 8).toNat := by
    rw [← hresponse]
    dsimp only
    congr 1
  have hsize : (x.2.data.length : ℤ) = sent * 8 := by
    rw [hdata, length_take, length_drop]
    omega
  -- the bytes of an element are as many for the client as for the server
  have height : desc.elementSizeBytes = 8 := by
    have heq := hacc.length
    rw [hsize, hcount] at heq
    exact (mul_left_cancel₀ (by omega : sent ≠ 0) heq).symm
  have hfull : sent = desc.wanted budget x.1 := by
    have hle : desc.wanted budget x.1 ≤ desc.total - x.1 := min_le_right _ _
    rw [height] at hlength
    omega
  refine ⟨hcount.trans hfull, fun q hq => ?_⟩
  have helemSize : desc.elemSize = 8 := by
    rw [height] at hcast
    omega
  rw [hdata, length_take] at hq
  rw [hdata, helemSize, getElem?_take_of_lt (by omega), getElem?_drop]

/-- What is assembled from replies of the server are the stored arrays. -/
lemma server_arrays (hsession : downloads downloadId = some rawArrays)
    (descriptors : List ResultArrayDescriptor)
    (hmatch : ∀ desc ∈ nonempty descriptors, Matches rawArrays desc) (calls : ℕ)
    {arrays : List (I32 × List (Option Origin))}
    (h : downloadArrays origins none (fun _ => getResultChunk downloads) downloadId budget
      descriptors calls = .ok arrays) :
    Forall₂ (fun desc array => array.1 = desc.fieldId ∧
      rawArrays desc.fieldId = some (array.2.map originByte)) (nonempty descriptors) arrays := by
  induction descriptors generalizing calls arrays with
  | nil =>
    rw [← Except.ok.inj h]
    exact Forall₂.nil
  | cons desc descriptors ih =>
    rw [downloadArrays] at h
    split_ifs at h with hempty
    · have hskip : nonempty (desc :: descriptors) = nonempty descriptors :=
        filter_cons_of_neg (by rw [decide_eq_true_eq]; exact not_lt.mpr hempty)
      rw [hskip] at hmatch ⊢
      exact ih hmatch calls h
    · have hpos : 0 < desc.totalElements := not_le.mp hempty
      have hkeep : nonempty (desc :: descriptors) = desc :: nonempty descriptors :=
        filter_cons_of_pos (decide_eq_true hpos)
      rw [hkeep] at hmatch ⊢
      cases harray : downloadArray origins none (fun _ => getResultChunk downloads) downloadId budget
          desc calls with
      | error message =>
        rw [harray] at h
        cases h
      | ok progress =>
        rw [harray] at h
        dsimp only at h
        cases hrest : downloadArrays origins none (fun _ => getResultChunk downloads) downloadId
            budget descriptors progress.calls with
        | error message =>
          rw [hrest] at h
          cases h
        | ok rest =>
          rw [hrest] at h
          rw [← Except.ok.inj h]
          refine Forall₂.cons ⟨rfl, ?_⟩
            (ih (fun d hd => hmatch d (mem_cons_of_mem desc hd)) progress.calls hrest)
          obtain ⟨stored, hstored, hlength, -⟩ := hmatch desc mem_cons_self
          obtain ⟨helem, exchanges, hfst, hcall, -, last, hreceived⟩ :=
            downloadArray_received hpos harray
          have hexchange : ∀ x ∈ exchanges, x.2.elementsInChunk = desc.wanted budget x.1 ∧
              ∀ q < x.2.data.length, x.2.data[q]? = stored[x.1 * desc.elemSize + q]? := by
            intro x hx
            obtain ⟨j, hj⟩ := mem_iff_getElem?.mp hx
            have hlt : x.1 < desc.total := mem_offsets_lt (hfst ▸ mem_map_of_mem hx)
            exact server_exchange hpos helem hsession hstored hlength hlt (hreceived.accepted x hx)
              (hcall j x hj)
          rw [hstored]
          congr 1
          have hsize : stored.length = desc.total * desc.elemSize := by
            have hnonneg : desc.totalElements * desc.elementSizeBytes =
                ((desc.total * desc.elemSize : ℕ) : ℤ) := by
              rw [Nat.cast_mul, ResultArrayDescriptor.total, ResultArrayDescriptor.elemSize,
                toNat_of_nonneg hpos.le, toNat_of_nonneg helem.le]
            rw [hnonneg] at hlength
            exact_mod_cast hlength
          apply ext_getElem?
          intro p
          rcases Nat.lt_or_ge p stored.length with hp | hp
          · rw [hsize, ← hreceived.length] at hp
            obtain ⟨x, hx, q, hq, rfl⟩ := hreceived.exists_exchange helem hfst hp
            obtain ⟨hfull, hbytes⟩ := hexchange x hx
            rw [← ((hreceived.accepted x hx).full_iff helem).mp hfull] at hq
            rw [← hbytes q hq, getElem?_map, hreceived.copied x hx q hq, getElem?_eq_getElem hq]
            exact congrArg some (getD_eq_getElem _ _ hq).symm
          · rw [getElem?_eq_none hp, getElem?_eq_none]
            rw [length_map, hreceived.length, ← hsize]
            exact hp

/-- With elements of eight bytes no request is refused. -/
lemma server_array_ok (hpos : 0 < desc.totalElements) (height : desc.elementSizeBytes = 8)
    (hsession : downloads downloadId = some rawArrays) (hmatch : Matches rawArrays desc) (calls : ℕ) :
    ∃ progress, downloadArray origins none (fun _ => getResultChunk downloads) downloadId budget desc
      calls = .ok progress := by
  obtain ⟨stored, hstored, hlength, hbound⟩ := hmatch
  have hne : stored ≠ [] := by
    intro hnil
    rw [hnil, length_nil, height] at hlength
    push_cast at hlength
    omega
  have htotal : (desc.total : ℤ) = desc.totalElements := toNat_of_nonneg hpos.le
  rw [height] at hlength
  have hmax : ¬ int64Max / desc.elementSizeBytes < desc.totalElements := by
    rw [height, not_lt, Int.le_ediv_iff_mul_le (by decide)]
    omega
  rw [downloadArray, if_neg (by omega : ¬ desc.elementSizeBytes ≤ 0), if_neg hmax, chunkRequests_eq]
  have hstep : ∀ (offset : ℕ) (progress : Progress (Option Origin)), offset < desc.total →
      ∃ progress', receiveChunk origins (fun _ => getResultChunk downloads) desc progress
        (desc.request downloadId budget offset) = .ok progress' := by
    intro offset progress hlt
    have hwanted : 0 < desc.wanted budget offset := by
      have hpiece := elemsPerChunk_pos budget desc.elemSize
      unfold ResultArrayDescriptor.wanted
      omega
    have hle : desc.wanted budget offset ≤ desc.total - offset := min_le_right _ _
    have hoffset : (desc.request downloadId budget offset).elementOffset = offset := rfl
    have hwantedEq : (desc.request downloadId budget offset).maxElements =
        desc.wanted budget offset := rfl
    have hsent : sentElements stored (desc.request downloadId budget offset) =
        desc.wanted budget offset := by
      rw [sentElements, hwantedEq, hoffset, if_pos (Int.natCast_pos.mpr hwanted)]
      omega
    have hreply : getResultChunk downloads (desc.request downloadId budget offset) =
        .ok ⟨downloadId, desc.fieldId, offset, desc.wanted budget offset,
          (stored.drop (offset * 8)).take (desc.wanted budget offset * 8)⟩ := by
      rw [getResultChunk_eq hsession hstored hne, hsent, hoffset, if_neg (by omega)]
      rfl
    rw [receiveChunk, hreply]
    dsimp only
    rw [hwantedEq, hoffset, if_neg (by omega), if_neg]
    · exact ⟨_, rfl⟩
    · rw [not_not, length_take, length_drop, height]
      omega
  have hall : ∀ (offsets : List ℕ) (progress : Progress (Option Origin)),
      (∀ offset ∈ offsets, offset < desc.total) → ∃ progress',
        (offsets.map (desc.request downloadId budget)).foldlM
          (receiveChunk origins (fun _ => getResultChunk downloads) desc) progress = .ok progress' := by
    intro offsets
    induction offsets with
    | nil => exact fun progress _ => ⟨progress, rfl⟩
    | cons offset offsets ih =>
      intro progress hlt
      obtain ⟨middle, hmiddle⟩ := hstep offset progress (hlt offset mem_cons_self)
      rw [map_cons, foldlM_cons, hmiddle]
      exact ih middle fun o ho => hlt o (mem_cons_of_mem offset ho)
  exact hall _ _ fun offset ho => mem_offsets_lt ho

lemma server_arrays_ok (hsession : downloads downloadId = some rawArrays)
    (descriptors : List ResultArrayDescriptor)
    (hmatch : ∀ desc ∈ nonempty descriptors, Matches rawArrays desc)
    (height : ∀ desc ∈ nonempty descriptors, desc.elementSizeBytes = 8) (calls : ℕ) :
    ∃ arrays, downloadArrays origins none (fun _ => getResultChunk downloads) downloadId budget
      descriptors calls = .ok arrays := by
  induction descriptors generalizing calls with
  | nil => exact ⟨[], rfl⟩
  | cons desc descriptors ih =>
    rw [downloadArrays]
    split_ifs with hempty
    · have hskip : nonempty (desc :: descriptors) = nonempty descriptors :=
        filter_cons_of_neg (by rw [decide_eq_true_eq]; exact not_lt.mpr hempty)
      rw [hskip] at hmatch height
      exact ih hmatch height calls
    · have hpos : 0 < desc.totalElements := not_le.mp hempty
      have hkeep : nonempty (desc :: descriptors) = desc :: nonempty descriptors :=
        filter_cons_of_pos (decide_eq_true hpos)
      rw [hkeep] at hmatch height
      have harray : ∃ progress, downloadArray origins none (fun _ => getResultChunk downloads)
          downloadId budget desc calls = .ok progress :=
        server_array_ok hpos (height desc mem_cons_self) hsession (hmatch desc mem_cons_self) calls
      obtain ⟨progress, hprogress⟩ := harray
      obtain ⟨rest, hrest⟩ := ih (fun d hd => hmatch d (mem_cons_of_mem desc hd))
        (fun d hd => height d (mem_cons_of_mem desc hd)) progress.calls
      rw [hprogress]
      dsimp only
      rw [hrest]
      exact ⟨_, rfl⟩

end Server

def AssembledFrom (client : ClientState) (response : StartChunkedDownloadV2Response) (stub : Stub)
    (result : DownloadedResult) (arrays : List (I32 × List (Option Origin))) : Prop :=
  downloadArrays origins none stub response.downloadId
      (chunkDataBudget client response.maxMessageBytes) response.arrays 0 = .ok arrays ∧
    result.assembled = arrays.map fun p => (p.1, p.2.map originByte)

lemma exists_assembledFrom {client : ClientState} {response : StartChunkedDownloadV2Response}
    {stub : Stub} {result : DownloadedResult}
    (h : downloadChunkedResult client (.ok response) stub = .ok result) :
    ∃ arrays, AssembledFrom client response stub result arrays := by
  rw [downloadChunkedResult, downloadArrays_data] at h
  cases harrays : downloadArrays origins none stub response.downloadId
      (chunkDataBudget client response.maxMessageBytes) response.arrays 0 with
  | error message =>
    rw [harrays] at h
    cases h
  | ok arrays =>
    rw [harrays] at h
    simp only [Except.map] at h
    refine ⟨arrays, harrays, ?_⟩
    cases happly : applyResultChunkArrays
        (chunkedArrays (arrays.map fun p => (p.1, p.2.map originByte)))
        (solutionFields response.result) with
    | error message =>
      rw [happly] at h
      cases h
    | ok solution =>
      rw [happly] at h
      rw [← Except.ok.inj h]

/-- A download returns only bytes of the replies for their places if and only if each reply has all the
elements that were asked for; the replies of the server do, and give the stored arrays. -/
theorem downloadChunkedResult_iff (client : ClientState) (response : StartChunkedDownloadV2Response) :
    (∀ (stub : Stub) (result : DownloadedResult),
      downloadChunkedResult client (.ok response) stub = .ok result →
      ∃ arrays, AssembledFrom client response stub result arrays ∧
        (Forall₂ (fun desc array => Answered desc array.2) (nonempty response.arrays) arrays ↔
          Replies Full stub 0 (requests response.downloadId
            (chunkDataBudget client response.maxMessageBytes) response.arrays)) ∧
        (Forall₂ (fun desc array => Labelled desc array.2) (nonempty response.arrays) arrays ↔
          Replies (fun request reply => Full request reply ∧ Names request reply) stub 0
            (requests response.downloadId (chunkDataBudget client response.maxMessageBytes)
              response.arrays))) ∧
    ∀ (budget : ℤ) (downloads : ChunkedDownloads) (rawArrays : I32 → Option (List UInt8)),
      downloads response.downloadId = some rawArrays →
      (∀ desc ∈ nonempty response.arrays, Matches rawArrays desc) →
      (∀ arrays, downloadArrays (fun _ reply => reply.data) 0 (fun _ => getResultChunk downloads)
          response.downloadId budget response.arrays 0 = .ok arrays →
        Forall₂ (fun desc array => array.1 = desc.fieldId ∧ rawArrays desc.fieldId = some array.2)
          (nonempty response.arrays) arrays) ∧
      ((∀ desc ∈ nonempty response.arrays, desc.elementSizeBytes = 8) →
        ∃ arrays, downloadArrays (fun _ reply => reply.data) 0 (fun _ => getResultChunk downloads)
          response.downloadId budget response.arrays 0 = .ok arrays) := by
  constructor
  · intro stub result h
    obtain ⟨arrays, harrays, hassembled⟩ := exists_assembledFrom h
    refine ⟨arrays, ⟨harrays, hassembled⟩, ?_, ?_⟩
    · exact forall₂_iff_replies (fun desc exchanges last bytes helem hfst hreceived =>
        hreceived.answered_iff helem hfst) response.arrays 0 harrays
    · exact forall₂_iff_replies (fun desc exchanges last bytes helem hfst hreceived =>
        hreceived.labelled_iff helem hfst) response.arrays 0 harrays
  · intro budget downloads rawArrays hsession hmatch
    constructor
    · intro arrays h
      rw [downloadArrays_data] at h
      cases horigins : downloadArrays origins none (fun _ => getResultChunk downloads)
          response.downloadId budget response.arrays 0 with
      | error message =>
        rw [horigins] at h
        cases h
      | ok found =>
        rw [horigins] at h
        rw [← Except.ok.inj h, forall₂_map_right_iff]
        exact server_arrays hsession response.arrays hmatch 0 horigins
    · intro height
      obtain ⟨arrays, harrays⟩ := server_arrays_ok hsession response.arrays hmatch height 0
      rw [downloadArrays_data, harrays]
      exact ⟨_, rfl⟩

lemma twelve_inRange : -2 ^ 31 ≤ (12 : ℤ) ∧ (12 : ℤ) < 2 ^ 31 := by decide

def oneNumber : StartChunkedDownloadV2Response := ⟨"", .mip, [⟨⟨12, twelve_inRange⟩, 1, 8⟩], 0⟩

/-- Two stored arrays, the first of three numbers, and one without numbers. -/
def lpArrays : StartChunkedDownloadV2Response :=
  ⟨"lp", .lp false, zipWith (⟨·, ·, 8⟩) (solutionFields (.lp false)) [3, 2, 0], 0⟩

def lpStored (field : I32) : Option (List UInt8) :=
  if field.val = 0 then some ((range 24).map UInt8.ofNat) else some (replicate 16 7)

/-- In pieces of two numbers. -/
theorem lpArrays_downloaded :
    ∃ arrays, downloadArrays (fun _ reply => reply.data) 0
        (fun _ => getResultChunk fun _ => some lpStored) "lp" 16 lpArrays.arrays 0 = .ok arrays ∧
      arrays.map Prod.snd = [(range 24).map UInt8.ofNat, replicate 16 7] := by
  have hmatch : ∀ desc ∈ nonempty lpArrays.arrays, Matches lpStored desc ∧ desc.elementSizeBytes = 8 := by
    intro desc hdesc
    rcases mem_pair.mp hdesc with rfl | rfl
    · exact ⟨⟨_, rfl, rfl, by decide⟩, rfl⟩
    · exact ⟨⟨_, rfl, rfl, by decide⟩, rfl⟩
  obtain ⟨hstored, hok⟩ := (downloadChunkedResult_iff ⟨0, 0⟩ lpArrays).2 16
    (fun _ => some lpStored) lpStored rfl
    fun desc hdesc => (hmatch desc hdesc).1
  obtain ⟨arrays, harrays⟩ := hok fun desc hdesc => (hmatch desc hdesc).2
  refine ⟨arrays, harrays, ?_⟩
  have hall : Forall₂ (fun (desc : ResultArrayDescriptor) (array : I32 × List UInt8) =>
      array.1 = desc.fieldId ∧ lpStored desc.fieldId = some array.2)
      [⟨⟨0, by decide⟩, 3, 8⟩, ⟨⟨1, by decide⟩, 2, 8⟩] arrays := hstored arrays harrays
  obtain _ | ⟨⟨-, hfirst⟩, _ | ⟨⟨-, hsecond⟩, _ | _⟩⟩ := hall
  simp only [map_cons, map_nil, ← Option.some.inj hfirst, ← Option.some.inj hsecond]

def noElements : Stub := fun _ request => .ok ⟨"", request.fieldId, request.elementOffset, 0, []⟩

/-- The array of a reply without elements is returned as a zero. -/
theorem short_reply_fabricates :
    ∃ result, downloadChunkedResult ⟨0, 0⟩ (.ok oneNumber) noElements = .ok result ∧
      result.assembled = [(⟨12, by decide⟩, replicate 8 0)] ∧
      result.solution = [(⟨12, by decide⟩, replicate 8 0)] ∧
      ∀ arrays, AssembledFrom ⟨0, 0⟩ oneNumber noElements result arrays →
        ¬ Forall₂ (fun desc array => Answered desc array.2) (nonempty oneNumber.arrays)
          arrays := by
  refine ⟨⟨[(⟨12, by decide⟩, replicate 8 0)], [(⟨12, by decide⟩, replicate 8 0)]⟩, rfl, rfl,
    rfl, ?_⟩
  rintro arrays ⟨harrays, -⟩ hall
  have hunwritten : arrays = [(⟨12, by decide⟩, replicate 8 none)] :=
    (Except.ok.inj harrays).symm
  rw [hunwritten] at hall
  have hone : nonempty oneNumber.arrays = [⟨⟨12, by decide⟩, 1, 8⟩] := rfl
  rw [hone, forall₂_cons] at hall
  obtain ⟨o, ho, -⟩ := hall.1 0 (by decide)
  cases ho

end CuOpt.Grpc.Downloads
