import CuOpt.Grpc.ChunkCoverage

/-! The order of the chunks of a request: what phase 1 accepts, what phase 2 then writes, and when
both are the same for every order. -/

namespace CuOpt.Grpc.Chunks

open ByteFrames List
open ArrayFamily (chunksOf)
open Int (toNat_natCast)

def containerKey (ac : ArrayChunk) : Option ContainerArrayKey :=
  match chunkKey ac with
  | .top _ => none
  | .container key => some key

def Covered (key : ArrayKey) (chunks : List ArrayChunk) : Prop :=
  announced (chunksOf key chunks) ≠ 0 →
    Covers (announced (chunksOf key chunks)).toNat key.elementSize.toNat (chunksOf key chunks)

structure Acceptable {Header : Type} (proto : Protobuf Header) (header : Header)
    (chunks : List ArrayChunk) : Prop where
  header : (proto.serialize header).length ≤ kMaxProtobufMessageBytes
  each : ∀ ac ∈ chunks, ChunkOk ac
  agree : Agree chunks
  containers : (chunks.filterMap containerKey).dedup.length ≤ kMaxPipeContainerArrays
  covered : ∀ key, Covered key chunks

def Mixed (chunks : List ArrayChunk) : Prop :=
  ∃ ac ∈ chunks, ∃ ac' ∈ chunks, chunkKey ac = chunkKey ac' ∧ ac.totalElements = 0 ∧
    ac'.totalElements ≠ 0

/-- The first chunk of each array that has elements announces them. -/
def HeadsAnnounce (chunks : List ArrayChunk) : Prop :=
  ∀ key, announced (chunksOf key chunks) ≠ 0 → HeadAnnounces (chunksOf key chunks)

section Fields

variable {chunks chunks' : List ArrayChunk} {fields fields' : Fields} {key : ArrayKey}
  {fi : FieldChunks}

lemma chunksOf_perm (key : ArrayKey) (hperm : chunks'.Perm chunks) :
    (chunksOf key chunks').Perm (chunksOf key chunks) :=
  hperm.filter _

lemma Agree.perm (h : Agree chunks) (hperm : chunks'.Perm chunks) : Agree chunks' :=
  fun ac hac ac' hac' => h ac (hperm.subset hac) ac' (hperm.subset hac')

lemma Agree.announced_perm (h : Agree chunks) (hperm : chunks'.Perm chunks) (key : ArrayKey) :
    announced (chunksOf key chunks') = announced (chunksOf key chunks) := by
  by_cases hzero : announced (chunksOf key chunks') = 0
  · have hall := announced_eq_zero_iff.mp hzero
    rw [hzero, eq_comm, announced_eq_zero_iff]
    exact fun ac hac => hall ac ((chunksOf_perm key hperm).mem_iff.mpr hac)
  · obtain ⟨ac, hac, htotal⟩ := exists_announced hzero
    obtain ⟨hchunk, rfl⟩ := mem_chunksOf.mp hac
    rw [← htotal]
    exact (h.announced_eq (hperm.subset hchunk) (htotal ▸ hzero)).symm

lemma Covered.perm (h : Covered key chunks) (hagree : Agree chunks)
    (hperm : chunks'.Perm chunks) : Covered key chunks' := by
  intro hne
  rw [hagree.announced_perm hperm] at hne ⊢
  exact (h hne).perm (chunksOf_perm key hperm)

lemma Acceptable.perm {Header : Type} {proto : Protobuf Header} {header : Header}
    (h : Acceptable proto header chunks) (hperm : chunks'.Perm chunks) :
    Acceptable proto header chunks' := by
  refine ⟨h.header, fun ac hac => h.each ac (hperm.subset hac), h.agree.perm hperm, ?_,
    fun key => (h.covered key).perm h.agree hperm⟩
  rw [((hperm.filterMap containerKey).dedup).length_eq]
  exact h.containers

structure FieldOf (key : ArrayKey) (chunks : List ArrayChunk) (fi : FieldChunks) (N E : ℕ) : Prop where
  width : 0 < E
  count : announced (chunksOf key chunks) = N
  elementSize : key.elementSize = E
  field : fi = ⟨chunksOf key chunks, (N * E : ℕ)⟩
  totals : ∀ ac ∈ chunksOf key chunks, ac.totalElements = 0 ∨ ac.totalElements = N
  within : N * E ≤ kMaxPipeArrayBytes

lemma BinnedFields.fieldOf (h : BinnedFields chunks fields) (hok : ∀ ac ∈ chunks, ChunkOk ac)
    (hagree : Agree chunks) (hget : fields.get? key = some fi) : ∃ N E, FieldOf key chunks fi N E := by
  rw [h key] at hget
  split_ifs at hget with hnil
  obtain ⟨ac, hac⟩ := exists_mem_of_ne_nil _ hnil
  obtain ⟨hchunk, hkey⟩ := mem_chunksOf.mp hac
  have hsize : 0 < key.elementSize := hkey ▸ (hok ac hchunk).known
  have hnonneg : 0 ≤ announced (chunksOf key chunks) ∧
      announced (chunksOf key chunks) * key.elementSize ≤ kMaxPipeArrayBytes := by
    by_cases hzero : announced (chunksOf key chunks) = 0
    · rw [hzero, zero_mul]
      exact ⟨le_rfl, Int.natCast_nonneg _⟩
    · obtain ⟨c, hc, htotal⟩ := exists_announced hzero
      obtain ⟨hcChunk, hcKey⟩ := mem_chunksOf.mp hc
      have hcOk := hok c hcChunk
      rw [← htotal, ← hcKey]
      exact ⟨hcOk.nonneg, hcOk.within⟩
  have hN := Int.toNat_of_nonneg hnonneg.1
  have hE := Int.toNat_of_nonneg hsize.le
  refine ⟨(announced (chunksOf key chunks)).toNat, key.elementSize.toNat, ?_⟩
  constructor
  case width => omega
  case count => exact hN.symm
  case elementSize => exact hE.symm
  case field =>
    rw [Nat.cast_mul, hN, hE]
    exact (Option.some.inj hget).symm
  case totals =>
    intro c hc
    rw [hN]
    by_cases hzero : c.totalElements = 0
    · exact .inl hzero
    · obtain ⟨hcChunk, rfl⟩ := mem_chunksOf.mp hc
      exact .inr (hagree.announced_eq hcChunk hzero).symm
  case within =>
    have hle := hnonneg.2
    rw [← hN, ← hE] at hle
    exact_mod_cast hle

lemma FieldOf.sized {N E : ℕ} (h : FieldOf key chunks fi N E)
    (hmemory : ∀ ac ∈ chunks, (ac.data.length : ℤ) ≤ int64Max) : Sized fi := by
  obtain ⟨_, _, _, rfl, _, hwithin⟩ := h
  exact ⟨Int.natCast_nonneg _, Int.ofNat_le.mpr hwithin, fun ac hac =>
    hmemory ac (mem_chunksOf.mp hac).1⟩

lemma FieldOf.validate_iff {N E : ℕ} (h : FieldOf key chunks fi N E) :
    validateFieldChunks fi = true ↔
      (announced (chunksOf key chunks) ≠ 0 → HeadAnnounces (chunksOf key chunks)) ∧
        Covered key chunks := by
  obtain ⟨hE, hannounced, hsize, rfl, htotals, _⟩ := h
  rw [Covered, hannounced, hsize, toNat_natCast, toNat_natCast]
  by_cases hzero : N = 0
  · subst hzero
    have hbytes : ((0 * E : ℕ) : ℤ) = 0 := by rw [Nat.zero_mul, Nat.cast_zero]
    refine iff_of_true ?_ ⟨fun hne => absurd rfl hne, fun hne => absurd rfl hne⟩
    rw [validateFieldChunks, if_pos hbytes]
  · have hne : (N : ℤ) ≠ 0 := Int.natCast_ne_zero.mpr hzero
    have hsome : ∃ ac ∈ chunksOf key chunks, ac.totalElements ≠ 0 := by
      obtain ⟨ac, hac, htotal⟩ := exists_announced (hannounced ▸ hne)
      exact ⟨ac, hac, htotal ▸ hannounced ▸ hne⟩
    rw [validateFieldChunks_iff (Nat.pos_of_ne_zero hzero) hE htotals hsome]
    constructor
    · exact fun h => ⟨fun _ => h.1, fun _ => h.2⟩
    · exact fun h => ⟨h.1 hne, h.2 hne⟩

structure CoveredOnce (key : ArrayKey) (chunks : List ArrayChunk) (bytes : List UInt8) : Prop where
  size : (bytes.length : ℤ) = announced (chunksOf key chunks) * key.elementSize
  once : ((chunksOf key chunks).flatMap (pieceElements key.elementSize.toNat)).Perm
    (range (announced (chunksOf key chunks)).toNat)
  carries : Carries key.elementSize.toNat (chunksOf key chunks) bytes

/-- An array without elements has no bytes, and neither have its chunks. -/
lemma coveredOnce_nil (hok : ∀ ac ∈ chunks, ChunkOk ac)
    (hzero : announced (chunksOf key chunks) = 0) : CoveredOnce key chunks [] := by
  have hdata : ∀ ac ∈ chunksOf key chunks, ac.data = [] := fun ac hac =>
    (hok ac (mem_chunksOf.mp hac).1).empty (announced_eq_zero_iff.mp hzero ac hac)
  constructor
  case size =>
    rw [hzero, zero_mul]
    rfl
  case once =>
    have hnone : (chunksOf key chunks).flatMap (pieceElements key.elementSize.toNat) = [] := by
      rw [flatMap_eq_nil_iff]
      intro ac hac
      rw [pieceElements, hdata ac hac, length_nil, Nat.zero_div, range'_zero]
    rw [hnone, hzero]
    rfl
  case carries =>
    intro ac hac j hj
    rw [hdata ac hac] at hj
    exact absurd hj (Nat.not_lt_zero j)

lemma FieldOf.payload {N E : ℕ} (h : FieldOf key chunks fi N E) (hok : ∀ ac ∈ chunks, ChunkOk ac)
    (hhead : announced (chunksOf key chunks) ≠ 0 → HeadAnnounces (chunksOf key chunks))
    (hcovered : Covered key chunks) :
    ∃ data, assembleFieldPayload fi = some data ∧ fi.totalBytes = data.length ∧
      CoveredOnce key chunks data := by
  obtain ⟨hE, hannounced, hsize, rfl, htotals, _⟩ := h
  by_cases hzero : N = 0
  · subst hzero
    have hbytes : ((0 * E : ℕ) : ℤ) = 0 := by rw [Nat.zero_mul, Nat.cast_zero]
    refine ⟨[], ?_, hbytes, coveredOnce_nil hok hannounced⟩
    rw [assembleFieldPayload, if_pos hbytes]
  · have hne : announced (chunksOf key chunks) ≠ 0 := hannounced ▸ Int.natCast_ne_zero.mpr hzero
    have hcovers := hcovered hne
    rw [hannounced, hsize, toNat_natCast, toNat_natCast] at hcovers
    obtain ⟨data, hdata, hlength, hcarries⟩ :=
      assembleFieldPayload_covers (Nat.pos_of_ne_zero hzero) hE htotals (hhead hne) hcovers
    refine ⟨data, hdata, by rw [hlength], ?_⟩
    constructor
    case size => rw [hlength, hannounced, hsize, Nat.cast_mul]
    case once =>
      rw [hannounced, hsize, toNat_natCast, toNat_natCast]
      exact hcovers.once
    case carries =>
      rw [hsize, toNat_natCast]
      exact hcarries

end Fields

section PhaseOne

variable {Header : Type} {proto : Protobuf Header} {header : Header} {chunks : List ArrayChunk}
  {fields : Fields}

lemma containerKey_eq_some {ac : ArrayChunk} {key : ContainerArrayKey} :
    containerKey ac = some key ↔ chunkKey ac = .container key := by
  unfold containerKey
  cases chunkKey ac with
  | top fieldId => exact iff_of_false nofun nofun
  | container key' => rw [Option.some_inj, ArrayKey.container.injEq]

lemma BinnedFields.isSome_iff (h : BinnedFields chunks fields) (key : ArrayKey) :
    (∃ fi, fields.get? key = some fi) ↔ ∃ ac ∈ chunks, chunkKey ac = key := by
  rw [h key]
  split_ifs with hnil
  · refine iff_of_false (fun ⟨_, heq⟩ => nomatch heq) fun ⟨ac, hac, hkey⟩ => ?_
    have hmem : ac ∈ chunksOf key chunks := mem_chunksOf.mpr ⟨hac, hkey⟩
    rw [hnil] at hmem
    exact not_mem_nil hmem
  · obtain ⟨ac, hac⟩ := exists_mem_of_ne_nil _ hnil
    exact iff_of_true ⟨_, rfl⟩ ⟨ac, mem_chunksOf.mp hac⟩

lemma BinnedFields.container_size (h : BinnedFields chunks fields) :
    fields.container.size = (chunks.filterMap containerKey).dedup.length := by
  have hperm : (fields.container.toList.map Prod.fst).Perm (chunks.filterMap containerKey).dedup := by
    apply (perm_ext_iff_of_nodup fields.container.nodup_keys (nodup_dedup _)).mpr
    intro key
    rw [mem_dedup, mem_filterMap, mem_map]
    simp only [containerKey_eq_some]
    rw [← h.isSome_iff]
    constructor
    · rintro ⟨q, hmem, rfl⟩
      exact ⟨q.2, SortedMap.mem_toList.mp hmem⟩
    · rintro ⟨fi, hget⟩
      exact ⟨(key, fi), SortedMap.mem_toList.mpr hget, rfl⟩
  rw [← hperm.length_eq, length_map]
  rfl

lemma BinnedFields.top_size (h : BinnedFields chunks fields) (hok : ∀ ac ∈ chunks, ChunkOk ac) :
    fields.top.size ≤ kMaxPipeArrayFields := by
  apply ArrayFamily.top_size
  rintro ⟨fieldId, fi⟩ hmem
  obtain ⟨ac, hac, hkey⟩ := (h.isSome_iff (.top fieldId)).mp ⟨fi, SortedMap.mem_toList.mp hmem⟩
  rw [← hkey]
  exact (hok ac hac).known

lemma forall_fields {P : ArrayKey → FieldChunks → Prop} :
    ((∀ q ∈ fields.top.toList, P (.top q.1) q.2) ∧
        ∀ q ∈ fields.container.toList, P (.container q.1) q.2) ↔
      ∀ key fi, fields.get? key = some fi → P key fi := by
  constructor
  · rintro ⟨htop, hcontainer⟩ key fi hget
    cases key with
    | top fieldId => exact htop (fieldId, fi) (SortedMap.mem_toList.mpr hget)
    | container key => exact hcontainer (key, fi) (SortedMap.mem_toList.mpr hget)
  · intro h
    exact ⟨fun q hq => h (.top q.1) q.2 (SortedMap.mem_toList.mp hq),
      fun q hq => h (.container q.1) q.2 (SortedMap.mem_toList.mp hq)⟩

lemma BinnedFields.valid_iff (h : BinnedFields chunks fields) (hok : ∀ ac ∈ chunks, ChunkOk ac)
    (hagree : Agree chunks) :
    ((fields.top.toList.all fun q => validateFieldChunks q.2) = true ∧
        (fields.container.toList.all fun q => validateFieldChunks q.2) = true) ↔
      HeadsAnnounce chunks ∧ ∀ key, Covered key chunks := by
  simp only [all_eq_true]
  rw [forall_fields (P := fun _ fi => validateFieldChunks fi = true)]
  have hempty : ∀ key, fields.get? key = none → announced (chunksOf key chunks) = 0 := by
    intro key hget
    rw [h key] at hget
    split_ifs at hget with hnil
    rw [hnil]
    rfl
  constructor
  · intro hvalid
    have hboth : ∀ key, (announced (chunksOf key chunks) ≠ 0 → HeadAnnounces (chunksOf key chunks)) ∧
        Covered key chunks := by
      intro key
      cases hget : fields.get? key with
      | none =>
        exact ⟨fun hne => absurd (hempty key hget) hne, fun hne => absurd (hempty key hget) hne⟩
      | some fi =>
        obtain ⟨N, E, hfield⟩ := h.fieldOf hok hagree hget
        exact hfield.validate_iff.mp (hvalid key fi hget)
    exact ⟨fun key => (hboth key).1, fun key => (hboth key).2⟩
  · rintro ⟨hheads, hcovered⟩ key fi hget
    obtain ⟨N, E, hfield⟩ := h.fieldOf hok hagree hget
    exact hfield.validate_iff.mpr ⟨hheads key, hcovered key⟩

lemma BinnedFields.sized (h : BinnedFields chunks fields) (hok : ∀ ac ∈ chunks, ChunkOk ac)
    (hagree : Agree chunks) (hmemory : ∀ ac ∈ chunks, (ac.data.length : ℤ) ≤ int64Max) :
    (∀ q ∈ fields.top.toList, Sized q.2) ∧ ∀ q ∈ fields.container.toList, Sized q.2 := by
  rw [forall_fields (P := fun _ fi => Sized fi)]
  intro key fi hget
  obtain ⟨N, E, hfield⟩ := h.fieldOf hok hagree hget
  exact hfield.sized hmemory

/-- Phase 1 accepts just the acceptable requests whose first chunks announce elements. -/
lemma phaseOne_eq (proto : Protobuf Header) (header : Header)
    (hmemory : ∀ ac ∈ chunks, (ac.data.length : ℤ) ≤ int64Max) :
    (Acceptable proto header chunks ∧ HeadsAnnounce chunks ∧
        ∃ fields, chunks.foldlM binChunk {} = some fields ∧
          phaseOne proto header chunks = .ok (some fields)) ∨
      (¬(Acceptable proto header chunks ∧ HeadsAnnounce chunks) ∧
        phaseOne proto header chunks = .ok none) := by
  unfold phaseOne
  by_cases hheader : kMaxProtobufMessageBytes < (proto.serialize header).length
  · right
    exact ⟨fun h => absurd h.1.header (not_le.mpr hheader), if_pos hheader⟩
  rw [if_neg hheader, binChecked_eq]
  cases hfold : chunks.foldlM binChunk {} with
  | none =>
    right
    refine ⟨fun h => ?_, rfl⟩
    obtain ⟨fields, hfields⟩ := exists_foldlM_binChunk h.1.each h.1.agree
    rw [hfold] at hfields
    cases hfields
  | some fields =>
    obtain ⟨hok, hagree, hbinned⟩ := foldlM_binChunk_some hfold
    obtain ⟨htop, hcontainer⟩ := hbinned.sized hok hagree hmemory
    have hvalid := hbinned.valid_iff hok hagree
    dsimp only
    rw [if_neg (not_lt.mpr (hbinned.top_size hok)), hbinned.container_size,
      validateAllChecked_eq htop, validateAllChecked_eq hcontainer]
    by_cases hcount : kMaxPipeContainerArrays < (chunks.filterMap containerKey).dedup.length
    · right
      exact ⟨fun h => absurd h.1.containers (not_le.mpr hcount), if_pos hcount⟩
    rw [if_neg hcount]
    cases htopValid : fields.top.toList.all fun q => validateFieldChunks q.2 with
    | false =>
      right
      refine ⟨fun h => ?_, rfl⟩
      have hall := (hvalid.mpr ⟨h.2, h.1.covered⟩).1
      rw [htopValid] at hall
      cases hall
    | true =>
      cases hcontainerValid : fields.container.toList.all fun q => validateFieldChunks q.2 with
      | false =>
        right
        refine ⟨fun h => ?_, rfl⟩
        have hall := (hvalid.mpr ⟨h.2, h.1.covered⟩).2
        rw [hcontainerValid] at hall
        cases hall
      | true =>
        left
        obtain ⟨hheads, hcovered⟩ := hvalid.mp ⟨htopValid, hcontainerValid⟩
        exact ⟨⟨not_lt.mp hheader, hok, hagree, not_lt.mp hcount, hcovered⟩, hheads, fields, rfl, rfl⟩

end PhaseOne

end CuOpt.Grpc.Chunks
