import CuOpt.Grpc.ChunkValidationSound

/-! Chunks that have each element of their array once: these are the ones that validation accepts, and
the bytes of the array follow from them in any order. -/

namespace CuOpt.Grpc.Chunks

open ByteFrames List

structure Fits (N E : ℕ) (ac : ArrayChunk) : Prop where
  aligned : E ∣ ac.data.length
  nonneg : 0 ≤ ac.elementOffset
  inside : ac.elementOffset.toNat + ac.data.length / E ≤ N

/-- The chunks have each element of the array once. -/
structure Covers (N E : ℕ) (chunks : List ArrayChunk) : Prop where
  fits : ∀ ac ∈ chunks, Fits N E ac
  once : (chunks.flatMap (pieceElements E)).Perm (range N)

def Carries (E : ℕ) (chunks : List ArrayChunk) (bytes : List UInt8) : Prop :=
  ∀ ac ∈ chunks, ∀ j < ac.data.length, bytes[ac.elementOffset.toNat * E + j]? = ac.data[j]?

section Coverage

variable {N E : ℕ} {chunks : List ArrayChunk} {ac : ArrayChunk} {covered covered' : ℕ → Bool}

lemma mem_pieceElements {i : ℕ} : i ∈ pieceElements E ac ↔
    ac.elementOffset.toNat ≤ i ∧ i < ac.elementOffset.toNat + ac.data.length / E :=
  mem_range'_1

lemma byte_mem_pieceElements (hE : 0 < E) (haligned : E ∣ ac.data.length) (k : ℕ) :
    k / E ∈ pieceElements E ac ↔
      ac.elementOffset.toNat * E ≤ k ∧ k < ac.elementOffset.toNat * E + ac.data.length := by
  have hlength : ac.elementOffset.toNat * E + ac.data.length =
      (ac.elementOffset.toNat + ac.data.length / E) * E := by
    rw [add_mul, Nat.div_mul_cancel haligned]
  rw [mem_pieceElements, hlength, Nat.le_div_iff_mul_le hE, Nat.div_lt_iff_lt_mul hE]

lemma placeChunk_eq_some_iff :
    placeChunk (N * E : ℕ) N E covered ac = some covered' ↔
      Fits N E ac ∧ (∀ i ∈ pieceElements E ac, covered i = false) ∧
        covered' = fun i => covered i || decide (i ∈ pieceElements E ac) := by
  have hcount : (ac.data.length : ℤ) / (E : ℤ) = ((ac.data.length / E : ℕ) : ℤ) :=
    (Int.natCast_div _ _).symm
  have hcountNonneg : (0 : ℤ) ≤ ((ac.data.length / E : ℕ) : ℤ) := Int.natCast_nonneg _
  have hmod : (ac.data.length : ℤ) % (E : ℤ) = ((ac.data.length % E : ℕ) : ℤ) :=
    (Int.natCast_mod _ _).symm
  rw [placeChunk, hcount, hmod]
  by_cases haligned : E ∣ ac.data.length
  · have hzero : ((ac.data.length % E : ℕ) : ℤ) = 0 := by
      rw [Nat.mod_eq_zero_of_dvd haligned]
      rfl
    rw [if_neg (not_not.mpr hzero)]
    by_cases hnonneg : 0 ≤ ac.elementOffset
    · rw [if_neg (by omega)]
      by_cases hinside : ac.elementOffset.toNat + ac.data.length / E ≤ N
      · have hbytes : ac.elementOffset * (E : ℤ) + (ac.data.length : ℤ) ≤ ((N * E : ℕ) : ℤ) := by
          have hnat := Nat.mul_le_mul_right E hinside
          rw [add_mul, Nat.div_mul_cancel haligned] at hnat
          rw [← Int.toNat_of_nonneg hnonneg]
          exact_mod_cast hnat
        rw [if_neg (by omega), if_neg (not_lt.mpr hbytes), Int.toNat_natCast, markAll_eq_some_iff]
        constructor
        · rintro ⟨_, hfree, hcovered⟩
          exact ⟨⟨haligned, hnonneg, hinside⟩, hfree, hcovered⟩
        · rintro ⟨_, hfree, hcovered⟩
          exact ⟨nodup_range', hfree, hcovered⟩
      · rw [if_pos (by omega)]
        exact iff_of_false (by simp) fun h => hinside h.1.inside
    · rw [if_pos (by omega)]
      exact iff_of_false (by simp) fun h => hnonneg h.1.nonneg
  · have hne : ((ac.data.length % E : ℕ) : ℤ) ≠ 0 := by
      intro hzero
      exact haligned (Nat.dvd_of_mod_eq_zero (by exact_mod_cast hzero))
    rw [if_pos hne]
    exact iff_of_false (by simp) fun h => haligned h.1.aligned

lemma foldlM_placeChunk_iff :
    chunks.foldlM (placeChunk (N * E : ℕ) N E) (fun _ => false) = some covered ↔
      (∀ ac ∈ chunks, Fits N E ac) ∧ (chunks.flatMap (pieceElements E)).Nodup ∧
        covered = fun i => decide (i ∈ chunks.flatMap (pieceElements E)) := by
  induction chunks using reverseRecOn generalizing covered with
  | nil => simp [eq_comm]
  | append_singleton chunks ac ih =>
    have hlast : ∀ before, foldlM (placeChunk (N * E : ℕ) N E) before [ac] =
        placeChunk (N * E : ℕ) N E before ac := by
      intro before
      rw [foldlM_cons]
      exact bind_pure _
    have hmem : (fun i => decide (i ∈ (chunks ++ [ac]).flatMap (pieceElements E))) = fun i =>
        decide (i ∈ chunks.flatMap (pieceElements E)) || decide (i ∈ pieceElements E ac) := by
      funext i
      simp
    rw [foldlM_append, hmem, flatMap_append, flatMap_singleton, nodup_append]
    constructor
    · intro h
      obtain ⟨before, hbefore, hstep⟩ := Option.bind_eq_some_iff.mp h
      rw [hlast] at hstep
      obtain ⟨hfits, hnodup, rfl⟩ := ih.mp hbefore
      obtain ⟨hfit, hfree, hcovered⟩ := placeChunk_eq_some_iff.mp hstep
      refine ⟨fun c hc => ?_, ⟨hnodup, nodup_range', ?_⟩, hcovered⟩
      · rcases mem_append.mp hc with hc | hc
        · exact hfits c hc
        · rw [mem_singleton.mp hc]
          exact hfit
      · rintro i hi j hj rfl
        exact of_decide_eq_false (hfree i hj) hi
    · rintro ⟨hfits, ⟨hnodup, _, hdisjoint⟩, rfl⟩
      apply Option.bind_eq_some_iff.mpr
      refine ⟨_, ih.mpr ⟨fun c hc => hfits c (mem_append_left _ hc), hnodup, rfl⟩, ?_⟩
      rw [hlast]
      refine placeChunk_eq_some_iff.mpr
        ⟨hfits ac (mem_append_right _ (mem_singleton_self ac)), fun i hi => ?_, rfl⟩
      exact decide_eq_false fun hmem => hdisjoint i hmem i hi rfl

/-- Marking the elements and looking for a gap tests for coverage. -/
lemma covers_iff : Covers N E chunks ↔
    ∃ covered, chunks.foldlM (placeChunk (N * E : ℕ) N E) (fun _ => false) = some covered ∧
      (range N).all covered = true := by
  constructor
  · intro h
    refine ⟨_, foldlM_placeChunk_iff.mpr ⟨h.fits, h.once.nodup_iff.mpr nodup_range, rfl⟩, ?_⟩
    rw [all_eq_true]
    intro i hi
    exact decide_eq_true (h.once.mem_iff.mpr hi)
  · rintro ⟨covered, hfold, hall⟩
    obtain ⟨hfits, hnodup, rfl⟩ := foldlM_placeChunk_iff.mp hfold
    rw [all_eq_true] at hall
    refine ⟨hfits, (perm_ext_iff_of_nodup hnodup nodup_range).mpr fun i => ?_⟩
    constructor
    · intro hi
      obtain ⟨ac, hac, hmem⟩ := mem_flatMap.mp hi
      have hinside := (hfits ac hac).inside
      obtain ⟨_, hlt⟩ := mem_pieceElements.mp hmem
      exact mem_range.mpr (by omega)
    · exact fun hi => of_decide_eq_true (hall i hi)

lemma Covers.perm {chunks' : List ArrayChunk} (h : Covers N E chunks)
    (hperm : chunks'.Perm chunks) : Covers N E chunks' :=
  ⟨fun ac hac => h.fits ac (hperm.subset hac), (hperm.flatMap_right _).trans h.once⟩

/-- The chunks of an array leave no choice for its bytes. -/
lemma Carries.unique {bytes bytes' : List UInt8} (hE : 0 < E) (hcovers : Covers N E chunks)
    (h : Carries E chunks bytes) (h' : Carries E chunks bytes') (hlength : bytes.length = N * E)
    (hlength' : bytes'.length = N * E) : bytes = bytes' := by
  apply ext_getElem?
  intro k
  by_cases hk : k < N * E
  · have hmem : k / E ∈ chunks.flatMap (pieceElements E) := by
      rw [hcovers.once.mem_iff, mem_range, Nat.div_lt_iff_lt_mul hE]
      exact hk
    obtain ⟨ac, hac, helement⟩ := mem_flatMap.mp hmem
    obtain ⟨hlow, hhigh⟩ := (byte_mem_pieceElements hE (hcovers.fits ac hac).aligned k).mp helement
    obtain ⟨j, rfl⟩ := Nat.exists_eq_add_of_le hlow
    have hj : j < ac.data.length := by omega
    rw [h ac hac j hj, h' ac hac j hj]
  · rw [getElem?_eq_none (by omega), getElem?_eq_none (by omega)]

lemma Carries.perm {chunks' : List ArrayChunk} {bytes : List UInt8} (h : Carries E chunks bytes)
    (hperm : chunks'.Perm chunks) : Carries E chunks' bytes :=
  fun ac hac => h ac (hperm.subset hac)

/-- Writing a chunk leaves the chunks before it alone. -/
lemma Carries.write {bytes : List UInt8} (hE : 0 < E) (h : Carries E chunks bytes)
    (hlength : bytes.length = N * E) (hfits : ∀ c ∈ chunks, Fits N E c) (hfit : Fits N E ac)
    (hdisjoint : ∀ i ∈ chunks.flatMap (pieceElements E), i ∉ pieceElements E ac) :
    Carries E (chunks ++ [ac]) (writeAt bytes (ac.elementOffset.toNat * E) ac.data) := by
  have hroom : ac.elementOffset.toNat * E + ac.data.length ≤ bytes.length := by
    have hinside := Nat.mul_le_mul_right E hfit.inside
    rw [add_mul, Nat.div_mul_cancel hfit.aligned] at hinside
    rw [hlength]
    exact hinside
  intro c hc j hj
  rw [getElem?_writeAt hroom]
  rcases mem_append.mp hc with hc | hc
  · have helement : (c.elementOffset.toNat * E + j) / E ∈ pieceElements E c :=
      (byte_mem_pieceElements hE (hfits c hc).aligned _).mpr ⟨Nat.le_add_right _ _, by omega⟩
    have hother := hdisjoint _ (mem_flatMap.mpr ⟨c, hc, helement⟩)
    rw [byte_mem_pieceElements hE hfit.aligned] at hother
    rw [if_neg hother]
    exact h c hc j hj
  · rw [mem_singleton.mp hc] at hj ⊢
    rw [if_pos ⟨Nat.le_add_right _ _, by omega⟩, Nat.add_sub_cancel_left]

lemma foldlM_assembleChunk_covers (hE : 0 < E) (hfits : ∀ ac ∈ chunks, Fits N E ac)
    (hnodup : (chunks.flatMap (pieceElements E)).Nodup) :
    ∃ buffer, chunks.foldlM (assembleChunk (N * E : ℕ) N E)
        ((fun _ => false), replicate (N * E) 0) =
        some ((fun i => decide (i ∈ chunks.flatMap (pieceElements E))), buffer) ∧
      buffer.length = N * E ∧ Carries E chunks buffer := by
  induction chunks using reverseRecOn with
  | nil =>
    refine ⟨replicate (N * E) 0, by simp, length_replicate, ?_⟩
    exact fun ac hac => absurd hac not_mem_nil
  | append_singleton chunks ac ih =>
    have hplaced := foldlM_placeChunk_iff.mpr ⟨hfits, hnodup, rfl⟩
    rw [flatMap_append, flatMap_singleton] at hnodup
    obtain ⟨hnodup, _, hdisjoint⟩ := nodup_append.mp hnodup
    have hbefore : ∀ c ∈ chunks, Fits N E c := fun c hc => hfits c (mem_append_left _ hc)
    have hfit := hfits ac (mem_append_right _ (mem_singleton_self ac))
    obtain ⟨buffer, hfold, hlength, hcarries⟩ := ih hbefore hnodup
    have hplace := hplaced
    rw [foldlM_append, foldlM_placeChunk_iff.mpr ⟨hbefore, hnodup, rfl⟩] at hplace
    have hstep : placeChunk (N * E : ℕ) N E
        (fun i => decide (i ∈ chunks.flatMap (pieceElements E))) ac =
        some fun i => decide (i ∈ (chunks ++ [ac]).flatMap (pieceElements E)) :=
      (bind_pure _).symm.trans hplace
    have hposition : (ac.elementOffset * (E : ℤ)).toNat = ac.elementOffset.toNat * E := by
      conv_lhs => rw [← Int.toNat_of_nonneg hfit.nonneg]
      rw [← Nat.cast_mul, Int.toNat_natCast]
    have hroom : ac.elementOffset.toNat * E + ac.data.length ≤ buffer.length := by
      have hinside := Nat.mul_le_mul_right E hfit.inside
      rw [add_mul, Nat.div_mul_cancel hfit.aligned] at hinside
      rw [hlength]
      exact hinside
    refine ⟨writeAt buffer (ac.elementOffset.toNat * E) ac.data, ?_,
      (length_writeAt hroom).trans hlength, hcarries.write hE hlength hbefore hfit
        fun i hi hmem => hdisjoint i hi i hmem rfl⟩
    rw [foldlM_append, hfold]
    show foldlM (assembleChunk (N * E : ℕ) N E) (_, buffer) [ac] = _
    rw [foldlM_cons, assembleChunk, hstep, hposition]
    rfl

end Coverage

def HeadAnnounces (chunks : List ArrayChunk) : Prop :=
  ∀ first ∈ chunks.head?, first.totalElements ≠ 0

section Field

variable {N E : ℕ} {chunks : List ArrayChunk} {ac : ArrayChunk}

lemma single?_eq_some {fi : FieldChunks} : fi.single? = some ac ↔
    fi.chunks = [ac] ∧ ac.elementOffset = 0 ∧ (ac.data.length : ℤ) = fi.totalBytes := by
  unfold FieldChunks.single?
  split
  case h_1 first hchunks =>
    rw [hchunks]
    split_ifs with hwhole
    · rw [Option.some_inj]
      constructor
      · rintro rfl
        exact ⟨rfl, hwhole⟩
      · rintro ⟨heq, _⟩
        exact (List.cons.inj heq).1
    · refine iff_of_false nofun ?_
      rintro ⟨heq, hac⟩
      rw [(List.cons.inj heq).1] at hwhole
      exact hwhole hac
  case h_2 hmore =>
    exact iff_of_false nofun fun h => hmore ac h.1

lemma covers_single (hE : 0 < E) (hoffset : ac.elementOffset = 0)
    (hlength : ac.data.length = N * E) : Covers N E [ac] := by
  have hcount : ac.data.length / E = N := by
    rw [hlength, Nat.mul_div_cancel _ hE]
  have helements : pieceElements E ac = range N := by
    rw [pieceElements, hcount, hoffset, range_eq_range']
    rfl
  constructor
  case fits =>
    intro c hc
    rw [mem_singleton.mp hc]
    refine ⟨⟨N, hlength.trans (Nat.mul_comm N E)⟩, hoffset.ge, ?_⟩
    rw [hcount, hoffset]
    exact (Nat.zero_add N).le
  case once =>
    rw [flatMap_singleton, helements]

variable (hN : 0 < N) (hE : 0 < E) (htotals : ∀ ac ∈ chunks, ac.totalElements = 0 ∨ ac.totalElements = N)

include hN hE htotals

lemma elementWidth_announced (hne : chunks ≠ []) :
    (HeadAnnounces chunks → elementWidth ⟨chunks, (N * E : ℕ)⟩ = some ((N : ℤ), (E : ℤ))) ∧
      (¬HeadAnnounces chunks → elementWidth ⟨chunks, (N * E : ℕ)⟩ = none) := by
  cases chunks with
  | nil => exact absurd rfl hne
  | cons first rest =>
    have hNpos : (0 : ℤ) < N := Int.natCast_pos.mpr hN
    have hEpos : (0 : ℤ) < E := Int.natCast_pos.mpr hE
    constructor
    · intro hhead
      have htotal : first.totalElements = N :=
        (htotals first mem_cons_self).resolve_left (hhead first rfl)
      have hdiv : ((N * E : ℕ) : ℤ) / (N : ℤ) = E := by
        rw [Nat.cast_mul]
        exact Int.mul_ediv_cancel_left _ hNpos.ne'
      have hmod : ((N * E : ℕ) : ℤ) % (N : ℤ) = 0 := by
        rw [Nat.cast_mul]
        exact Int.mul_emod_right _ _
      simp only [elementWidth, htotal, hdiv, hmod]
      rw [if_neg (by omega), if_neg (not_le.mpr hEpos)]
    · intro hhead
      have htotal : first.totalElements = 0 := by
        by_contra hzero
        apply hhead
        intro head hmem
        rw [← Option.some.inj hmem]
        exact hzero
      simp only [elementWidth, htotal]
      rw [if_pos (.inl le_rfl)]

lemma validateFieldChunks_iff (hsome : ∃ ac ∈ chunks, ac.totalElements ≠ 0) :
    validateFieldChunks ⟨chunks, (N * E : ℕ)⟩ = true ↔ HeadAnnounces chunks ∧ Covers N E chunks := by
  have hbytes : ((N * E : ℕ) : ℤ) ≠ 0 := Int.natCast_ne_zero.mpr (Nat.mul_pos hN hE).ne'
  obtain ⟨hwidth, hnone⟩ := elementWidth_announced hN hE htotals
    (fun hnil => by
      obtain ⟨ac, hac, _⟩ := hsome
      rw [hnil] at hac
      exact not_mem_nil hac)
  unfold validateFieldChunks
  rw [if_neg hbytes]
  cases hsingle : FieldChunks.single? ⟨chunks, (N * E : ℕ)⟩ with
  | some ac =>
    obtain ⟨rfl, hoffset, hlength⟩ := single?_eq_some.mp hsingle
    refine iff_of_true rfl ⟨fun first hfirst => ?_, covers_single hE hoffset (Int.ofNat_inj.mp hlength)⟩
    obtain ⟨c, hc, hne⟩ := hsome
    rw [← Option.some.inj hfirst, ← mem_singleton.mp hc]
    exact hne
  | none =>
    rw [Option.isSome_none, if_neg Bool.false_ne_true]
    by_cases hhead : HeadAnnounces chunks
    · rw [hwidth hhead, covers_iff]
      dsimp only
      rw [Int.toNat_natCast]
      cases hfold : chunks.foldlM (placeChunk (N * E : ℕ) N E) fun _ => false with
      | none => exact iff_of_false Bool.false_ne_true fun ⟨_, _, heq, _⟩ => nomatch heq
      | some covered =>
        constructor
        · exact fun hall => ⟨hhead, covered, rfl, hall⟩
        · rintro ⟨_, _, heq, hall⟩
          rw [Option.some.inj heq]
          exact hall
    · rw [hnone hhead]
      exact iff_of_false Bool.false_ne_true fun h => hhead h.1

lemma assembleFieldPayload_covers (hhead : HeadAnnounces chunks) (h : Covers N E chunks) :
    ∃ data, assembleFieldPayload ⟨chunks, (N * E : ℕ)⟩ = some data ∧ data.length = N * E ∧
      Carries E chunks data := by
  have hbytes : ((N * E : ℕ) : ℤ) ≠ 0 := Int.natCast_ne_zero.mpr (Nat.mul_pos hN hE).ne'
  have hne : chunks ≠ [] := by
    rintro rfl
    have hlength := h.once.length_eq
    rw [length_range] at hlength
    exact hN.ne hlength
  unfold assembleFieldPayload
  rw [if_neg hbytes]
  cases hsingle : FieldChunks.single? ⟨chunks, (N * E : ℕ)⟩ with
  | some ac =>
    obtain ⟨rfl, hoffset, hlength⟩ := single?_eq_some.mp hsingle
    refine ⟨ac.data, rfl, Int.ofNat_inj.mp hlength, fun c hc j _ => ?_⟩
    rw [mem_singleton.mp hc, hoffset, Int.toNat_zero, Nat.zero_mul, Nat.zero_add]
  | none =>
    obtain ⟨buffer, hfold, hlength, hcarries⟩ :=
      foldlM_assembleChunk_covers hE h.fits (h.once.nodup_iff.mpr nodup_range)
    have hall : (range N).all (fun i => decide (i ∈ chunks.flatMap (pieceElements E))) = true := by
      rw [all_eq_true]
      exact fun i hi => decide_eq_true (h.once.mem_iff.mpr hi)
    refine ⟨buffer, ?_, hlength, hcarries⟩
    rw [(elementWidth_announced hN hE htotals hne).1 hhead]
    dsimp only
    rw [Int.toNat_natCast, Int.toNat_natCast, hfold]
    dsimp only
    rw [hall, if_pos rfl]

end Field

end CuOpt.Grpc.Chunks
