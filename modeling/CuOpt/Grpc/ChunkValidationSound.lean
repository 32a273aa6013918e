import CuOpt.Grpc.ChunkValidation

/-! Chunks from anywhere: no number overflows, what is accepted covers each array once, and the answer
depends on the order exactly if an empty chunk may come before the data of its array. -/

namespace CuOpt.Grpc.Chunks

open ByteFrames List
open ArrayFamily (chunksOf)
open Option (map_some some_inj)

lemma int64_eq {x : ℤ} (hlow : int64Min ≤ x) (hhigh : x ≤ int64Max) : int64 x = .ok x :=
  if_neg (not_or.mpr ⟨not_lt.mpr hlow, not_lt.mpr hhigh⟩)

lemma int64_of_nonneg {x : ℤ} (hlow : 0 ≤ x) (hhigh : x ≤ kMaxPipeArrayBytes) : int64 x = .ok x := by
  have hmin : int64Min ≤ 0 := by decide
  have hmax : (kMaxPipeArrayBytes : ℤ) ≤ int64Max := by decide
  exact int64_eq (hmin.trans hlow) (hhigh.trans hmax)

lemma markChecked_eq {totalElements elementOffset : ℤ} (hmax : totalElements ≤ kMaxPipeArrayBytes)
    (hoffset : 0 ≤ elementOffset) (count : ℕ) (e : ℕ) (hfits : elementOffset + e + count ≤ totalElements)
    (covered : ℕ → Bool) :
    markChecked totalElements elementOffset count e covered =
      .ok (markAll covered (range' (elementOffset.toNat + e) count)) := by
  induction count generalizing e covered with
  | zero => rfl
  | succ count ih =>
    have hidx : (elementOffset + (e : ℤ)).toNat = elementOffset.toNat + e := by omega
    have hin : ¬(elementOffset + (e : ℤ) < 0 ∨ totalElements ≤ elementOffset + (e : ℤ)) := by omega
    have hnext : ((e + 1 : ℕ) : ℤ) = (e : ℤ) + 1 := Nat.cast_succ e
    rw [markChecked, int64_of_nonneg (by omega) (by omega)]
    dsimp only
    rw [if_neg hin, hidx, range'_succ, markAll, foldlM_cons]
    cases hcovered : covered (elementOffset.toNat + e) with
    | true => rfl
    | false =>
      have hrest := ih (e + 1) (by omega) (Function.update covered (elementOffset.toNat + e) true)
      rw [hnext] at hrest
      exact hrest

section Place

variable {totalBytes totalElements elemSize : ℤ}

lemma placeChecked_eq (hN : 0 < totalElements) (hE : 0 < elemSize)
    (hbytes : totalElements * elemSize = totalBytes) (hmax : totalBytes ≤ kMaxPipeArrayBytes)
    (covered : ℕ → Bool) {ac : ArrayChunk} (hac : (ac.data.length : ℤ) ≤ int64Max) :
    placeChecked totalBytes totalElements elemSize covered ac =
      .ok (placeChunk totalBytes totalElements elemSize covered ac) := by
  have hle : totalElements ≤ totalBytes := by
    rw [← hbytes]
    exact le_mul_of_one_le_right hN.le hE
  rw [placeChecked, placeChunk]
  dsimp only
  by_cases hmod : (ac.data.length : ℤ) % elemSize ≠ 0
  · rw [if_pos hmod, if_pos hmod]
  · rw [if_neg hmod, if_neg hmod]
    by_cases hneg : ac.elementOffset < 0 ∨ (ac.data.length : ℤ) / elemSize < 0
    · rw [if_pos hneg, if_pos hneg]
    · rw [if_neg hneg, if_neg hneg]
      rw [not_or, not_lt, not_lt] at hneg
      obtain ⟨hoffset, hcount⟩ := hneg
      have hcountMax : (ac.data.length : ℤ) / elemSize ≤ ac.data.length :=
        Int.ediv_le_self _ (Int.natCast_nonneg _)
      have hroom : int64 (totalElements - (ac.data.length : ℤ) / elemSize) =
          .ok (totalElements - (ac.data.length : ℤ) / elemSize) := by
        have hlimits : int64Min = -int64Max - 1 := by decide
        have hmaxLe : (kMaxPipeArrayBytes : ℤ) ≤ int64Max := by decide
        apply int64_eq
        · omega
        · omega
      rw [hroom]
      dsimp only
      by_cases hrange : totalElements - (ac.data.length : ℤ) / elemSize < ac.elementOffset
      · rw [if_pos hrange, if_pos hrange]
      · rw [if_neg hrange, if_neg hrange]
        rw [not_lt] at hrange
        have hsize : (ac.data.length : ℤ) / elemSize * elemSize = ac.data.length :=
          Int.ediv_mul_cancel (Int.dvd_of_emod_eq_zero (not_not.mp hmod))
        have hlast : ac.elementOffset * elemSize + (ac.data.length : ℤ) ≤ totalBytes := by
          rw [← hsize, ← add_mul, ← hbytes]
          exact mul_le_mul_of_nonneg_right (by omega) hE.le
        have hbyte : 0 ≤ ac.elementOffset * elemSize := mul_nonneg hoffset hE.le
        rw [int64_of_nonneg hbyte (by omega)]
        dsimp only
        rw [int64_of_nonneg (by omega) (by omega)]
        dsimp only
        rw [if_neg (not_lt.mpr hlast), if_neg (not_lt.mpr hlast)]
        exact markChecked_eq (hle.trans hmax) hoffset _ 0 (by omega) covered

lemma placeAllChecked_eq (hN : 0 < totalElements) (hE : 0 < elemSize)
    (hbytes : totalElements * elemSize = totalBytes) (hmax : totalBytes ≤ kMaxPipeArrayBytes)
    (chunks : List ArrayChunk) (hchunks : ∀ ac ∈ chunks, (ac.data.length : ℤ) ≤ int64Max)
    (covered : ℕ → Bool) :
    placeAllChecked totalBytes totalElements elemSize chunks covered =
      .ok (chunks.foldlM (placeChunk totalBytes totalElements elemSize) covered) := by
  induction chunks generalizing covered with
  | nil => rfl
  | cons ac chunks ih =>
    rw [placeAllChecked, placeChecked_eq hN hE hbytes hmax covered (hchunks ac mem_cons_self),
      foldlM_cons]
    cases placeChunk totalBytes totalElements elemSize covered ac with
    | none => rfl
    | some next => exact ih (fun c hc => hchunks c (mem_cons_of_mem ac hc)) next

lemma placeChunk_within {covered covered' : ℕ → Bool} {ac : ArrayChunk} (hE : 0 < elemSize)
    (h : placeChunk totalBytes totalElements elemSize covered ac = some covered') :
    0 ≤ ac.elementOffset * elemSize ∧
      ac.elementOffset * elemSize + (ac.data.length : ℤ) ≤ totalBytes := by
  rw [placeChunk] at h
  split_ifs at h with hmod hneg hroom hlast
  rw [not_or, not_lt] at hneg
  exact ⟨mul_nonneg hneg.1 hE.le, not_lt.mp hlast⟩

lemma assembleAllChecked_eq (hN : 0 < totalElements) (hE : 0 < elemSize)
    (hbytes : totalElements * elemSize = totalBytes) (hmax : totalBytes ≤ kMaxPipeArrayBytes)
    (chunks : List ArrayChunk) (hchunks : ∀ ac ∈ chunks, (ac.data.length : ℤ) ≤ int64Max)
    (covered : ℕ → Bool) (assembled : List UInt8) (hlength : (assembled.length : ℤ) = totalBytes) :
    assembleAllChecked totalBytes totalElements elemSize chunks covered assembled =
      .ok (chunks.foldlM (assembleChunk totalBytes totalElements elemSize) (covered, assembled)) := by
  induction chunks generalizing covered assembled with
  | nil => rfl
  | cons ac chunks ih =>
    rw [assembleAllChecked,
      placeChecked_eq hN hE hbytes hmax covered (hchunks ac mem_cons_self), foldlM_cons,
      assembleChunk]
    cases hplace : placeChunk totalBytes totalElements elemSize covered ac with
    | none => rfl
    | some next =>
      obtain ⟨hlow, hhigh⟩ := placeChunk_within hE hplace
      have hcopy : copyChecked assembled (ac.elementOffset * elemSize) ac.data =
          .ok (writeAt assembled (ac.elementOffset * elemSize).toNat ac.data) :=
        if_neg (by omega)
      dsimp only
      rw [hcopy]
      have hroom : (ac.elementOffset * elemSize).toNat + ac.data.length ≤ assembled.length := by omega
      exact ih (fun c hc => hchunks c (mem_cons_of_mem ac hc)) next _
        (by rw [length_writeAt hroom, hlength])

end Place

structure Sized (fi : FieldChunks) : Prop where
  nonneg : 0 ≤ fi.totalBytes
  le_max : fi.totalBytes ≤ kMaxPipeArrayBytes
  chunks : ∀ ac ∈ fi.chunks, (ac.data.length : ℤ) ≤ int64Max

lemma elementWidth_eq_some {fi : FieldChunks} {totalElements elemSize : ℤ}
    (h : elementWidth fi = some (totalElements, elemSize)) :
    0 < totalElements ∧ 0 < elemSize ∧ totalElements * elemSize = fi.totalBytes := by
  rw [elementWidth] at h
  cases hchunks : fi.chunks with
  | nil =>
    rw [hchunks] at h
    cases h
  | cons first rest =>
    rw [hchunks] at h
    dsimp only at h
    split_ifs at h with hbad hwidth
    rw [not_or, not_le, not_not] at hbad
    cases h
    exact ⟨hbad.1, not_le.mp hwidth, Int.mul_ediv_cancel' (Int.dvd_of_emod_eq_zero hbad.2)⟩

lemma validateChecked_eq {fi : FieldChunks} (h : Sized fi) :
    validateChecked fi = .ok (validateFieldChunks fi) := by
  rw [validateChecked, validateFieldChunks]
  split_ifs with hzero hsingle
  · rfl
  · rfl
  · cases hwidth : elementWidth fi with
    | none => rfl
    | some width =>
      obtain ⟨totalElements, elemSize⟩ := width
      obtain ⟨hN, hE, hbytes⟩ := elementWidth_eq_some hwidth
      dsimp only
      rw [placeAllChecked_eq hN hE hbytes h.le_max fi.chunks h.chunks]
      cases fi.chunks.foldlM (placeChunk fi.totalBytes totalElements elemSize) fun _ => false with
      | none => rfl
      | some covered => rfl

def payloadCalls (fi : FieldChunks) (bytes : List UInt8) : List (List UInt8) :=
  if fi.totalBytes = 0 then [] else [bytes]

lemma payloadChecked_eq {fi : FieldChunks} (h : Sized fi) :
    payloadChecked fi = .ok ((assembleFieldPayload fi).map (payloadCalls fi)) := by
  rw [payloadChecked, assembleFieldPayload]
  split_ifs with hzero
  · rw [map_some, payloadCalls, if_pos hzero]
  · cases hsingle : fi.single? with
    | some ac =>
      dsimp only
      rw [map_some, payloadCalls, if_neg hzero]
    | none =>
      cases hwidth : elementWidth fi with
      | none => rfl
      | some width =>
        obtain ⟨totalElements, elemSize⟩ := width
        obtain ⟨hN, hE, hbytes⟩ := elementWidth_eq_some hwidth
        have hlength : ((replicate fi.totalBytes.toNat (0 : UInt8)).length : ℤ) =
            fi.totalBytes := by
          rw [length_replicate]
          exact Int.toNat_of_nonneg h.nonneg
        dsimp only
        rw [assembleAllChecked_eq hN hE hbytes h.le_max fi.chunks h.chunks _ _ hlength]
        cases fi.chunks.foldlM (assembleChunk fi.totalBytes totalElements elemSize)
            ((fun _ => false), replicate fi.totalBytes.toNat 0) with
        | none => rfl
        | some progress =>
          obtain ⟨covered, assembled⟩ := progress
          dsimp only
          split_ifs
          · rw [map_some, payloadCalls, if_neg hzero]
          · rfl

lemma addChecked_eq (elemSize : ℤ) (fi : FieldChunks) (ac : ArrayChunk) :
    addChecked elemSize fi ac = .ok (addChunk elemSize fi ac) := by
  rw [addChecked, addChunk]
  dsimp only
  split_ifs with hsize hneg hzero hdata hguard
  · rfl
  · rfl
  · rfl
  · rfl
  · rfl
  all_goals
    have hbound : ac.totalElements * elemSize ≤ int64Max :=
      (Int.le_ediv_iff_mul_le (not_le.mp hsize)).mp (not_lt.mp hguard)
    have hnonneg : 0 ≤ ac.totalElements * elemSize :=
      mul_nonneg (not_lt.mp hneg) (not_le.mp hsize).le
    have hmin : int64Min ≤ 0 := by decide
    rw [int64_eq (hmin.trans hnonneg) hbound]
    dsimp only
    simp [*]

lemma binChecked_eq (chunks : List ArrayChunk) (fields : Fields) :
    binChecked chunks fields = .ok (chunks.foldlM binChunk fields) := by
  induction chunks generalizing fields with
  | nil => rfl
  | cons ac chunks ih =>
    rw [binChecked, addChecked_eq, foldlM_cons, binChunk]
    cases addChunk (chunkKey ac).elementSize (fields.get (chunkKey ac)) ac with
    | none => rfl
    | some fi => exact ih _

lemma validateAllChecked_eq {κ : Type*} {fields : List (κ × FieldChunks)}
    (h : ∀ p ∈ fields, Sized p.2) :
    validateAllChecked fields = .ok (fields.all fun p => validateFieldChunks p.2) := by
  induction fields with
  | nil => rfl
  | cons p fields ih =>
    rw [validateAllChecked, validateChecked_eq (h p mem_cons_self), all_cons]
    cases validateFieldChunks p.2 with
    | false => rfl
    | true => exact ih fun q hq => h q (mem_cons_of_mem p hq)

structure ChunkOk (ac : ArrayChunk) : Prop where
  known : 0 < (chunkKey ac).elementSize
  nonneg : 0 ≤ ac.totalElements
  empty : ac.totalElements = 0 → ac.data = []
  within : ac.totalElements * (chunkKey ac).elementSize ≤ kMaxPipeArrayBytes

def Agree (chunks : List ArrayChunk) : Prop :=
  ∀ ac ∈ chunks, ∀ ac' ∈ chunks, chunkKey ac = chunkKey ac' → ac.totalElements ≠ 0 →
    ac'.totalElements ≠ 0 → ac.totalElements = ac'.totalElements

def announced (chunks : List ArrayChunk) : ℤ :=
  ((chunks.find? fun ac => ac.totalElements ≠ 0).map ArrayChunk.totalElements).getD 0

def BinnedFields (chunks : List ArrayChunk) (fields : Fields) : Prop :=
  ∀ key, fields.get? key = if chunksOf key chunks = [] then none
    else some ⟨chunksOf key chunks, announced (chunksOf key chunks) * key.elementSize⟩

section Binning

variable {chunks : List ArrayChunk} {ac : ArrayChunk} {fields : Fields} {key : ArrayKey}

lemma mem_chunksOf : ac ∈ chunksOf key chunks ↔ ac ∈ chunks ∧ chunkKey ac = key := by
  rw [chunksOf, mem_filter, decide_eq_true_eq]

lemma chunksOf_snoc_self (chunks : List ArrayChunk) (ac : ArrayChunk) :
    chunksOf (chunkKey ac) (chunks ++ [ac]) = chunksOf (chunkKey ac) chunks ++ [ac] := by
  rw [chunksOf, filter_append]
  congr 1
  exact filter_cons_of_pos (decide_eq_true rfl)

lemma chunksOf_snoc_of_ne (chunks : List ArrayChunk) (h : key ≠ chunkKey ac) :
    chunksOf key (chunks ++ [ac]) = chunksOf key chunks := by
  rw [chunksOf, filter_append,
    filter_cons_of_neg (by rw [decide_eq_true_eq]; exact fun heq => h heq.symm)]
  exact append_nil _

lemma announced_snoc (chunks : List ArrayChunk) (ac : ArrayChunk) :
    announced (chunks ++ [ac]) =
      if announced chunks = 0 then ac.totalElements else announced chunks := by
  unfold announced
  rw [find?_append]
  cases hfind : chunks.find? fun ac => decide (ac.totalElements ≠ 0) with
  | none =>
    rw [Option.none_or, find?_singleton]
    by_cases hzero : ac.totalElements = 0
    · simp [hzero]
    · simp [hzero]
  | some first =>
    have hne := find?_some hfind
    rw [decide_eq_true_eq] at hne
    rw [Option.some_or, map_some, Option.getD_some, if_neg hne]

lemma announced_eq_zero_iff : announced chunks = 0 ↔ ∀ ac ∈ chunks, ac.totalElements = 0 := by
  unfold announced
  cases hfind : chunks.find? fun ac => decide (ac.totalElements ≠ 0) with
  | none =>
    refine iff_of_true rfl fun ac hac => ?_
    have hnot := find?_eq_none.mp hfind ac hac
    rw [decide_eq_true_eq] at hnot
    exact not_not.mp hnot
  | some first =>
    have hne := find?_some hfind
    rw [decide_eq_true_eq] at hne
    exact iff_of_false hne fun hall => hne (hall first (mem_of_find?_eq_some hfind))

lemma exists_announced (h : announced chunks ≠ 0) :
    ∃ ac ∈ chunks, ac.totalElements = announced chunks := by
  unfold announced at h ⊢
  cases hfind : chunks.find? fun ac => decide (ac.totalElements ≠ 0) with
  | none =>
    rw [hfind] at h
    exact absurd rfl h
  | some first => exact ⟨first, mem_of_find?_eq_some hfind, rfl⟩

lemma Agree.announced_eq (h : Agree chunks) (hac : ac ∈ chunks) (hne : ac.totalElements ≠ 0) :
    announced (chunksOf (chunkKey ac) chunks) = ac.totalElements := by
  have hmem : ac ∈ chunksOf (chunkKey ac) chunks := mem_chunksOf.mpr ⟨hac, rfl⟩
  have hnonzero : announced (chunksOf (chunkKey ac) chunks) ≠ 0 := fun hzero =>
    hne (announced_eq_zero_iff.mp hzero ac hmem)
  obtain ⟨first, hfirst, heq⟩ := exists_announced hnonzero
  obtain ⟨hchunk, hkey⟩ := mem_chunksOf.mp hfirst
  rw [← heq]
  exact h first hchunk ac hac hkey (heq ▸ hnonzero) hne

lemma addChunk_eq_some {elemSize : ℤ} {fi fi' : FieldChunks} :
    addChunk elemSize fi ac = some fi' ↔
      (0 < elemSize ∧ 0 ≤ ac.totalElements ∧ (ac.totalElements = 0 → ac.data = []) ∧
        ac.totalElements * elemSize ≤ kMaxPipeArrayBytes ∧
        (ac.totalElements ≠ 0 → fi.totalBytes = 0 ∨ fi.totalBytes = ac.totalElements * elemSize)) ∧
      fi' = ⟨fi.chunks ++ [ac],
        if ac.totalElements = 0 then fi.totalBytes else ac.totalElements * elemSize⟩ := by
  have hmax : (0 : ℤ) ≤ kMaxPipeArrayBytes := Int.natCast_nonneg _
  have hlimit : (kMaxPipeArrayBytes : ℤ) ≤ int64Max := by decide
  rw [addChunk]
  dsimp only
  by_cases hsize : elemSize ≤ 0
  · rw [if_pos hsize]
    exact iff_of_false nofun fun h => absurd h.1.1 (not_lt.mpr hsize)
  rw [if_neg hsize]
  by_cases hneg : ac.totalElements < 0
  · rw [if_pos hneg]
    exact iff_of_false nofun fun h => absurd h.1.2.1 (not_le.mpr hneg)
  rw [if_neg hneg]
  by_cases hzero : ac.totalElements = 0
  · rw [if_pos hzero, if_pos hzero]
    by_cases hdata : ac.data = []
    · rw [if_neg (not_not.mpr hdata), some_inj, hzero, zero_mul]
      constructor
      · rintro rfl
        exact ⟨⟨not_le.mp hsize, le_rfl, fun _ => hdata, hmax, fun h => absurd rfl h⟩, rfl⟩
      · exact fun h => h.2.symm
    · rw [if_pos hdata]
      exact iff_of_false nofun fun h => hdata (h.1.2.2.1 hzero)
  rw [if_neg hzero, if_neg hzero]
  by_cases hbytes : (kMaxPipeArrayBytes : ℤ) < ac.totalElements * elemSize
  · have hnone : ∀ x : Option FieldChunks,
        (if int64Max / elemSize < ac.totalElements then none
          else if (kMaxPipeArrayBytes : ℤ) < ac.totalElements * elemSize then none else x) = none := by
      intro x
      rw [if_pos hbytes, ite_self]
    rw [hnone]
    exact iff_of_false nofun fun h => absurd h.1.2.2.2.1 (not_le.mpr hbytes)
  · have hguard : ¬ int64Max / elemSize < ac.totalElements := by
      rw [not_lt, Int.le_ediv_iff_mul_le (not_le.mp hsize)]
      omega
    rw [if_neg hguard, if_neg hbytes]
    by_cases hfirst : fi.totalBytes = 0
    · rw [if_pos hfirst, some_inj]
      constructor
      · rintro rfl
        exact ⟨⟨not_le.mp hsize, not_lt.mp hneg, fun h => absurd h hzero, not_lt.mp hbytes,
          fun _ => .inl hfirst⟩, rfl⟩
      · exact fun h => h.2.symm
    · rw [if_neg hfirst]
      by_cases hsame : fi.totalBytes = ac.totalElements * elemSize
      · rw [if_neg (not_not.mpr hsame), some_inj, ← hsame]
        constructor
        · rintro rfl
          exact ⟨⟨not_le.mp hsize, not_lt.mp hneg, fun h => absurd h hzero, hsame ▸ not_lt.mp hbytes,
            fun _ => .inr rfl⟩, rfl⟩
        · exact fun h => h.2.symm
      · rw [if_pos hsame]
        refine iff_of_false nofun fun h => ?_
        rcases h.1.2.2.2.2 hzero with h | h
        · exact hfirst h
        · exact hsame h

lemma BinnedFields.get_chunks (h : BinnedFields chunks fields) (key : ArrayKey) :
    (fields.get key).chunks = chunksOf key chunks := by
  rw [Fields.get_eq, h key]
  split_ifs with hnil
  · exact hnil.symm
  · rfl

lemma BinnedFields.get_totalBytes (h : BinnedFields chunks fields) (key : ArrayKey) :
    (fields.get key).totalBytes = announced (chunksOf key chunks) * key.elementSize := by
  rw [Fields.get_eq, h key]
  split_ifs with hnil
  · rw [hnil]
    exact (zero_mul _).symm
  · rfl

lemma BinnedFields.snoc (h : BinnedFields chunks fields) {fi : FieldChunks}
    (hok : 0 < (chunkKey ac).elementSize)
    (hsame : ac.totalElements ≠ 0 → (fields.get (chunkKey ac)).totalBytes = 0 ∨
      (fields.get (chunkKey ac)).totalBytes = ac.totalElements * (chunkKey ac).elementSize)
    (hfi : fi = ⟨(fields.get (chunkKey ac)).chunks ++ [ac],
      if ac.totalElements = 0 then (fields.get (chunkKey ac)).totalBytes
      else ac.totalElements * (chunkKey ac).elementSize⟩) :
    BinnedFields (chunks ++ [ac]) (fields.set (chunkKey ac) fi) := by
  intro key
  rw [Fields.get?_set]
  by_cases hkey : key = chunkKey ac
  · subst hkey
    rw [if_pos rfl, chunksOf_snoc_self, if_neg (append_ne_nil_of_right_ne_nil _
      (cons_ne_nil _ _)), hfi, h.get_chunks, announced_snoc]
    congr 2
    rw [h.get_totalBytes] at hsame ⊢
    by_cases hzero : ac.totalElements = 0
    · rw [if_pos hzero]
      split_ifs with hfirst
      · rw [hfirst, hzero]
      · rfl
    · rw [if_neg hzero]
      split_ifs with hfirst
      · rfl
      · rcases hsame hzero with hnone | heq
        · exact absurd hnone (mul_ne_zero hfirst hok.ne')
        · exact heq.symm
  · rw [if_neg hkey, h key, chunksOf_snoc_of_ne chunks hkey]

lemma agree_snoc (h : Agree (chunks ++ [ac])) : Agree chunks := fun c hc c' hc' =>
  h c (mem_append_left _ hc) c' (mem_append_left _ hc')

lemma foldlM_binChunk_some (h : chunks.foldlM binChunk {} = some fields) :
    (∀ ac ∈ chunks, ChunkOk ac) ∧ Agree chunks ∧ BinnedFields chunks fields := by
  induction chunks using reverseRecOn generalizing fields with
  | nil =>
    rw [← Option.some.inj h]
    refine ⟨fun ac hac => absurd hac not_mem_nil,
      fun ac hac => absurd hac not_mem_nil, fun key => ?_⟩
    cases key <;> rfl
  | append_singleton chunks ac ih =>
    rw [foldlM_append] at h
    obtain ⟨before, hbefore, hlast⟩ := Option.bind_eq_some_iff.mp h
    rw [foldlM_cons] at hlast
    obtain ⟨after, hafter, hnil⟩ := Option.bind_eq_some_iff.mp hlast
    rw [← Option.some.inj hnil]
    obtain ⟨hok, hagree, hbinned⟩ := ih hbefore
    obtain ⟨fi, hadd, rfl⟩ := Option.map_eq_some_iff.mp hafter
    obtain ⟨⟨hsize, hnonneg, hempty, hwithin, hsame⟩, hfi⟩ := addChunk_eq_some.mp hadd
    have hannounced : ac.totalElements ≠ 0 → ∀ c ∈ chunks, chunkKey c = chunkKey ac →
        c.totalElements ≠ 0 → c.totalElements = ac.totalElements := by
      intro hne c hc hkey hcne
      have hmem : c ∈ chunksOf (chunkKey ac) chunks := mem_chunksOf.mpr ⟨hc, hkey⟩
      have hfirst := hagree.announced_eq hc hcne
      have htotal := hsame hne
      rw [hbinned.get_totalBytes, ← hkey, hfirst] at htotal
      rcases htotal with hzero | heq
      · rw [← hkey] at hsize
        exact absurd hzero (mul_ne_zero hcne hsize.ne')
      · rw [← hkey] at hsize
        exact mul_right_cancel₀ hsize.ne' heq
    refine ⟨fun c hc => ?_, fun c hc c' hc' hkey hcne hcne' => ?_, hbinned.snoc hsize hsame hfi⟩
    · rcases mem_append.mp hc with hc | hc
      · exact hok c hc
      · rw [mem_singleton.mp hc]
        exact ⟨hsize, hnonneg, hempty, hwithin⟩
    · rcases mem_append.mp hc with hc | hc
      · rcases mem_append.mp hc' with hc' | hc'
        · exact hagree c hc c' hc' hkey hcne hcne'
        · rw [mem_singleton.mp hc'] at hkey hcne' ⊢
          exact hannounced hcne' c hc hkey hcne
      · rw [mem_singleton.mp hc] at hkey hcne ⊢
        rcases mem_append.mp hc' with hc' | hc'
        · exact (hannounced hcne c' hc' hkey.symm hcne').symm
        · rw [mem_singleton.mp hc']

lemma exists_foldlM_binChunk (hok : ∀ ac ∈ chunks, ChunkOk ac) (hagree : Agree chunks) :
    ∃ fields, chunks.foldlM binChunk {} = some fields := by
  induction chunks using reverseRecOn with
  | nil => exact ⟨{}, rfl⟩
  | append_singleton chunks ac ih =>
    obtain ⟨fields, hfields⟩ := ih (fun c hc => hok c (mem_append_left _ hc)) (agree_snoc hagree)
    have hmem : ac ∈ chunks ++ [ac] := mem_append_right _ (mem_singleton_self ac)
    have hac := hok ac hmem
    have hbinned := (foldlM_binChunk_some hfields).2.2
    have hsame : ac.totalElements ≠ 0 → (fields.get (chunkKey ac)).totalBytes = 0 ∨
        (fields.get (chunkKey ac)).totalBytes = ac.totalElements * (chunkKey ac).elementSize := by
      intro hne
      rw [hbinned.get_totalBytes]
      by_cases hzero : announced (chunksOf (chunkKey ac) chunks) = 0
      · left
        rw [hzero, zero_mul]
      · right
        obtain ⟨first, hfirst, heq⟩ := exists_announced hzero
        obtain ⟨hchunk, hkey⟩ := mem_chunksOf.mp hfirst
        rw [← heq, hagree first (mem_append_left _ hchunk) ac hmem hkey (heq ▸ hzero) hne]
    have hadd := addChunk_eq_some.mpr ⟨⟨hac.known, hac.nonneg, hac.empty, hac.within, hsame⟩, rfl⟩
    obtain ⟨fi, hfi⟩ : ∃ fi, addChunk (chunkKey ac).elementSize (fields.get (chunkKey ac)) ac =
        some fi := ⟨_, hadd⟩
    refine ⟨fields.set (chunkKey ac) fi, ?_⟩
    rw [foldlM_append, hfields]
    show foldlM binChunk fields [ac] = _
    rw [foldlM_cons, binChunk]
    simp only [hfi]
    rfl

end Binning

end CuOpt.Grpc.Chunks
