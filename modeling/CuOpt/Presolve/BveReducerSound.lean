import CuOpt.Presolve.BveCoverSound
import CuOpt.Presolve.BveReducer

/-! The blocks of a batch can be committed in any order, and staged one after another. -/

namespace CuOpt.Presolve

open BooleanCubes List Finset
open WorkRow (missing retire)

namespace BveReducer

structure Linked (S : BveReducer) : Prop where
  mem_iff : ∀ c r, r ∈ S.col2rows c ↔ c ∈ (S.row r).columns

structure Consistent (S : BveReducer) : Prop extends Linked S where
  orig_le : S.nRowsOrig ≤ S.rows.length

section Rows

variable {S : BveReducer}

lemma row_of_le {r : ℕ} (h : S.rows.length ≤ r) : S.row r = missing :=
  getD_eq_default _ _ h

lemma Linked.lt (h : S.Linked) {c r : ℕ} (hr : r ∈ S.col2rows c) : r < S.rows.length := by
  by_contra hge
  rw [h.mem_iff, row_of_le (not_lt.mp hge)] at hr
  cases hr

lemma row_modify (rows : List WorkRow) (k r : ℕ) :
    (rows.modify k retire).getD r missing =
      if r = k then (rows.getD r missing).retire else rows.getD r missing := by
  rw [getD_eq_getElem?_getD, getD_eq_getElem?_getD, getElem?_modify]
  rcases eq_or_ne r k with rfl | hne
  · rw [if_pos rfl]
    cases rows[r]? with
    | none => rfl
    | some R =>
      show (if r = r then R.retire else R) = R.retire
      exact if_pos rfl
  · rw [if_neg hne]
    cases rows[r]? with
    | none => rfl
    | some R =>
      show (if k = r then R.retire else R) = R
      exact if_neg hne.symm

lemma row_retireRow (k r : ℕ) :
    (S.retireRow k).row r = if r = k then (S.row r).retire else S.row r :=
  row_modify S.rows k r

lemma row_addRow (R : WorkRow) (r : ℕ) :
    (S.addRow R).row r = if r = S.rows.length then R else S.row r := by
  show (S.rows ++ [R]).getD r missing = _
  split_ifs with heq
  · rw [heq, getD_append_right _ _ _ _ le_rfl, Nat.sub_self]
    rfl
  · rcases lt_or_ge r S.rows.length with hlt | hge
    · exact getD_append _ _ _ _ hlt
    · rw [row_of_le hge, getD_append_right _ _ _ _ hge]
      apply getD_eq_default
      rw [length_singleton]
      omega

lemma Consistent.retireRow (h : S.Consistent) (k : ℕ) : (S.retireRow k).Consistent where
  mem_iff := by
    intro c r
    rw [row_retireRow, BveReducer.retireRow]
    dsimp only
    rcases eq_or_ne r k with rfl | hne
    · rw [if_pos rfl]
      have hcolumns : (S.row r).retire.columns = [] := rfl
      rw [hcolumns]
      constructor
      · intro hmem
        split_ifs at hmem with hc
        · exact absurd rfl (ne_of_mem_erase hmem)
        · exact absurd ((h.mem_iff c r).mp hmem) hc
      · intro hmem
        cases hmem
    · rw [if_neg hne]
      refine Iff.trans ?_ (h.mem_iff c r)
      split_ifs
      · exact ⟨Finset.mem_of_mem_erase, fun hr => mem_erase.mpr ⟨hne, hr⟩⟩
      · exact .rfl
  orig_le := by
    show S.nRowsOrig ≤ (S.rows.modify k retire).length
    rw [length_modify]
    exact h.orig_le

lemma Linked.addRow (h : S.Linked) (R : WorkRow) : (S.addRow R).Linked where
  mem_iff := by
    intro c r
    rw [row_addRow, BveReducer.addRow]
    dsimp only
    split_ifs with hc hr hr
    · rw [hr]
      exact ⟨fun _ => hc, fun _ => Finset.mem_insert_self _ _⟩
    · rw [mem_insert, or_iff_right hr]
      exact h.mem_iff c r
    · constructor
      · intro hmem
        exact absurd (h.lt hmem) (hr ▸ lt_irrefl _)
      · intro hmem
        exact absurd hmem hc
    · exact h.mem_iff c r

lemma length_addRow (R : WorkRow) : (S.addRow R).rows.length = S.rows.length + 1 := by
  show (S.rows ++ [R]).length = _
  rw [length_append, length_singleton]

lemma Consistent.addRow (h : S.Consistent) (R : WorkRow) : (S.addRow R).Consistent where
  mem_iff := (h.toLinked.addRow R).mem_iff
  orig_le := by
    rw [length_addRow]
    exact h.orig_le.trans (Nat.le_succ _)

lemma Consistent.eliminate (h : S.Consistent) {interior : List ℕ}
    (hclear : ∀ c ∈ interior, S.col2rows c = ∅) : (S.eliminate interior).Consistent where
  mem_iff := by
    intro c r
    show r ∈ (if c ∈ interior then ∅ else S.col2rows c) ↔ c ∈ (S.row r).columns
    rw [← h.mem_iff]
    split_ifs with hc
    · rw [hclear c hc]
    · exact .rfl
  orig_le := h.orig_le

end Rows

section Stage

variable {S S' : BveReducer} {cand : BveCandidate}

/-- The rows and the boundary of a candidate are those of its interior. -/
structure Spans (S : BveReducer) (cand : BveCandidate) : Prop where
  mem_rows : ∀ r, r ∈ cand.rows ↔ ∃ a ∈ cand.interior, r ∈ S.col2rows a
  mem_boundary : ∀ c, c ∈ cand.boundary ↔ c ∉ cand.interior ∧ ∃ r ∈ cand.rows, c ∈ (S.row r).columns
  nb_eq : cand.blk.nb = cand.boundary.length

lemma stage_spans {interior : List ℕ} (h : S.stage interior = some cand) :
    S.stage cand.interior = some cand ∧ S.Spans cand := by
  have hsort : (interior.insertionSort (· ≤ ·)).insertionSort (· ≤ ·) =
      interior.insertionSort (· ≤ ·) :=
    (pairwise_insertionSort (· ≤ ·) interior).insertionSort_eq
  have hagain : S.stage (interior.insertionSort (· ≤ ·)) = S.stage interior := by
    rw [stage, stage, hsort]
  have hfields := h
  rw [stage] at hfields
  split_ifs at hfields
  rw [Option.bind_eq_bind, Option.bind_eq_some_iff] at hfields
  obtain ⟨gathered, -, hfields⟩ := hfields
  rw [Option.bind_eq_some_iff] at hfields
  obtain ⟨rows, -, hfields⟩ := hfields
  cases hfields
  refine ⟨hagain.trans h, fun r => ?_, fun c => ?_, rfl⟩
  · dsimp only
    rw [mem_sort, scopeOf, mem_biUnion]
    simp only [List.mem_toFinset]
  · dsimp only
    rw [mem_sort, scopeOf, mem_sdiff, mem_biUnion, and_comm]
    simp only [List.mem_toFinset, mem_sort]

lemma gatherRows_congr {l : List ℕ} (hrow : ∀ r ∈ l, S'.row r = S.row r) (localIds : List ℕ)
    (nzc : ℕ) : S'.gatherRows localIds nzc l = S.gatherRows localIds nzc l := by
  induction l generalizing nzc with
  | nil => rfl
  | cons r l ih =>
    rw [gatherRows, gatherRows, hrow r List.mem_cons_self,
      ih (fun k hk => hrow k (List.mem_cons_of_mem r hk))]

lemma stage_congr {interior : List ℕ} (hbin : S'.isBin = S.isBin)
    (hcap : S'.boundaryCap = S.boundaryCap) (hscope : S'.scopeCap = S.scopeCap)
    (hcol : ∀ a ∈ interior, S'.col2rows a = S.col2rows a)
    (hrow : ∀ a ∈ interior, ∀ r ∈ S.col2rows a, S'.row r = S.row r) :
    S'.stage interior = S.stage interior := by
  have hmem : ∀ a, a ∈ interior.insertionSort (· ≤ ·) ↔ a ∈ interior :=
    fun a => mem_insertionSort _
  generalize hsorted : interior.insertionSort (· ≤ ·) = sorted at hmem
  have hrows : sorted.toFinset.biUnion S'.col2rows = sorted.toFinset.biUnion S.col2rows := by
    apply biUnion_congr rfl
    intro a ha
    exact hcol a ((hmem a).mp (List.mem_toFinset.mp ha))
  have hsame : ∀ r ∈ sorted.toFinset.biUnion S.col2rows, S'.row r = S.row r := by
    intro r hr
    obtain ⟨a, ha, hra⟩ := mem_biUnion.mp hr
    exact hrow a ((hmem a).mp (List.mem_toFinset.mp ha)) r hra
  have hscopeOf : S'.scopeOf sorted = S.scopeOf sorted := by
    rw [scopeOf, scopeOf, hrows]
    refine Prod.ext rfl ?_
    dsimp only
    rw [biUnion_congr rfl fun r hr => by rw [hsame r hr]]
  have hgather : ∀ localIds, S'.gatherRows localIds 0 ((S.scopeOf sorted).1.sort (· ≤ ·)) =
      S.gatherRows localIds 0 ((S.scopeOf sorted).1.sort (· ≤ ·)) := by
    intro localIds
    apply gatherRows_congr
    intro r hr
    exact hsame r ((mem_sort _).mp hr)
  rw [stage, stage, hsorted, hscopeOf, hbin, hcap, hscope, hgather]

end Stage

section Install

variable {S : BveReducer} {cand : BveCandidate}

def retireAll (rows : List WorkRow) (ids : List ℕ) : List WorkRow :=
  ids.foldl (fun rows r => rows.modify r retire) rows

@[simp] lemma length_retireAll (rows : List WorkRow) (ids : List ℕ) :
    (retireAll rows ids).length = rows.length := by
  induction ids generalizing rows with
  | nil => rfl
  | cons r ids ih =>
    rw [retireAll, foldl_cons]
    exact (ih _).trans (length_modify _ _ _)

lemma getD_retireAll (rows : List WorkRow) (ids : List ℕ) (r : ℕ) :
    (retireAll rows ids).getD r missing =
      if r ∈ ids then (rows.getD r missing).retire else rows.getD r missing := by
  induction ids generalizing rows with
  | nil => rfl
  | cons k ids ih =>
    rw [retireAll, foldl_cons]
    refine (ih _).trans ?_
    rw [row_modify]
    rcases eq_or_ne r k with rfl | hne
    · rw [if_pos rfl, if_pos List.mem_cons_self]
      split_ifs
      · rfl
      · rfl
    · rw [if_neg hne]
      simp only [List.mem_cons, hne, false_or]

lemma modify_append {rows : List WorkRow} (more : List WorkRow) {r : ℕ} (h : r < rows.length) :
    (rows ++ more).modify r retire = rows.modify r retire ++ more := by
  rw [modify_eq_take_cons_drop h, modify_eq_take_cons_drop
    (by rw [length_append]; omega), getElem_append_left h,
    take_append_of_le_length h.le, drop_append_of_le_length h, append_assoc, cons_append]

lemma retireAll_append {rows : List WorkRow} (more : List WorkRow) {ids : List ℕ}
    (h : ∀ r ∈ ids, r < rows.length) : retireAll (rows ++ more) ids = retireAll rows ids ++ more := by
  induction ids generalizing rows with
  | nil => rfl
  | cons r ids ih =>
    rw [retireAll, retireAll, foldl_cons, foldl_cons]
    rw [modify_append more (h r List.mem_cons_self)]
    apply ih
    intro k hk
    rw [length_modify]
    exact h k (List.mem_cons_of_mem r hk)

lemma retireAll_congr (rows : List WorkRow) {ids ids' : List ℕ} (h : ∀ r, r ∈ ids ↔ r ∈ ids') :
    retireAll rows ids = retireAll rows ids' := by
  apply ext_getElem
  · rw [length_retireAll, length_retireAll]
  · intro r hr hr'
    rw [← getD_eq_getElem _ missing hr, ← getD_eq_getElem _ missing hr',
      getD_retireAll, getD_retireAll]
    exact if_congr (h r) rfl rfl

structure SameSetup (S S' : BveReducer) : Prop where
  nRowsOrig : S'.nRowsOrig = S.nRowsOrig
  boundaryCap : S'.boundaryCap = S.boundaryCap
  scopeCap : S'.scopeCap = S.scopeCap
  margin : S'.clauseGrowthMargin = S.clauseGrowthMargin
  isBin : S'.isBin = S.isBin

lemma SameSetup.refl (S : BveReducer) : S.SameSetup S := ⟨rfl, rfl, rfl, rfl, rfl⟩

lemma SameSetup.trans {S S' S'' : BveReducer} (h : S.SameSetup S') (h' : S'.SameSetup S'') :
    S.SameSetup S'' :=
  ⟨h'.nRowsOrig.trans h.nRowsOrig, h'.boundaryCap.trans h.boundaryCap, h'.scopeCap.trans h.scopeCap,
    h'.margin.trans h.margin, h'.isBin.trans h.isBin⟩

lemma foldl_retireRow (ids : List ℕ) (h : S.Consistent) :
    S.SameSetup (ids.foldl retireRow S) ∧ (ids.foldl retireRow S).Consistent ∧
    (ids.foldl retireRow S).rows = retireAll S.rows ids ∧ (ids.foldl retireRow S).done = S.done ∧
    (ids.foldl retireRow S).reductions = S.reductions ∧
    ∀ c r, r ∈ (ids.foldl retireRow S).col2rows c ↔ r ∈ S.col2rows c ∧ r ∉ ids := by
  induction ids generalizing S with
  | nil => exact ⟨SameSetup.refl S, h, rfl, rfl, rfl, fun c r => by simp⟩
  | cons k ids ih =>
    rw [foldl_cons]
    obtain ⟨hsetup, hcons, hrows, hdone, hred, hcol⟩ := ih (h.retireRow k)
    have hstep : S.SameSetup (S.retireRow k) := ⟨rfl, rfl, rfl, rfl, rfl⟩
    refine ⟨hstep.trans hsetup, hcons, hrows, hdone, hred, fun c r => ?_⟩
    rw [hcol, (h.retireRow k).mem_iff, h.mem_iff, row_retireRow, List.mem_cons, not_or, ← and_assoc]
    apply and_congr_left
    intro _
    split_ifs with heq
    · exact ⟨fun hmem => absurd hmem not_mem_nil, fun hmem => absurd heq hmem.2⟩
    · exact (and_iff_left heq).symm

lemma foldl_addRow {ι : Type} (f : ι → WorkRow) (more : List ι) (h : S.Consistent) :
    S.SameSetup (more.foldl (fun S x => S.addRow (f x)) S) ∧
    (more.foldl (fun S x => S.addRow (f x)) S).Consistent ∧
    (more.foldl (fun S x => S.addRow (f x)) S).rows = S.rows ++ more.map f ∧
    (more.foldl (fun S x => S.addRow (f x)) S).done = S.done ∧
    (more.foldl (fun S x => S.addRow (f x)) S).reductions = S.reductions ∧
    ∀ c, (∀ x ∈ more, c ∉ (f x).columns) →
      (more.foldl (fun S x => S.addRow (f x)) S).col2rows c = S.col2rows c := by
  induction more generalizing S with
  | nil => exact ⟨SameSetup.refl S, h, (append_nil _).symm, rfl, rfl, fun _ _ => rfl⟩
  | cons x more ih =>
    rw [foldl_cons]
    obtain ⟨hsetup, hcons, hrows, hdone, hred, hcol⟩ := ih (h.addRow (f x))
    have hstep : S.SameSetup (S.addRow (f x)) := ⟨rfl, rfl, rfl, rfl, rfl⟩
    refine ⟨hstep.trans hsetup, hcons, ?_, hdone, hred, fun c hc => ?_⟩
    · rw [hrows, List.map_cons]
      exact append_assoc S.rows [f x] (more.map f)
    · rw [hcol c fun y hy => hc y (List.mem_cons_of_mem x hy)]
      exact if_neg (hc x List.mem_cons_self)

lemma clauseRow_columns {boundary : List ℕ} {nb c : ℕ} {clause : BveClause}
    (hnb : nb = boundary.length) (h : c ∈ (clauseRow boundary nb clause).columns) :
    c ∈ boundary := by
  rw [WorkRow.columns, clauseRow, List.map_map, List.mem_map] at h
  obtain ⟨j, hj, rfl⟩ := h
  have hlt : j < boundary.length := hnb ▸ List.mem_range.mp (List.mem_filter.mp hj).1
  show boundary.getD j 0 ∈ boundary
  rw [getD_eq_getElem _ _ hlt]
  exact getElem_mem hlt

lemma Spans.columns_scope (h : S.Spans cand) {r c : ℕ} (hr : r ∈ cand.rows)
    (hc : c ∈ (S.row r).columns) : c ∈ scope cand := by
  rw [scope, mem_append]
  by_cases hin : c ∈ cand.interior
  · exact .inl hin
  · exact .inr ((h.mem_boundary c).mpr ⟨hin, r, hr, hc⟩)

structure Installed (S : BveReducer) (cand : BveCandidate) (clauses : List BveClause)
    (S' : BveReducer) : Prop where
  setup : S.SameSetup S'
  consistent : S'.Consistent
  rows : S'.rows = retireAll S.rows cand.rows ++ clauses.map (clauseRow cand.boundary cand.blk.nb)
  done : S'.done = fun c => if c ∈ cand.interior then true else S.done c
  reductions : S'.reductions =
    S.reductions ++ [⟨cand.interior, cand.boundary, cand.projection.witness⟩]
  frame : ∀ c, c ∉ scope cand → S'.col2rows c = S.col2rows c

lemma install_installed (hS : S.Consistent) (h : S.Spans cand) (clauses : List BveClause) :
    S.Installed cand clauses (S.install cand clauses) := by
  have hrecorded : ({ S with
      reductions := S.reductions ++ [⟨cand.interior, cand.boundary, cand.projection.witness⟩] } :
      BveReducer).Consistent := ⟨⟨hS.mem_iff⟩, hS.orig_le⟩
  obtain ⟨hsetup₁, hcons₁, hrows₁, hdone₁, hred₁, hcol₁⟩ := foldl_retireRow cand.rows hrecorded
  obtain ⟨hsetup₂, hcons₂, hrows₂, hdone₂, hred₂, hcol₂⟩ :=
    foldl_addRow (clauseRow cand.boundary cand.blk.nb) clauses hcons₁
  have hclause : ∀ c, c ∉ cand.boundary → ∀ x ∈ clauses,
      c ∉ (clauseRow cand.boundary cand.blk.nb x).columns := by
    intro c hc x _ hmem
    exact hc (clauseRow_columns h.nb_eq hmem)
  have hretired : ∀ c, c ∉ scope cand → ∀ r ∈ S.col2rows c, r ∉ cand.rows := by
    intro c hc r hr hmem
    exact hc (h.columns_scope hmem ((hS.mem_iff c r).mp hr))
  have hframe : ∀ c, c ∉ cand.boundary → (S.install cand clauses).col2rows c =
      if c ∈ cand.interior then ∅
      else (cand.rows.foldl retireRow { S with
        reductions := S.reductions ++
          [⟨cand.interior, cand.boundary, cand.projection.witness⟩] }).col2rows c := by
    intro c hc
    rw [← hcol₂ c (hclause c hc)]
    rfl
  have hsetup := hsetup₁.trans hsetup₂
  refine ⟨⟨hsetup.nRowsOrig, hsetup.boundaryCap, hsetup.scopeCap, hsetup.margin, hsetup.isBin⟩,
    ?_, ?_, ?_, hred₂.trans hred₁, fun c hc => ?_⟩
  · -- the rows of the interior are all retired, and no clause row meets the interior
    apply hcons₂.eliminate
    intro c hc
    have hout : c ∉ cand.boundary := fun hb => ((h.mem_boundary c).mp hb).1 hc
    rw [hcol₂ c (hclause c hout), eq_empty_iff_forall_notMem]
    intro r hr
    obtain ⟨hin, hnot⟩ := (hcol₁ c r).mp hr
    exact hnot ((h.mem_rows r).mpr ⟨c, hc, hin⟩)
  · exact hrows₂.trans (congrArg (· ++ _) hrows₁)
  · show (fun c => if c ∈ cand.interior then true else _) = _
    rw [hdone₂, hdone₁]
  · have hscope := hc
    rw [scope, mem_append, not_or] at hscope
    rw [hframe c hscope.2, if_neg hscope.1]
    ext r
    rw [hcol₁]
    exact and_iff_left_of_imp (hretired c hc r)

end Install

section Batch

variable {S : BveReducer} {cand other : BveCandidate}

def verdict (margin : ℕ) (cand : BveCandidate) : Option (List BveClause) :=
  match (bveGreedyPrimeCover cand.admits cand.blk.nb bveMaxClauses ⟨[], [], [], []⟩).1 with
  | .clauses clauses =>
    if cand.blk.rows.length + margin < clauses.length then none
    else if !bveSanityCheck cand.admits cand.blk.nb clauses then none
    else some clauses
  | _ => none

/-- A commit installs the clauses of the verdict, and leaves the buffers changed. -/
lemma commitProjected_eq (S : BveReducer) (cand : BveCandidate) :
    ∃ scratch, S.commitProjected cand = match verdict S.clauseGrowthMargin cand with
      | some clauses => install { S with coverScratch := scratch } cand clauses
      | none => { S with coverScratch := scratch } := by
  refine ⟨(bveGreedyPrimeCover cand.admits cand.blk.nb bveMaxClauses S.coverScratch).2, ?_⟩
  rw [commitProjected, verdict, bveGreedyPrimeCover_scratch _ _ _ S.coverScratch ⟨[], [], [], []⟩]
  dsimp only
  cases (bveGreedyPrimeCover cand.admits cand.blk.nb bveMaxClauses ⟨[], [], [], []⟩).1 with
  | clauses clauses =>
    dsimp only
    split_ifs
    · rfl
    · rfl
    · rfl
  | overCap | noCube => rfl

def Apart (cand other : BveCandidate) : Prop := ∀ c ∈ scope cand, c ∉ scope other

lemma Apart.symm (h : Apart cand other) : Apart other cand := fun c hc hcand => h c hcand hc

structure Framed (S : BveReducer) (cand : BveCandidate) (S' : BveReducer) : Prop where
  setup : S.SameSetup S'
  consistent : S'.Consistent
  col2rows : ∀ c, c ∉ scope cand → S'.col2rows c = S.col2rows c
  row : ∀ r < S.rows.length, r ∉ cand.rows → S'.row r = S.row r

lemma Installed.framed {clauses : List BveClause} {S' : BveReducer}
    (h : S.Installed cand clauses S') : S.Framed cand S' where
  __ := h
  col2rows := h.frame
  row r hr hout := by
    rw [BveReducer.row, h.rows, getD_append _ _ _ _ (by rwa [length_retireAll]),
      getD_retireAll, if_neg hout]
    rfl

/-- Staging a candidate gives the same block after another one is committed. -/
lemma Framed.stage_eq {S' : BveReducer} (h : S.Framed cand S') (hS : S.Consistent)
    (hcand : S.Spans cand) (hapart : Apart cand other) :
    S'.stage other.interior = S.stage other.interior := by
  have hout : ∀ a ∈ other.interior, a ∉ scope cand :=
    fun a ha => hapart.symm a (mem_append_left _ ha)
  apply stage_congr h.setup.isBin h.setup.boundaryCap h.setup.scopeCap
  · intro a ha
    exact h.col2rows a (hout a ha)
  · intro a ha r hr
    apply h.row r (hS.lt hr)
    intro hmem
    exact hout a ha (hcand.columns_scope hmem ((hS.mem_iff a r).mp hr))

structure Ready (S : BveReducer) (cands : List BveCandidate) : Prop where
  consistent : S.Consistent
  staged : ∀ cand ∈ cands, S.stage cand.interior = some cand
  apart : cands.Pairwise Apart

def accepted (margin : ℕ) (cands : List BveCandidate) : List (BveCandidate × List BveClause) :=
  cands.filterMap fun cand => (verdict margin (projectCandidate cand)).map fun clauses =>
    (projectCandidate cand, clauses)

structure After (S : BveReducer) (acc : List (BveCandidate × List BveClause)) (S' : BveReducer) :
    Prop where
  setup : S.SameSetup S'
  consistent : S'.Consistent
  rows : S'.rows = retireAll S.rows (acc.flatMap fun p => p.1.rows) ++
    acc.flatMap fun p => p.2.map (clauseRow p.1.boundary p.1.blk.nb)
  done : ∀ c, S'.done c = true ↔ S.done c = true ∨ ∃ p ∈ acc, c ∈ p.1.interior
  reductions : S'.reductions = S.reductions ++
    acc.map fun p => ⟨p.1.interior, p.1.boundary, p.1.projection.witness⟩

lemma After.nil (h : S.Consistent) : S.After [] S where
  setup := SameSetup.refl S
  consistent := h
  rows := (append_nil _).symm
  done c := by simp
  reductions := (append_nil _).symm

lemma After.cons {S₁ S₂ : BveReducer} {clauses : List BveClause}
    {acc : List (BveCandidate × List BveClause)} (h : S.Installed cand clauses S₁)
    (hlt : ∀ p ∈ acc, ∀ r ∈ p.1.rows, r < S.rows.length) (hrest : S₁.After acc S₂) :
    S.After ((cand, clauses) :: acc) S₂ where
  setup := h.setup.trans hrest.setup
  consistent := hrest.consistent
  rows := by
    have hids : ∀ r ∈ acc.flatMap fun p => p.1.rows, r < (retireAll S.rows cand.rows).length := by
      intro r hr
      obtain ⟨p, hp, hrp⟩ := mem_flatMap.mp hr
      rw [length_retireAll]
      exact hlt p hp r hrp
    rw [hrest.rows, h.rows, retireAll_append _ hids, flatMap_cons, flatMap_cons, append_assoc]
    congr 1
    rw [retireAll, retireAll, retireAll, foldl_append]
  done c := by
    rw [hrest.done, h.done]
    simp only [exists_mem_cons_iff]
    by_cases hc : c ∈ cand.interior
    · simp [hc]
    · simp [hc]
  reductions := by
    rw [hrest.reductions, h.reductions, append_assoc]
    rfl

variable {cands : List BveCandidate}

/-- The step of a batch: the candidates left are still staged. -/
lemma Ready.step (h : S.Ready (cand :: cands)) :
    ∃ S', S.commitProjected (projectCandidate cand) = S' ∧ S'.Ready cands ∧ S.SameSetup S' ∧
      ∀ acc S₂, (∀ p ∈ acc, ∀ r ∈ p.1.rows, r < S.rows.length) → S'.After acc S₂ →
        S.After ((accepted S.clauseGrowthMargin [cand]) ++ acc) S₂ := by
  obtain ⟨hapart, hpairwise⟩ := List.pairwise_cons.mp h.apart
  obtain ⟨-, hspans⟩ := stage_spans (h.staged cand List.mem_cons_self)
  obtain ⟨scratch, heq⟩ := commitProjected_eq S (projectCandidate cand)
  have hS : ({ S with coverScratch := scratch } : BveReducer).Consistent :=
    ⟨⟨h.consistent.mem_iff⟩, h.consistent.orig_le⟩
  have hspans' : ({ S with coverScratch := scratch } : BveReducer).Spans (projectCandidate cand) :=
    ⟨hspans.mem_rows, hspans.mem_boundary, hspans.nb_eq⟩
  refine ⟨_, rfl, ?_⟩
  rw [heq, accepted, filterMap_cons, filterMap_nil]
  have hready : ∀ S' : BveReducer,
      ({ S with coverScratch := scratch } : BveReducer).Framed (projectCandidate cand) S' →
      S'.Ready cands := by
    intro S' hframed
    refine ⟨hframed.consistent, fun other hother => ?_, hpairwise⟩
    have hscratch : ({ S with coverScratch := scratch } : BveReducer).stage other.interior =
        S.stage other.interior := stage_congr rfl rfl rfl (fun _ _ => rfl) fun _ _ _ _ => rfl
    rw [hframed.stage_eq hS hspans' (hapart other hother), hscratch]
    exact h.staged other (List.mem_cons_of_mem cand hother)
  cases verdict S.clauseGrowthMargin (projectCandidate cand) with
  | none =>
    have hsame : S.SameSetup { S with coverScratch := scratch } := ⟨rfl, rfl, rfl, rfl, rfl⟩
    refine ⟨hready _ ⟨SameSetup.refl _, hS, fun _ _ => rfl, fun _ _ _ => rfl⟩, hsame, ?_⟩
    intro acc S₂ _ hafter
    exact ⟨hsame.trans hafter.setup, hafter.consistent, hafter.rows, hafter.done, hafter.reductions⟩
  | some clauses =>
    have hinstalled := install_installed hS hspans' clauses
    have hsame : S.SameSetup (install { S with coverScratch := scratch } (projectCandidate cand)
        clauses) := ⟨hinstalled.setup.nRowsOrig, hinstalled.setup.boundaryCap,
      hinstalled.setup.scopeCap, hinstalled.setup.margin, hinstalled.setup.isBin⟩
    refine ⟨hready _ hinstalled.framed, hsame, fun acc S₂ hlt hafter => ?_⟩
    have hcons := After.cons hinstalled hlt hafter
    exact ⟨hsame.trans hafter.setup, hcons.consistent, hcons.rows, hcons.done, hcons.reductions⟩

lemma Ready.rows_lt (h : S.Ready cands) {r : ℕ} (hcand : cand ∈ cands) (hr : r ∈ cand.rows) :
    r < S.rows.length := by
  obtain ⟨-, hspans⟩ := stage_spans (h.staged cand hcand)
  obtain ⟨a, -, hra⟩ := (hspans.mem_rows r).mp hr
  exact h.consistent.lt hra

lemma mem_accepted {margin : ℕ} {p : BveCandidate × List BveClause}
    (h : p ∈ accepted margin cands) : ∃ cand ∈ cands, p.1 = projectCandidate cand := by
  obtain ⟨cand, hcand, hsome⟩ := List.mem_filterMap.mp h
  obtain ⟨clauses, -, rfl⟩ := Option.map_eq_some_iff.mp hsome
  exact ⟨cand, hcand, rfl⟩

lemma accepted_cons (margin : ℕ) (cand : BveCandidate) (cands : List BveCandidate) :
    accepted margin (cand :: cands) = accepted margin [cand] ++ accepted margin cands :=
  filterMap_append (l := [cand])

/-- A batch ends with the infeasibility proof of one of its blocks, or with every accepted candidate
installed; and staging each candidate only when its turn comes gives the same. -/
lemma commitBatch_spec (h : S.Ready cands) :
    S.commitOneByOne (cands.map BveCandidate.interior) = S.commitBatch cands ∧
    ((∃ cand ∈ cands, (projectCandidate cand).admitsNothing = true) → S.commitBatch cands = none) ∧
    ((∀ cand ∈ cands, (projectCandidate cand).admitsNothing = false) →
      ∃ S', S.commitBatch cands = some S' ∧ S.After (accepted S.clauseGrowthMargin cands) S') := by
  induction cands generalizing S with
  | nil =>
    refine ⟨rfl, ?_, fun _ => ⟨S, rfl, After.nil h.consistent⟩⟩
    rintro ⟨cand, hcand, -⟩
    cases hcand
  | cons cand cands ih =>
    obtain ⟨S', hcommit, hready, hsame, hafter⟩ := h.step
    obtain ⟨hone, hnone, hsome⟩ := ih hready
    have hstage := h.staged cand List.mem_cons_self
    have hbatch : S.commitBatch (cand :: cands) =
        if (projectCandidate cand).admitsNothing then none else S'.commitBatch cands := by
      rw [commitBatch, List.map_cons, commitLoop, hcommit]
      rfl
    refine ⟨?_, ?_, fun hall => ?_⟩
    · rw [hbatch, List.map_cons, commitOneByOne, hstage]
      dsimp only
      rw [hcommit, hone]
    · rintro ⟨other, hother, hempty⟩
      rw [hbatch]
      rcases List.mem_cons.mp hother with rfl | hother
      · exact if_pos hempty
      · rw [hnone ⟨other, hother, hempty⟩]
        split_ifs
        · rfl
        · rfl
    · obtain ⟨S₂, heq, hrest⟩ := hsome fun other hother => hall other (List.mem_cons_of_mem cand hother)
      refine ⟨S₂, ?_, ?_⟩
      · rw [hbatch, hall cand List.mem_cons_self, if_neg Bool.false_ne_true]
        exact heq
      · rw [accepted_cons]
        rw [hsame.margin] at hrest
        refine hafter _ _ (fun p hp r hr => ?_) hrest
        obtain ⟨other, hother, hp'⟩ := mem_accepted hp
        rw [hp'] at hr
        exact h.rows_lt (List.mem_cons_of_mem cand hother) hr

lemma Ready.perm {cands' : List BveCandidate} (h : S.Ready cands) (hperm : cands'.Perm cands) :
    S.Ready cands' where
  consistent := h.consistent
  staged cand hcand := h.staged cand (hperm.mem_iff.mp hcand)
  apart := (hperm.pairwise_iff fun hxy => hxy.symm).mpr h.apart

structure SameUpToOrder (S T : BveReducer) : Prop where
  liveRows : (S.rows.filter WorkRow.active).Perm (T.rows.filter WorkRow.active)
  done : S.done = T.done
  removedRows : S.finalize.removedRows = T.finalize.removedRows
  addedRows : S.finalize.addedRows.Perm T.finalize.addedRows
  reductions : S.finalize.reductions.Perm T.finalize.reductions

lemma After.sameUpToOrder {acc acc' : List (BveCandidate × List BveClause)} {S₁ S₂ : BveReducer}
    (hS : S.Consistent) (h₁ : S.After acc S₁) (h₂ : S.After acc' S₂) (hperm : acc.Perm acc') :
    SameUpToOrder S₁ S₂ := by
  have hold : retireAll S.rows (acc.flatMap fun p => p.1.rows) =
      retireAll S.rows (acc'.flatMap fun p => p.1.rows) :=
    retireAll_congr S.rows fun r => (hperm.flatMap_right _).mem_iff
  have hnew : (acc.flatMap fun p => p.2.map (clauseRow p.1.boundary p.1.blk.nb)).Perm
      (acc'.flatMap fun p => p.2.map (clauseRow p.1.boundary p.1.blk.nb)) := hperm.flatMap_right _
  have hrows₁ := h₁.rows
  have hrows₂ := h₂.rows
  rw [hold] at hrows₁
  have hlen : S.nRowsOrig ≤ (retireAll S.rows (acc'.flatMap fun p => p.1.rows)).length := by
    rw [length_retireAll]
    exact hS.orig_le
  generalize retireAll S.rows (acc'.flatMap fun p => p.1.rows) = old at hrows₁ hrows₂ hlen
  have hrow : ∀ r < S.nRowsOrig, S₁.row r = S₂.row r := by
    intro r hr
    have hlt := hr.trans_le hlen
    rw [row, row, hrows₁, hrows₂, getD_append _ _ _ _ hlt, getD_append _ _ _ _ hlt]
  refine ⟨?_, ?_, ?_, ?_, ?_⟩
  · rw [hrows₁, hrows₂, filter_append, filter_append]
    exact (hnew.filter _).append_left _
  · funext c
    rw [Bool.eq_iff_iff, h₁.done, h₂.done]
    simp only [hperm.mem_iff]
  · rw [finalize, finalize, h₁.setup.nRowsOrig, h₂.setup.nRowsOrig]
    apply List.filter_congr
    intro r hr
    rw [hrow r (List.mem_range.mp hr)]
  · rw [finalize, finalize, h₁.setup.nRowsOrig, h₂.setup.nRowsOrig, hrows₁, hrows₂,
      drop_append_of_le_length hlen, drop_append_of_le_length hlen, filter_append, filter_append]
    exact ((hnew.filter _).append_left _).map _
  · rw [finalize, finalize, h₁.reductions, h₂.reductions]
    exact (hperm.map _).append_left _

inductive SameOutcome : Option BveReducer → Option BveReducer → Prop where
  | infeasible : SameOutcome none none
  | committed {S T : BveReducer} (h : SameUpToOrder S T) : SameOutcome (some S) (some T)

lemma commitBatch_perm {cands' : List BveCandidate} (h : S.Ready cands)
    (hperm : cands'.Perm cands) : SameOutcome (S.commitBatch cands') (S.commitBatch cands) := by
  obtain ⟨-, hnone, hsome⟩ := commitBatch_spec h
  obtain ⟨-, hnone', hsome'⟩ := commitBatch_spec (h.perm hperm)
  by_cases hempty : ∃ cand ∈ cands, (projectCandidate cand).admitsNothing = true
  · have hempty' : ∃ cand ∈ cands', (projectCandidate cand).admitsNothing = true := by
      obtain ⟨cand, hcand, hadmits⟩ := hempty
      exact ⟨cand, hperm.mem_iff.mpr hcand, hadmits⟩
    rw [hnone hempty, hnone' hempty']
    exact .infeasible
  · push Not at hempty
    have hall : ∀ cand ∈ cands, (projectCandidate cand).admitsNothing = false :=
      fun cand hcand => Bool.eq_false_of_not_eq_true (hempty cand hcand)
    obtain ⟨T, hT, hafter⟩ := hsome hall
    obtain ⟨T', hT', hafter'⟩ := hsome' fun cand hcand => hall cand (hperm.mem_iff.mp hcand)
    rw [hT, hT']
    exact .committed (hafter'.sameUpToOrder h.consistent hafter (hperm.filterMap _))

end Batch

section Runs

variable {S : BveReducer}

/-- The accepted candidates are staged, over columns that are disjoint and not claimed. -/
lemma selectBatch_spec (interiors : List (List ℕ)) (claimed : Finset ℕ) (ops : ℕ) :
    (∀ cand ∈ S.selectBatch interiors claimed ops,
      S.stage cand.interior = some cand ∧ ∀ c ∈ scope cand, c ∉ claimed) ∧
    (S.selectBatch interiors claimed ops).Pairwise Apart := by
  induction interiors generalizing claimed ops with
  | nil => exact ⟨nofun, List.Pairwise.nil⟩
  | cons interior rest ih =>
    rw [selectBatch]
    cases hstage : S.stage interior with
    | none => exact ih claimed ops
    | some cand =>
      dsimp only
      split_ifs with hoverlap hbudget
      · exact ih claimed ops
      · have hfree : ∀ c ∈ scope cand, c ∉ claimed := by
          intro c hc hmem
          exact hoverlap (any_eq_true.mpr ⟨c, hc, decide_eq_true hmem⟩)
        refine ⟨fun other hother => ?_, pairwise_singleton _ _⟩
        obtain rfl := List.mem_singleton.mp hother
        exact ⟨(stage_spans hstage).1, hfree⟩
      · have hfree : ∀ c ∈ scope cand, c ∉ claimed := by
          intro c hc hmem
          exact hoverlap (any_eq_true.mpr ⟨c, hc, decide_eq_true hmem⟩)
        obtain ⟨hstaged, hpairwise⟩ :=
          ih (claimed ∪ (scope cand).toFinset) (ops + projectionOps cand)
        refine ⟨fun other hother => ?_, List.pairwise_cons.mpr ⟨fun other hother c hc hmem => ?_,
          hpairwise⟩⟩
        · rcases List.mem_cons.mp hother with rfl | hother
          · exact ⟨(stage_spans hstage).1, hfree⟩
          · obtain ⟨hrestage, hout⟩ := hstaged other hother
            exact ⟨hrestage, fun c hc hmem => hout c hc (Finset.mem_union_left _ hmem)⟩
        · exact (hstaged other hother).2 c hmem
            (Finset.mem_union_right _ (List.mem_toFinset.mpr hc))

lemma selectBatch_ready (h : S.Consistent) (interiors : List (List ℕ)) :
    S.Ready (S.selectBatch interiors ∅ 0) where
  consistent := h
  staged cand hcand := ((selectBatch_spec interiors ∅ 0).1 cand hcand).1
  apart := (selectBatch_spec interiors ∅ 0).2

lemma foldl_addRow_linked {ι : Type} (f : ι → WorkRow) (more : List ι) (h : S.Linked) :
    (more.foldl (fun S x => S.addRow (f x)) S).Linked ∧
    (more.foldl (fun S x => S.addRow (f x)) S).rows.length = S.rows.length + more.length ∧
    (more.foldl (fun S x => S.addRow (f x)) S).nRowsOrig = S.nRowsOrig := by
  induction more generalizing S with
  | nil => exact ⟨h, rfl, rfl⟩
  | cons x more ih =>
    rw [foldl_cons]
    obtain ⟨hlinked, hlength, horig⟩ := ih (h.addRow (f x))
    refine ⟨hlinked, ?_, horig⟩
    rw [hlength, length_addRow, length_cons]
    omega

lemma start_consistent (rows : List BveRow) (isBin : ℕ → Bool)
    (boundaryCap scopeCap clauseGrowthMargin : ℕ) :
    (start rows isBin boundaryCap scopeCap clauseGrowthMargin).Consistent := by
  rw [start]
  obtain ⟨hlinked, hlength, horig⟩ := foldl_addRow_linked
    (S := ⟨rows.length, boundaryCap, scopeCap, clauseGrowthMargin, [], fun _ => ∅, isBin,
      fun _ => false, [], ⟨[], [], [], []⟩⟩)
    (fun row : BveRow => ⟨row.terms, row.lo.filter scalingBoundFinite,
      row.up.filter scalingBoundFinite, true⟩) rows
    ⟨fun c r => ⟨fun hr => absurd hr (notMem_empty r), fun hc => absurd hc not_mem_nil⟩⟩
  refine ⟨hlinked, ?_⟩
  rw [horig, hlength]
  exact Nat.le_add_left _ _

inductive Reachable : BveReducer → Prop where
  | start (rows : List BveRow) (isBin : ℕ → Bool) (boundaryCap scopeCap clauseGrowthMargin : ℕ) :
      Reachable (start rows isBin boundaryCap scopeCap clauseGrowthMargin)
  | round {S S' : BveReducer} (h : Reachable S) (interiors : List (List ℕ))
      (hcommit : S.commitBatch (S.selectBatch interiors ∅ 0) = some S') : Reachable S'

lemma Reachable.consistent (h : Reachable S) : S.Consistent := by
  induction h with
  | start rows isBin boundaryCap scopeCap margin => exact start_consistent _ _ _ _ _
  | @round S S' _ interiors hcommit ih =>
    obtain ⟨-, hnone, hsome⟩ := commitBatch_spec (selectBatch_ready ih interiors)
    by_cases hempty : ∃ cand ∈ S.selectBatch interiors ∅ 0,
        (projectCandidate cand).admitsNothing = true
    · rw [hnone hempty] at hcommit
      cases hcommit
    · push Not at hempty
      obtain ⟨T, hT, hafter⟩ := hsome fun cand hcand =>
        Bool.eq_false_of_not_eq_true (hempty cand hcand)
      cases hT.symm.trans hcommit
      exact hafter.consistent

/-- After any rounds a column lists just the live rows that contain it. -/
theorem col2rows_mem_iff (h : Reachable S) (c r : ℕ) : r ∈ S.col2rows c ↔ c ∈ (S.row r).columns :=
  h.consistent.mem_iff c r

/-- Committing the candidates of a batch in any order, staged together or one after another, gives
the same rows, clauses, eliminated variables and replay records up to order. -/
theorem batch_commutes (h : Reachable S) (interiors : List (List ℕ)) {cands : List BveCandidate}
    (hperm : cands.Perm (S.selectBatch interiors ∅ 0)) :
    SameOutcome (S.commitBatch cands) (S.commitBatch (S.selectBatch interiors ∅ 0)) ∧
      S.commitOneByOne (cands.map BveCandidate.interior) = S.commitBatch cands := by
  have hready := selectBatch_ready h.consistent interiors
  exact ⟨commitBatch_perm hready hperm, (commitBatch_spec (hready.perm hperm)).1⟩

def twoRows : BveReducer :=
  start [⟨[(0, 1), (1, 1)], some 1, none⟩, ⟨[(2, 1), (3, 1)], some 1, none⟩] (fun _ => true)
    bveMaxBoundary bveMaxScope 0

theorem batch_commutes_twoRows : (twoRows.selectBatch [[0], [2]] ∅ 0).length = 2 ∧
    SameOutcome (twoRows.commitBatch (twoRows.selectBatch [[0], [2]] ∅ 0).reverse)
      (twoRows.commitBatch (twoRows.selectBatch [[0], [2]] ∅ 0)) := by
  refine ⟨by decide +kernel, ?_⟩
  exact (batch_commutes (Reachable.start _ _ _ _ _) [[0], [2]] (List.reverse_perm _)).1

theorem col2rows_mem_iff_twoRows : ∃ S, twoRows.commitBatch (twoRows.selectBatch [[0], [2]] ∅ 0) =
    some S ∧ ∀ r, r ∈ S.col2rows 1 ↔ 1 ∈ (S.row r).columns := by
  have hsome : (twoRows.commitBatch (twoRows.selectBatch [[0], [2]] ∅ 0)).isSome = true := by
    decide +kernel
  obtain ⟨S, hS⟩ := Option.isSome_iff_exists.mp hsome
  exact ⟨S, hS, col2rows_mem_iff ((Reachable.start _ _ _ _ _).round [[0], [2]] hS) 1⟩

end Runs

end BveReducer

end CuOpt.Presolve
