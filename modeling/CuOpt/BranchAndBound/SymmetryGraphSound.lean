import CuOpt.BranchAndBound.SymmetryGraph

/-! The symmetry graph is faithful: a permutation of its vertices that keeps colors and edges permutes the
variables such that feasible points stay feasible and keep their objective value. -/

namespace CuOpt.BranchAndBound.SymmetryGraph

open List hiding mem_range
open Finset (mem_range)

open Simplex SparseList QuadProgram KeyColors CountingScatter BufferWrites
open Cuts (VariableType)

section Keys

variable {v w : VarKey}

def VarKey.order (v : VarKey) : ℚ ×ₗ WithBot ℚ ×ₗ WithTop ℚ ×ₗ ℕ :=
  toLex (v.objective, toLex (v.lower, toLex (v.upper, v.type)))

instance : LinearOrder VarKey := LinearOrder.lift' VarKey.order <| by
  rintro ⟨o, l, u, t⟩ ⟨o', l', u', t'⟩ heq
  obtain ⟨rfl, heq⟩ := Prod.mk.inj heq
  obtain ⟨rfl, heq⟩ := Prod.mk.inj heq
  cases heq
  rfl

lemma VarKey.lt_iff : v < w ↔ v.objective < w.objective ∨ v.objective = w.objective ∧
    (v.lower < w.lower ∨ v.lower = w.lower ∧
      (v.upper < w.upper ∨ v.upper = w.upper ∧ v.type < w.type)) := by
  show v.order < w.order ↔ _
  rw [VarKey.order, VarKey.order, Prod.Lex.toLex_lt_toLex, Prod.Lex.toLex_lt_toLex, Prod.Lex.toLex_lt_toLex]

lemma VarKey.less_iff : v.less w = true ↔ v < w := by
  rw [VarKey.lt_iff, VarKey.less]
  by_cases hobjective : v.objective = w.objective
  · rw [if_neg (not_not.mpr hobjective)]
    by_cases hlower : v.lower = w.lower
    · rw [if_neg (not_not.mpr hlower)]
      by_cases hupper : v.upper = w.upper
      · simp [hobjective, hlower, hupper]
      · simp [hobjective, hlower, hupper]
    · simp [hobjective, hlower]
  · simp [hobjective]

lemma startsVarColor_iff (hle : v ≤ w) : startsVarColor 0 v w = true ↔ v < w := by
  have hobjective : v.objective ≤ w.objective := by
    by_contra hlt
    exact absurd (VarKey.lt_iff.mpr (.inl (not_le.mp hlt))) (not_lt.mpr hle)
  rw [lt_iff_le_and_ne, and_iff_right hle, startsVarColor]
  simp only [sub_pos, Bool.or_eq_true, decide_eq_true_eq]
  constructor
  · rintro (((hlt | hne) | hne) | hne) rfl
    · exact lt_irrefl _ hlt
    · exact hne rfl
    · exact hne rfl
    · exact hne rfl
  · intro hne
    by_contra hsame
    simp only [not_or, not_not, not_lt] at hsame
    obtain ⟨⟨⟨hle', hlower⟩, hupper⟩, htype⟩ := hsame
    apply hne
    cases v
    cases w
    simp only [VarKey.mk.injEq]
    exact ⟨le_antisymm hobjective hle', hlower.symm, hupper.symm, htype.symm⟩

lemma startsColor_iff (v w : ℚ) (_ : v ≤ w) : startsColor 0 v w = true ↔ v < w := by
  rw [startsColor, decide_eq_true_eq, sub_pos]

variable (problem : LpProblem) (varTypes : ℕ → VariableType)

lemma varColors_ranked (h : problem.numCols ≠ 0) :
    Ranked (varKey problem varTypes) 0 (sortedIndices (fun a b =>
      (varKey problem varTypes a).less (varKey problem varTypes b)) problem.numCols)
      (varColors 0 problem varTypes) :=
  sweep_ranked (fun _ _ => startsVarColor_iff) (sortedIndices_ne_nil h) nodup_sortedIndices
    (sortedIndices_pairwise fun _ _ => VarKey.less_iff)

lemma rhsColors_ranked (h : problem.numRows ≠ 0) :
    Ranked problem.rhs ((varColors 0 problem varTypes).color + 1)
      (sortedIndices (fun a b => problem.rhs a < problem.rhs b) problem.numRows)
      (rhsColors 0 problem varTypes) :=
  sweep_ranked startsColor_iff (sortedIndices_ne_nil h) nodup_sortedIndices
    (sortedIndices_pairwise fun _ _ => decide_eq_true_iff)

lemma nonzeroColors_ranked (h : (nonzeros problem).length ≠ 0) :
    Ranked (nonzeroValue problem) 0 (sortedIndices (fun a b =>
      nonzeroValue problem a < nonzeroValue problem b) (nonzeros problem).length)
      (nonzeroColors 0 problem) :=
  sweep_ranked startsColor_iff (sortedIndices_ne_nil h) nodup_sortedIndices
    (sortedIndices_pairwise fun _ _ => decide_eq_true_iff)

lemma varColor_le {j : ℕ} (hj : j < problem.numCols) :
    (varColors 0 problem varTypes).colors j ≤ (varColors 0 problem varTypes).color :=
  ((varColors_ranked problem varTypes (Nat.ne_zero_of_lt hj)).le_color j
    (mem_sortedIndices.mpr hj)).2

lemma varKey_of_color {j k : ℕ} (hj : j < problem.numCols) (hk : k < problem.numCols)
    (h : (varColors 0 problem varTypes).colors j = (varColors 0 problem varTypes).colors k) :
    varKey problem varTypes j = varKey problem varTypes k :=
  ((varColors_ranked problem varTypes (Nat.ne_zero_of_lt hj)).colors_eq_iff (mem_sortedIndices.mpr hj)
    (mem_sortedIndices.mpr hk)).mp h

lemma rhsColor_bounds {i : ℕ} (hi : i < problem.numRows) :
    (varColors 0 problem varTypes).color < (rhsColors 0 problem varTypes).colors i ∧
      (rhsColors 0 problem varTypes).colors i ≤ (rhsColors 0 problem varTypes).color :=
  (rhsColors_ranked problem varTypes (Nat.ne_zero_of_lt hi)).le_color i (mem_sortedIndices.mpr hi)

lemma varColor_le_rhsColor :
    (varColors 0 problem varTypes).color < (rhsColors 0 problem varTypes).color := by
  rcases Nat.eq_zero_or_pos problem.numRows with hzero | hpos
  · have hnil : sortedIndices (fun a b => problem.rhs a < problem.rhs b) problem.numRows = [] := by
      rw [hzero]
      exact mergeSort_nil
    rw [rhsColors, hnil]
    exact Nat.lt_succ_self _
  · have hbounds := rhsColor_bounds problem varTypes hpos
    exact hbounds.1.trans_le hbounds.2

lemma rhs_of_color {i k : ℕ} (hi : i < problem.numRows) (hk : k < problem.numRows)
    (h : (rhsColors 0 problem varTypes).colors i = (rhsColors 0 problem varTypes).colors k) :
    problem.rhs i = problem.rhs k :=
  ((rhsColors_ranked problem varTypes (Nat.ne_zero_of_lt hi)).colors_eq_iff (mem_sortedIndices.mpr hi)
    (mem_sortedIndices.mpr hk)).mp h

lemma nonzeroValue_of_color {p q : ℕ} (hp : p < (nonzeros problem).length)
    (hq : q < (nonzeros problem).length)
    (h : (nonzeroColors 0 problem).colors p = (nonzeroColors 0 problem).colors q) :
    nonzeroValue problem p = nonzeroValue problem q :=
  ((nonzeroColors_ranked problem (Nat.ne_zero_of_lt hp)).colors_eq_iff (mem_sortedIndices.mpr hp)
    (mem_sortedIndices.mpr hq)).mp h

lemma nonzeroColor_lt {p : ℕ} (hp : p < (nonzeros problem).length) :
    (nonzeroColors 0 problem).colors p < (nonzeroColors 0 problem).color + 1 :=
  Nat.lt_succ_of_le ((nonzeroColors_ranked problem (Nat.ne_zero_of_lt hp)).le_color p
    (mem_sortedIndices.mpr hp)).2

end Keys

section Grouping

variable {colorOf : ℕ → ℕ} {positions : List ℕ} {counts buffer : List ℕ}

def rowColors (colorOf : ℕ → ℕ) (positions : List ℕ) : List ℕ :=
  positions.foldl (fun colors p => if colorOf p ∈ colors then colors else colors ++ [colorOf p]) []

lemma rowColors_snoc (colorOf : ℕ → ℕ) (positions : List ℕ) (p : ℕ) :
    rowColors colorOf (positions ++ [p]) =
      if colorOf p ∈ rowColors colorOf positions then rowColors colorOf positions
      else rowColors colorOf positions ++ [colorOf p] := by
  rw [rowColors, foldl_append]
  rfl

variable {c : ℕ}

lemma mem_rowColors : c ∈ rowColors colorOf positions ↔ ∃ p ∈ positions, colorOf p = c := by
  induction positions using reverseRecOn with
  | nil => exact iff_of_false not_mem_nil fun ⟨p, hp, _⟩ => not_mem_nil hp
  | append_singleton positions p ih =>
    have hsplit : (∃ q ∈ positions ++ [p], colorOf q = c) ↔
        (∃ q ∈ positions, colorOf q = c) ∨ colorOf p = c := by
      simp only [mem_append, mem_singleton, or_and_right, exists_or, exists_eq_left]
    rw [rowColors_snoc, hsplit, ← ih]
    by_cases hp : colorOf p ∈ rowColors colorOf positions
    · rw [if_pos hp, or_iff_left_of_imp fun heq => heq ▸ hp]
    · rw [if_neg hp, mem_append, mem_singleton, eq_comm (a := c)]

lemma nodup_rowColors (colorOf : ℕ → ℕ) (positions : List ℕ) :
    (rowColors colorOf positions).Nodup := by
  induction positions using reverseRecOn with
  | nil => exact nodup_nil
  | append_singleton positions p ih =>
    rw [rowColors_snoc]
    by_cases hp : colorOf p ∈ rowColors colorOf positions
    · rwa [if_pos hp]
    · rw [if_neg hp]
      exact ih.append (nodup_singleton _) (disjoint_singleton.mpr hp)

structure Clear (size : ℕ) (counts : List ℕ) : Prop where
  length_eq : counts.length = size
  zero : ∀ c, counts.getD c 0 = 0

lemma clear_replicate (size : ℕ) : Clear size (replicate size 0) :=
  ⟨length_replicate, fun _ => getD_eq_getElem?_getD.trans
    (getElem?_getD_replicate_default_eq _ _ _)⟩

/-- Pass 1 counts the colors, and the counter that says one is that of a new color. -/
lemma foldl_countColor {size : ℕ} (hclear : Clear size counts) (h : ∀ p ∈ positions, colorOf p < size) :
    positions.foldl (countColor colorOf) (counts, []) =
      (tally colorOf counts positions, rowColors colorOf positions) := by
  induction positions using reverseRecOn with
  | nil => rfl
  | append_singleton positions p ih =>
    have hold : ∀ q ∈ positions, colorOf q < counts.length := fun q hq =>
      hclear.length_eq ▸ h q (mem_append_left _ hq)
    have hp : colorOf p < (tally colorOf counts positions).length := by
      rw [length_tally, hclear.length_eq]
      exact h p (mem_append_right _ mem_cons_self)
    have htally : tally colorOf counts (positions ++ [p]) =
        increment (tally colorOf counts positions) (colorOf p) := by
      rw [tally, foldl_append]
      rfl
    rw [foldl_append, ih fun q hq => h q (mem_append_left _ hq), rowColors_snoc, htally]
    have hcount : (increment (tally colorOf counts positions) (colorOf p)).getD (colorOf p) 0 = 1 ↔
        colorOf p ∉ rowColors colorOf positions := by
      rw [getD_increment hp, if_pos rfl, getD_tally hold, hclear.zero, zero_add, Nat.add_eq_right,
        length_eq_zero_iff, eq_nil_iff_forall_not_mem, mem_rowColors]
      constructor
      · rintro hnil ⟨q, hq, hcolor⟩
        exact hnil q (mem_bucket.mpr ⟨q, hq, hcolor, rfl⟩)
      · intro hnew q hq
        obtain ⟨a, ha, hcolor, rfl⟩ := mem_bucket.mp hq
        exact hnew ⟨a, ha, hcolor⟩
    refine Prod.ext rfl ?_
    by_cases hnew : colorOf p ∈ rowColors colorOf positions
    · rw [if_pos hnew]
      exact if_neg fun hone => hcount.mp hone hnew
    · rw [if_neg hnew]
      exact if_pos (hcount.mpr hnew)

lemma length_resize (l : List ℕ) (n : ℕ) : (resize l n).length = n := by
  rw [resize, length_append, length_take, length_replicate]
  omega

lemma sum_length_buckets (colorOf : ℕ → ℕ) (positions : List ℕ) :
    ((rowColors colorOf positions).map fun c => (bucket colorOf id positions c).length).sum =
      positions.length := by
  have hperm : (rowColors colorOf positions).Perm (positions.map colorOf).dedup := by
    apply (perm_ext_iff_of_nodup (nodup_rowColors colorOf positions) (nodup_dedup _)).mpr
    intro c
    rw [mem_rowColors, mem_dedup, mem_map]
  have hcount : ∀ c, (bucket colorOf id positions c).length = (positions.map colorOf).count c := by
    intro c
    rw [bucket, length_map, count, countP_map, countP_eq_length_filter]
    congr 2
  rw [(hperm.map _).sum_eq]
  simp only [hcount]
  rw [sum_map_count_dedup_eq_length, length_map]

lemma groupRow_spec {size : ℕ} (hclear : Clear size counts) (h : ∀ p ∈ positions, colorOf p < size)
    (buffer : List ℕ) : Clear size (groupRow colorOf positions counts buffer).1 ∧
      (groupRow colorOf positions counts buffer).2 =
        (rowColors colorOf positions).flatMap (bucket colorOf id positions) := by
  unfold groupRow
  rw [foldl_countColor hclear h]
  dsimp only
  have hlt : ∀ p ∈ positions, colorOf p < counts.length := fun p hp => hclear.length_eq ▸ h p hp
  have hnodup := nodup_rowColors colorOf positions
  have hbound : ∀ c ∈ rowColors colorOf positions, c < (tally colorOf counts positions).length := by
    intro c hc
    obtain ⟨p, hp, rfl⟩ := mem_rowColors.mp hc
    rw [length_tally]
    exact hlt p hp
  have hcount : ∀ c, (tally colorOf counts positions).getD c 0 =
      (bucket colorOf id positions c).length := by
    intro c
    rw [getD_tally hlt, hclear.zero, zero_add]
  generalize hstarts : (assignStarts (rowColors colorOf positions) (tally colorOf counts positions)).1 =
    starts
  have hlength : starts.length = size := by
    rw [← hstarts, length_assignStarts, length_tally, hclear.length_eq]
  have hstart : ∀ c ∈ rowColors colorOf positions, starts.getD c 0 =
      startIn (fun c => (bucket colorOf id positions c).length) (rowColors colorOf positions) c := by
    intro c hc
    rw [← hstarts, getD_assignStarts hnodup hbound hc]
    simp only [hcount]
  have hfree : ∀ c, c ∉ rowColors colorOf positions → starts.getD c 0 = 0 := by
    intro c hc
    rw [← hstarts, getD_assignStarts_of_notMem hnodup hbound hc, hcount, length_eq_zero_iff,
      eq_nil_iff_forall_not_mem]
    intro p hp
    obtain ⟨a, ha, hcolor, -⟩ := mem_bucket.mp hp
    exact hc (mem_rowColors.mpr ⟨a, ha, hcolor⟩)
  have hheads : ∀ p ∈ positions, colorOf p < starts.length := fun p hp => hlength ▸ h p hp
  constructor
  · rw [scatter_fst]
    have hwrites : (rowColors colorOf positions).foldl (fun counts c => counts.set c 0)
        (tally colorOf starts positions) =
          writeAll id (fun _ _ => 0) (tally colorOf starts positions) (rowColors colorOf positions) := rfl
    rw [hwrites]
    constructor
    · rw [length_writeAll, length_tally, hlength]
    · intro c
      by_cases hc : c ∈ rowColors colorOf positions
      · have hplace : id c < (tally colorOf starts positions).length := by
          rw [length_tally, hlength, ← hclear.length_eq, ← length_tally colorOf counts positions]
          exact hbound c hc
        exact getD_writeAll id (fun _ => True) (fun _ _ => trivial) (fun _ _ _ _ _ => rfl)
          (fun _ _ _ _ heq => heq) hc hplace
      · have hplace : ∀ x ∈ rowColors colorOf positions, id x ≠ c := fun x hx => ne_of_mem_of_not_mem hx hc
        rw [getD_writeAll_of_ne hplace, getD_tally hheads, hfree c hc, zero_add,
          length_eq_zero_iff, eq_nil_iff_forall_not_mem]
        intro p hp
        obtain ⟨a, ha, hcolor, -⟩ := mem_bucket.mp hp
        exact hc (mem_rowColors.mpr ⟨a, ha, hcolor⟩)
  · have hsum := sum_length_buckets colorOf positions
    have hsize : (resize buffer positions.length).length = positions.length := length_resize _ _
    have hlayout : Layout (startIn (fun c => (bucket colorOf id positions c).length)
        (rowColors colorOf positions)) colorOf id positions (resize buffer positions.length).length := by
      rw [hsize]
      constructor
      · intro p hp
        rw [← hsum]
        exact startIn_add_le (mem_rowColors.mpr ⟨p, hp, rfl⟩)
      · intro p hp q hq hne
        exact startIn_disjoint (mem_rowColors.mpr ⟨p, hp, rfl⟩) (mem_rowColors.mpr ⟨q, hq, rfl⟩) hne
    have hslice := slice_eq_flatMap 0
      (l := (scatter (fun _ => 0) colorOf id starts (resize buffer positions.length) positions).2)
      (f := bucket colorOf id positions) (o := 0) hnodup
      (by rw [zero_add, hsum, length_scatter_snd, hsize])
      (by
        intro c hc t ht
        obtain ⟨p, hp, rfl⟩ := mem_rowColors.mp hc
        rw [zero_add]
        exact getD_scatter hheads (fun q hq => (zero_add _).trans
          (hstart _ (mem_rowColors.mpr ⟨q, hq, rfl⟩))) hlayout hp ht)
    rw [zero_add, hsum, slice, Nat.sub_zero, drop_zero] at hslice
    rw [← hslice, take_of_length_le]
    rw [length_scatter_snd, hsize]

def classEdges (columnOf : ℕ → ℕ) (vertex rowVertex : ℕ) : List ℕ → List (ℕ × ℕ)
  | [] => []
  | p :: items => (columnOf p, vertex) :: (vertex, rowVertex) :: items.map fun q => (columnOf q, vertex)

def addClass (columnOf : ℕ → ℕ) (color rowVertex : ℕ) (items : List ℕ) (g : GraphState) : GraphState :=
  { g with
    vertexColors := g.vertexColors ++ [color]
    edges := g.edges ++ classEdges columnOf g.currentVertex rowVertex items
    currentVertex := g.currentVertex + 1 }

variable {columnOf : ℕ → ℕ} {firstColor rowVertex : ℕ}

lemma foldl_sameColor {items : List ℕ} (hitems : ∀ p ∈ items, colorOf p = c) (g : GraphState) :
    items.foldl (addNonzero colorOf columnOf firstColor rowVertex) (some c, g) =
      (some c, { g with edges := g.edges ++ items.map fun p => (columnOf p, g.currentVertex - 1) }) := by
  induction items generalizing g with
  | nil =>
    rw [map_nil, append_nil]
    rfl
  | cons p items ih =>
    have hp := hitems p mem_cons_self
    rw [foldl_cons, addNonzero, if_pos (by rw [hp]), ih fun q hq => hitems q (mem_cons_of_mem p hq),
      map_cons, append_assoc]
    rfl

lemma foldl_class {items : List ℕ} (hne : items ≠ []) (hitems : ∀ p ∈ items, colorOf p = c)
    {last : Option ℕ} (hlast : last ≠ some c) (g : GraphState) :
    items.foldl (addNonzero colorOf columnOf firstColor rowVertex) (last, g) =
      (some c, addClass columnOf (firstColor + c) rowVertex items g) := by
  cases items with
  | nil => exact absurd rfl hne
  | cons p items =>
    have hp := hitems p mem_cons_self
    rw [foldl_cons, addNonzero, hp, if_neg hlast,
      foldl_sameColor fun q hq => hitems q (mem_cons_of_mem p hq)]
    dsimp only
    rw [append_assoc, Nat.add_sub_cancel]
    rfl

lemma foldl_classes {order : List ℕ} {items : ℕ → List ℕ} (hnodup : order.Nodup)
    (hne : ∀ c ∈ order, items c ≠ []) (hitems : ∀ c, ∀ p ∈ items c, colorOf p = c)
    {last : Option ℕ} (hlast : ∀ c ∈ order, last ≠ some c) (g : GraphState) :
    ((order.flatMap items).foldl (addNonzero colorOf columnOf firstColor rowVertex) (last, g)).2 =
      order.foldl (fun g c => addClass columnOf (firstColor + c) rowVertex (items c) g) g := by
  induction order generalizing last g with
  | nil => rfl
  | cons c order ih =>
    obtain ⟨hc, hrest⟩ := nodup_cons.mp hnodup
    rw [flatMap_cons, foldl_append, foldl_class (hne c mem_cons_self) (hitems c)
      (hlast c mem_cons_self), foldl_cons]
    apply ih hrest fun e he => hne e (mem_cons_of_mem c he)
    intro e he heq
    exact hc (Option.some.inj heq ▸ he)

end Grouping

section Building

variable {initial : List ℕ} {firstColor numCols : ℕ} {columnOf : ℕ → ℕ} {items : ℕ × ℕ → List ℕ}
  {classes : List (ℕ × ℕ)} {g : GraphState}

/-- The vertices of these classes have been added, a class being a row and a color in it. -/
structure Built (initial : List ℕ) (firstColor numCols : ℕ) (columnOf : ℕ → ℕ)
    (items : ℕ × ℕ → List ℕ) (classes : List (ℕ × ℕ)) (g : GraphState) : Prop where
  current : g.currentVertex = initial.length + classes.length
  colors : g.vertexColors = initial ++ classes.map fun x => firstColor + x.2
  edges : ∀ e, e ∈ g.edges ↔ ∃ x ∈ classes,
    e ∈ classEdges columnOf (initial.length + classes.idxOf x) (numCols + x.1) (items x)

lemma Built.add (h : Built initial firstColor numCols columnOf items classes g) {x : ℕ × ℕ}
    (hx : x ∉ classes) : Built initial firstColor numCols columnOf items (classes ++ [x])
      (addClass columnOf (firstColor + x.2) (numCols + x.1) (items x) g) where
  current := by
    rw [length_append, ← add_assoc, ← h.current]
    rfl
  colors := by
    rw [map_append, ← append_assoc, ← h.colors]
    rfl
  edges := by
    intro e
    have hnew : (classes ++ [x]).idxOf x = classes.length := by
      rw [idxOf_append_of_notMem hx, idxOf_cons_self, add_zero]
    show e ∈ g.edges ++ _ ↔ _
    rw [mem_append, h.edges, h.current]
    constructor
    · rintro (⟨y, hy, he⟩ | he)
      · have hold : (classes ++ [x]).idxOf y = classes.idxOf y := idxOf_append_of_mem hy
        rw [← hold] at he
        exact ⟨y, mem_append_left _ hy, he⟩
      · rw [← hnew] at he
        exact ⟨x, mem_append_right _ (mem_singleton_self x), he⟩
    · rintro ⟨y, hy, he⟩
      rcases mem_append.mp hy with hy | hy
      · rw [idxOf_append_of_mem hy] at he
        exact .inl ⟨y, hy, he⟩
      · rw [mem_singleton.mp hy, hnew] at he
        exact .inr he

lemma Built.addAll (h : Built initial firstColor numCols columnOf items classes g) (i : ℕ)
    {order : List ℕ} (hnodup : order.Nodup) (hfresh : ∀ c ∈ order, (i, c) ∉ classes) :
    Built initial firstColor numCols columnOf items (classes ++ order.map (Prod.mk i))
      (order.foldl (fun g c => addClass columnOf (firstColor + c) (numCols + i) (items (i, c)) g) g) := by
  induction order generalizing classes g with
  | nil => rwa [map_nil, append_nil]
  | cons c order ih =>
    obtain ⟨hc, hrest⟩ := nodup_cons.mp hnodup
    rw [foldl_cons, map_cons, append_cons]
    apply ih (h.add (hfresh c mem_cons_self)) hrest
    intro e he hmem
    rcases mem_append.mp hmem with hmem | hmem
    · exact hfresh e (mem_cons_of_mem c he) hmem
    · have heq := congrArg Prod.snd (mem_singleton.mp hmem)
      exact hc ((show e = c from heq) ▸ he)

lemma foldl_addClass_edgeColorMap {color rowVertex : ℕ → ℕ} {items : ℕ → List ℕ} (order : List ℕ)
    (g : GraphState) :
    (order.foldl (fun g c => addClass columnOf (color c) (rowVertex c) (items c) g) g).edgeColorMap =
      g.edgeColorMap := by
  induction order generalizing g with
  | nil => rfl
  | cons c order ih => exact ih _

end Building

section Rows

variable (problem : LpProblem) (varTypes : ℕ → VariableType)

def positionsOf (i : ℕ) : List ℕ := range' (rowStart problem i) (rowLength problem i)

def classColors (i : ℕ) : List ℕ := rowColors (nonzeroColors 0 problem).colors (positionsOf problem i)

def classItems (x : ℕ × ℕ) : List ℕ :=
  bucket (nonzeroColors 0 problem).colors id (positionsOf problem x.1) x.2

def classesUpTo (k : ℕ) : List (ℕ × ℕ) :=
  (range k).flatMap fun i => (classColors problem i).map (Prod.mk i)

variable {k : ℕ}

lemma mem_classesUpTo {x : ℕ × ℕ} :
    x ∈ classesUpTo problem k ↔ x.1 < k ∧ x.2 ∈ classColors problem x.1 := by
  rw [classesUpTo, mem_flatMap]
  constructor
  · rintro ⟨i, hi, hx⟩
    obtain ⟨c, hc, rfl⟩ := mem_map.mp hx
    exact ⟨List.mem_range.mp hi, hc⟩
  · rintro ⟨hi, hc⟩
    exact ⟨x.1, List.mem_range.mpr hi, mem_map.mpr ⟨x.2, hc, rfl⟩⟩

lemma nodup_classesUpTo (k : ℕ) : (classesUpTo problem k).Nodup := by
  rw [classesUpTo, nodup_flatMap]
  constructor
  · exact fun i _ => (nodup_rowColors _ _).map fun _ _ h => (Prod.mk.inj h).2
  · refine nodup_range.imp fun hne => ?_
    rintro x hx hx'
    obtain ⟨c, -, rfl⟩ := mem_map.mp hx
    obtain ⟨c', -, heq⟩ := mem_map.mp hx'
    exact hne (Prod.mk.inj heq).1.symm

lemma length_nonzeros : (nonzeros problem).length = rowStart problem problem.numRows := by
  rw [nonzeros, length_flatMap]
  rfl

lemma rowStart_succ (i : ℕ) : rowStart problem (i + 1) = rowStart problem i + rowLength problem i := by
  rw [rowStart, rowStart, range_succ, map_append, sum_append]
  rfl

lemma rowStart_mono {i : ℕ} (h : i ≤ k) : rowStart problem i ≤ rowStart problem k := by
  induction k, h using Nat.le_induction with
  | base => exact le_rfl
  | succ k _ ih =>
    rw [rowStart_succ]
    exact ih.trans (Nat.le_add_right _ _)

lemma lt_of_mem_positions {i p : ℕ} (hi : i < problem.numRows) (hp : p ∈ positionsOf problem i) :
    p < (nonzeros problem).length := by
  have hlt := (mem_range'_1.mp hp).2
  rw [← rowStart_succ] at hlt
  rw [length_nonzeros]
  exact hlt.trans_le (rowStart_mono problem hi)

def initialColors : List ℕ := (startState 0 problem varTypes).vertexColors

lemma length_initialColors :
    (initialColors problem varTypes).length = problem.numCols + problem.numRows := by
  rw [initialColors, startState, length_append, length_map, length_map, length_range, length_range]

/-- The rows are worked off one by one, with clear counters in between. -/
lemma foldl_addRow (hk : k ≤ problem.numRows) :
    Clear ((nonzeroColors 0 problem).color + 1) (((range k).foldl
      (addRow problem (nonzeroColors 0 problem).colors (nonzeroColumn problem)
        ((rhsColors 0 problem varTypes).color + 1)) (startState 0 problem varTypes)).edgeColorMap) ∧
    Built (initialColors problem varTypes) ((rhsColors 0 problem varTypes).color + 1) problem.numCols
      (nonzeroColumn problem) (classItems problem) (classesUpTo problem k) ((range k).foldl
        (addRow problem (nonzeroColors 0 problem).colors (nonzeroColumn problem)
          ((rhsColors 0 problem varTypes).color + 1)) (startState 0 problem varTypes)) := by
  induction k with
  | zero =>
    refine ⟨clear_replicate _, ⟨?_, (append_nil _).symm, fun e => ?_⟩⟩
    · exact (length_initialColors problem varTypes).symm
    · exact iff_of_false not_mem_nil fun ⟨x, hx, _⟩ => not_mem_nil hx
  | succ k ih =>
    obtain ⟨hclear, hbuilt⟩ := ih (Nat.le_of_succ_le hk)
    rw [range_succ, foldl_concat]
    generalize (range k).foldl (addRow problem (nonzeroColors 0 problem).colors
      (nonzeroColumn problem) ((rhsColors 0 problem varTypes).color + 1))
      (startState 0 problem varTypes) = s at hclear hbuilt ⊢
    have hcolors : ∀ p ∈ positionsOf problem k, (nonzeroColors 0 problem).colors p <
        (nonzeroColors 0 problem).color + 1 := fun p hp =>
      nonzeroColor_lt problem (lt_of_mem_positions problem hk hp)
    obtain ⟨hclear', hgrouped⟩ := groupRow_spec hclear hcolors s.sortedNonzerosInRow
    have hsucc : classesUpTo problem (k + 1) =
        classesUpTo problem k ++ (classColors problem k).map (Prod.mk k) := by
      rw [classesUpTo, range_succ, flatMap_append]
      simp only [flatMap_cons, flatMap_nil, append_nil, classesUpTo]
    unfold addRow
    dsimp only
    rw [← positionsOf, hgrouped, foldl_classes (nodup_rowColors _ _) ?_ ?_ ?_]
    · constructor
      · rw [foldl_addClass_edgeColorMap]
        exact hclear'
      · rw [hsucc]
        have hstart : Built (initialColors problem varTypes) ((rhsColors 0 problem varTypes).color + 1)
            problem.numCols (nonzeroColumn problem) (classItems problem) (classesUpTo problem k)
            { s with
              edgeColorMap := (groupRow (nonzeroColors 0 problem).colors (positionsOf problem k)
                s.edgeColorMap s.sortedNonzerosInRow).1
              sortedNonzerosInRow := (classColors problem k).flatMap
                (bucket (nonzeroColors 0 problem).colors id (positionsOf problem k)) } :=
          ⟨hbuilt.current, hbuilt.colors, hbuilt.edges⟩
        exact hstart.addAll k (nodup_rowColors _ _) fun c _ hmem =>
          lt_irrefl k ((mem_classesUpTo problem).mp hmem).1
    · intro c hc hnil
      obtain ⟨p, hp, hcolor⟩ := mem_rowColors.mp hc
      exact not_mem_nil (hnil ▸ mem_bucket.mpr ⟨p, hp, hcolor, rfl⟩)
    · intro c p hp
      obtain ⟨a, ha, hcolor, rfl⟩ := mem_bucket.mp hp
      exact hcolor
    · exact nofun

end Rows

section Whole

variable (problem : LpProblem) (varTypes : ℕ → VariableType)

abbrev graph : ColoredGraph := detectSymmetryGraph 0 problem varTypes

def classes : List (ℕ × ℕ) := classesUpTo problem problem.numRows

lemma nodup_classes : (classes problem).Nodup := nodup_classesUpTo problem problem.numRows

def classVertex (x : ℕ × ℕ) : ℕ := problem.numCols + problem.numRows + (classes problem).idxOf x

lemma graph_colors : (graph problem varTypes).vertexColors = initialColors problem varTypes ++
    (classes problem).map fun x => (rhsColors 0 problem varTypes).color + 1 + x.2 :=
  (foldl_addRow problem varTypes le_rfl).2.colors

lemma graph_size : (graph problem varTypes).size =
    problem.numCols + problem.numRows + (classes problem).length := by
  rw [ColoredGraph.size, graph_colors, length_append, length_initialColors, length_map]

variable {v : ℕ}

lemma color_initial (hv : v < problem.numCols + problem.numRows) :
    (graph problem varTypes).color v = (initialColors problem varTypes).getD v 0 := by
  rw [ColoredGraph.color, graph_colors, getD_append]
  rwa [length_initialColors]

lemma color_variable {j : ℕ} (hj : j < problem.numCols) :
    (graph problem varTypes).color j = (varColors 0 problem varTypes).colors j := by
  rw [color_initial problem varTypes (hj.trans_le (Nat.le_add_right _ _)), initialColors, startState,
    getD_append _ _ _ _ (by rwa [length_map, length_range]), getD_map_range _ hj]

lemma color_row {i : ℕ} (hi : i < problem.numRows) :
    (graph problem varTypes).color (problem.numCols + i) = (rhsColors 0 problem varTypes).colors i := by
  rw [color_initial problem varTypes (Nat.add_lt_add_left hi _), initialColors, startState,
    getD_append_right _ _ _ _ (by rw [length_map, length_range]; exact Nat.le_add_right _ _),
    length_map, length_range, Nat.add_sub_cancel_left, getD_map_range _ hi]

variable {x : ℕ × ℕ}

lemma color_class (hx : x ∈ classes problem) :
    (graph problem varTypes).color (classVertex problem x) =
      (rhsColors 0 problem varTypes).color + 1 + x.2 := by
  have hlt : (classes problem).idxOf x < (classes problem).length := idxOf_lt_length_of_mem hx
  rw [ColoredGraph.color, graph_colors, classVertex, getD_append_right _ _ _ _ (by
    rw [length_initialColors]; exact Nat.le_add_right _ _), length_initialColors,
    Nat.add_sub_cancel_left, getD_eq_getElem _ _ (by rwa [length_map]), getElem_map,
    getElem_idxOf]

lemma classVertex_lt (hx : x ∈ classes problem) :
    classVertex problem x < (graph problem varTypes).size := by
  rw [graph_size]
  exact Nat.add_lt_add_left (idxOf_lt_length_of_mem hx) _

lemma classVertex_injective {y : ℕ × ℕ} (hx : x ∈ classes problem)
    (h : classVertex problem x = classVertex problem y) : x = y :=
  (idxOf_inj hx).mp (Nat.add_left_cancel h)

lemma vertex_cases (hv : v < (graph problem varTypes).size) : v < problem.numCols ∨
    (∃ i < problem.numRows, v = problem.numCols + i) ∨ ∃ x ∈ classes problem, v = classVertex problem x := by
  rw [graph_size] at hv
  rcases lt_or_ge v problem.numCols with hlt | hge
  · exact .inl hlt
  · right
    rcases lt_or_ge v (problem.numCols + problem.numRows) with hlt | hge'
    · exact .inl ⟨v - problem.numCols, by omega, by omega⟩
    · have hidx : v - (problem.numCols + problem.numRows) < (classes problem).length := by omega
      refine .inr ⟨(classes problem)[v - (problem.numCols + problem.numRows)],
        getElem_mem hidx, ?_⟩
      rw [classVertex, (nodup_classes problem).idxOf_getElem]
      omega

/-- An edge as it is built: from a variable to a class, or from a class to its row. -/
def Joined (u v : ℕ) : Prop := ∃ x ∈ classes problem,
  (u = classVertex problem x ∧ v = problem.numCols + x.1) ∨
    ∃ p ∈ classItems problem x, u = nonzeroColumn problem p ∧ v = classVertex problem x

lemma mem_classEdges {columnOf : ℕ → ℕ} {vertex rowVertex : ℕ} {items : List ℕ}
    (hne : items ≠ []) {u : ℕ} : (u, v) ∈ classEdges columnOf vertex rowVertex items ↔
      (u = vertex ∧ v = rowVertex) ∨ ∃ p ∈ items, u = columnOf p ∧ v = vertex := by
  cases items with
  | nil => exact absurd rfl hne
  | cons p items =>
    simp only [classEdges, mem_cons, mem_map, Prod.mk.injEq, exists_eq_or_imp]
    constructor
    · rintro (⟨rfl, rfl⟩ | ⟨rfl, rfl⟩ | ⟨q, hq, rfl, rfl⟩)
      · exact .inr (.inl ⟨rfl, rfl⟩)
      · exact .inl ⟨rfl, rfl⟩
      · exact .inr (.inr ⟨q, hq, rfl, rfl⟩)
    · rintro (⟨rfl, rfl⟩ | ⟨rfl, rfl⟩ | ⟨q, hq, rfl, rfl⟩)
      · exact .inr (.inl ⟨rfl, rfl⟩)
      · exact .inl ⟨rfl, rfl⟩
      · exact .inr (.inr ⟨q, hq, rfl, rfl⟩)

lemma classItems_ne_nil (hx : x ∈ classes problem) : classItems problem x ≠ [] := by
  obtain ⟨-, hc⟩ := (mem_classesUpTo problem).mp hx
  obtain ⟨p, hp, hcolor⟩ := mem_rowColors.mp hc
  exact ne_nil_of_mem (mem_bucket.mpr ⟨p, hp, hcolor, rfl⟩)

lemma adjacent_iff (u v : ℕ) : (graph problem varTypes).Adjacent u v ↔
    Joined problem u v ∨ Joined problem v u := by
  have hbuilt := (foldl_addRow problem varTypes le_rfl).2
  have hraw : ∀ u v, (u, v) ∈ ((range problem.numRows).foldl
      (addRow problem (nonzeroColors 0 problem).colors (nonzeroColumn problem)
        ((rhsColors 0 problem varTypes).color + 1)) (startState 0 problem varTypes)).edges ↔
      Joined problem u v := by
    intro u v
    rw [hbuilt.edges, length_initialColors]
    exact exists_congr fun x => and_congr_right fun hx => mem_classEdges (classItems_ne_nil problem hx)
  show (min u v, max u v) ∈ map _ _ ↔ _
  rw [mem_map, ← hraw, ← hraw]
  constructor
  · rintro ⟨⟨a, b⟩, he, heq⟩
    obtain ⟨hmin, hmax⟩ := Prod.mk.inj heq
    have hends : a = u ∧ b = v ∨ a = v ∧ b = u := by
      dsimp only at hmin hmax
      omega
    rcases hends with ⟨rfl, rfl⟩ | ⟨rfl, rfl⟩
    · exact .inl he
    · exact .inr he
  · rintro (he | he)
    · exact ⟨(u, v), he, rfl⟩
    · exact ⟨(v, u), he, Prod.ext (min_comm v u) (max_comm v u)⟩

end Whole

section Coefficients

variable {problem : LpProblem} {i j c : ℕ}

lemma getD_rows {m i t : ℕ} (hi : i < m) (ht : t < rowLength problem i) :
    ((range m).flatMap problem.A.toCompressedRow.row).getD (rowStart problem i + t) (0, 0) =
      (problem.A.toCompressedRow.row i).getD t (0, 0) := by
  have hlength : ∀ k, ((range k).flatMap problem.A.toCompressedRow.row).length =
      rowStart problem k := fun k => length_flatMap
  induction m with
  | zero => exact absurd hi (Nat.not_lt_zero i)
  | succ m ih =>
    rw [range_succ, flatMap_append, flatMap_singleton]
    rcases Nat.lt_succ_iff_lt_or_eq.mp hi with hlt | rfl
    · have hmono := rowStart_mono problem (Nat.succ_le_of_lt hlt)
      rw [rowStart_succ] at hmono
      rw [getD_append _ _ _ _ (by rw [hlength]; omega)]
      exact ih hlt
    · rw [getD_append_right _ _ _ _ (by rw [hlength]; exact Nat.le_add_right _ _), hlength,
        Nat.add_sub_cancel_left]

variable {p : ℕ}

lemma nonzero_mem_row (hi : i < problem.numRows) (hp : p ∈ positionsOf problem i) :
    (nonzeroColumn problem p, nonzeroValue problem p) ∈ problem.A.toCompressedRow.row i := by
  obtain ⟨hge, hlt⟩ := mem_range'_1.mp hp
  obtain ⟨t, rfl⟩ := Nat.exists_eq_add_of_le hge
  have ht : t < rowLength problem i := Nat.lt_of_add_lt_add_left hlt
  have hget := getD_rows hi ht
  show (nonzeros problem).getD (rowStart problem i + t) (0, 0) ∈ _
  rw [nonzeros, hget, getD_eq_getElem _ _ ht]
  exact getElem_mem ht

lemma exists_nonzero {q : ℕ × ℚ} (hi : i < problem.numRows)
    (hq : q ∈ problem.A.toCompressedRow.row i) :
    ∃ p ∈ positionsOf problem i, nonzeroColumn problem p = q.1 := by
  obtain ⟨t, ht, rfl⟩ := getElem_of_mem hq
  refine ⟨rowStart problem i + t, mem_range'_1.mpr ⟨Nat.le_add_right _ _,
    Nat.add_lt_add_left ht _⟩, ?_⟩
  rw [nonzeroColumn, nonzeros, getD_rows hi ht, getD_eq_getElem _ _ ht]

lemma nonzeroColumn_lt (hwf : problem.WellFormed) (hi : i < problem.numRows)
    (hp : p ∈ positionsOf problem i) : nonzeroColumn problem p < problem.numCols := by
  rw [← hwf.A_n]
  exact (mem_transposed.mp (nonzero_mem_row hi hp)).1

lemma entry_nonzero (hwf : problem.WellFormed) (hi : i < problem.numRows)
    (hp : p ∈ positionsOf problem i) :
    problem.A.entry i (nonzeroColumn problem p) = nonzeroValue problem p := by
  have hmem := (mem_transposed.mp (nonzero_mem_row hi hp)).2
  exact coeff_of_mem (hwf.A_nodup _ (nonzeroColumn_lt hwf hi hp)) hmem

def EntryAt (problem : LpProblem) (i j c : ℕ) : Prop :=
  ∃ p ∈ positionsOf problem i, nonzeroColumn problem p = j ∧ (nonzeroColors 0 problem).colors p = c

lemma entry_eq_of_entryAt (hwf : problem.WellFormed) {i' j' : ℕ} (hi : i < problem.numRows)
    (hi' : i' < problem.numRows) (h : EntryAt problem i j c) (h' : EntryAt problem i' j' c) :
    problem.A.entry i j = problem.A.entry i' j' := by
  obtain ⟨p, hp, rfl, hcolor⟩ := h
  obtain ⟨p', hp', rfl, hcolor'⟩ := h'
  rw [entry_nonzero hwf hi hp, entry_nonzero hwf hi' hp']
  exact nonzeroValue_of_color problem (lt_of_mem_positions problem hi hp)
    (lt_of_mem_positions problem hi' hp') (hcolor.trans hcolor'.symm)

lemma entry_eq_zero (hwf : problem.WellFormed) (hi : i < problem.numRows) (hj : j < problem.numCols)
    (h : ∀ c, ¬ EntryAt problem i j c) : problem.A.entry i j = 0 := by
  apply coeff_eq_zero
  intro hmem
  obtain ⟨q, hq, hrow⟩ := mem_map.mp hmem
  have hrow' : (j, q.2) ∈ problem.A.toCompressedRow.row i := by
    rw [CscMatrix.toCompressedRow_row]
    exact mem_transposed.mpr ⟨hwf.A_n ▸ hj, by rwa [← hrow]⟩
  obtain ⟨p, hp, hcolumn⟩ := exists_nonzero hi hrow'
  exact h _ ⟨p, hp, hcolumn, rfl⟩

end Coefficients

section Automorphisms

variable {problem : LpProblem} {varTypes : ℕ → VariableType} {σ : Equiv.Perm ℕ} {i j c : ℕ}

lemma ColoredGraph.Automorphism.lt {g : ColoredGraph} (hσ : g.Automorphism σ) {v : ℕ}
    (hv : v < g.size) : σ v < g.size := by
  by_contra hge
  have hfix := hσ.fixes (σ v) (not_lt.mp hge)
  rw [σ.injective hfix] at hge
  exact hge hv

lemma ColoredGraph.Automorphism.symm {g : ColoredGraph} (hσ : g.Automorphism σ) :
    g.Automorphism σ.symm := by
  have hlt : ∀ v < g.size, σ.symm v < g.size := by
    intro v hv
    by_contra hge
    have hfix := hσ.fixes (σ.symm v) (not_lt.mp hge)
    rw [Equiv.apply_symm_apply] at hfix
    exact hge (hfix ▸ hv)
  constructor
  · intro v hv
    rw [Equiv.symm_apply_eq]
    exact (hσ.fixes v hv).symm
  · intro v hv
    rw [← hσ.color (σ.symm v) (hlt v hv), Equiv.apply_symm_apply]
  · intro u hu v hv
    rw [← hσ.adjacent (σ.symm u) (hlt u hu) (σ.symm v) (hlt v hv), Equiv.apply_symm_apply,
      Equiv.apply_symm_apply]

lemma variable_lt_size (varTypes : ℕ → VariableType) (hj : j < problem.numCols) :
    j < (graph problem varTypes).size := by
  rw [graph_size]
  omega

lemma row_lt_size (varTypes : ℕ → VariableType) (hi : i < problem.numRows) :
    problem.numCols + i < (graph problem varTypes).size := by
  rw [graph_size]
  omega

/-- A vertex next to a variable is a class with an entry of that variable. -/
lemma entryAt_of_joined {u v : ℕ} (hu : u < problem.numCols)
    (h : Joined problem u v ∨ Joined problem v u) :
    ∃ x ∈ classes problem, v = classVertex problem x ∧ EntryAt problem x.1 u x.2 := by
  rcases h with ⟨x, hx, ⟨heq, -⟩ | ⟨p, hp, rfl, hv⟩⟩ | ⟨x, -, ⟨-, heq⟩ | ⟨p, -, -, heq⟩⟩
  · rw [classVertex] at heq
    omega
  · obtain ⟨q, hq, hcolor, rfl⟩ := mem_bucket.mp hp
    exact ⟨x, hx, hv, q, hq, rfl, hcolor⟩
  · omega
  · rw [classVertex] at heq
    omega

lemma row_of_joined {x : ℕ × ℕ} (hwf : problem.WellFormed) (hx : x ∈ classes problem)
    (hi : i < problem.numRows) (h : Joined problem (classVertex problem x) (problem.numCols + i) ∨
      Joined problem (problem.numCols + i) (classVertex problem x)) : x.1 = i := by
  have hcolumn : ∀ y ∈ classes problem, ∀ p ∈ classItems problem y,
      nonzeroColumn problem p < problem.numCols := by
    intro y hy p hp
    obtain ⟨q, hq, -, rfl⟩ := mem_bucket.mp hp
    exact nonzeroColumn_lt hwf ((mem_classesUpTo problem).mp hy).1 hq
  rcases h with ⟨y, hy, ⟨hvertex, hrow⟩ | ⟨p, hp, heq, -⟩⟩ | ⟨y, hy, ⟨heq, -⟩ | ⟨p, hp, heq, -⟩⟩
  · rw [classVertex_injective problem hx hvertex]
    exact (Nat.add_left_cancel hrow).symm
  · have hlt := hcolumn y hy p hp
    rw [← heq, classVertex] at hlt
    omega
  · rw [classVertex] at heq
    omega
  · have hlt := hcolumn y hy p hp
    omega

lemma typeRank_injective : Function.Injective typeRank := by
  intro t t' h
  cases t <;> cases t' <;> first | rfl | exact nomatch h

variable (hσ : (graph problem varTypes).Automorphism σ)

include hσ

lemma variable_to_variable (hj : j < problem.numCols) : σ j < problem.numCols := by
  have hv := variable_lt_size varTypes hj
  have hcolor := hσ.color j hv
  rw [color_variable problem varTypes hj] at hcolor
  have hle := varColor_le problem varTypes hj
  rcases vertex_cases problem varTypes (hσ.lt hv) with hlt | ⟨i, hi, heq⟩ | ⟨x, hx, heq⟩
  · exact hlt
  · rw [heq, color_row problem varTypes hi] at hcolor
    have hbounds := rhsColor_bounds problem varTypes hi
    omega
  · rw [heq, color_class problem varTypes hx] at hcolor
    have hmono := varColor_le_rhsColor problem varTypes
    omega

lemma row_to_row (hi : i < problem.numRows) :
    ∃ i' < problem.numRows, σ (problem.numCols + i) = problem.numCols + i' := by
  have hv := row_lt_size varTypes hi
  have hcolor := hσ.color _ hv
  rw [color_row problem varTypes hi] at hcolor
  have hbounds := rhsColor_bounds problem varTypes hi
  rcases vertex_cases problem varTypes (hσ.lt hv) with hlt | ⟨i', hi', heq⟩ | ⟨x, hx, heq⟩
  · rw [color_variable problem varTypes hlt] at hcolor
    have hle := varColor_le problem varTypes hlt
    omega
  · exact ⟨i', hi', heq⟩
  · rw [heq, color_class problem varTypes hx] at hcolor
    omega

lemma class_to_class {x : ℕ × ℕ} (hx : x ∈ classes problem) :
    ∃ y ∈ classes problem, σ (classVertex problem x) = classVertex problem y ∧ y.2 = x.2 := by
  have hv := classVertex_lt problem varTypes hx
  have hcolor := hσ.color _ hv
  rw [color_class problem varTypes hx] at hcolor
  rcases vertex_cases problem varTypes (hσ.lt hv) with hlt | ⟨i, hi, heq⟩ | ⟨y, hy, heq⟩
  · rw [color_variable problem varTypes hlt] at hcolor
    have hle := varColor_le problem varTypes hlt
    have hmono := varColor_le_rhsColor problem varTypes
    omega
  · rw [heq, color_row problem varTypes hi] at hcolor
    have hbounds := rhsColor_bounds problem varTypes hi
    omega
  · rw [heq, color_class problem varTypes hy] at hcolor
    exact ⟨y, hy, heq, Nat.add_left_cancel hcolor⟩

variable {i' : ℕ}

/-- An automorphism moves coefficients to equal coefficients. -/
lemma entryAt_map (hwf : problem.WellFormed) (hi : i < problem.numRows)
    (hi' : i' < problem.numRows) (hrow : σ (problem.numCols + i) = problem.numCols + i')
    (h : EntryAt problem i j c) : EntryAt problem i' (σ j) c := by
  obtain ⟨p, hp, rfl, hcolor⟩ := h
  have hj := nonzeroColumn_lt hwf hi hp
  have hx : (i, c) ∈ classes problem :=
    (mem_classesUpTo problem).mpr ⟨hi, mem_rowColors.mpr ⟨p, hp, hcolor⟩⟩
  have hitem : p ∈ classItems problem (i, c) := mem_bucket.mpr ⟨p, hp, hcolor, rfl⟩
  obtain ⟨y, hy, hclass, hsame⟩ := class_to_class hσ hx
  have hvertex := classVertex_lt problem varTypes hx
  have hrowEdge : (graph problem varTypes).Adjacent (classVertex problem (i, c)) (problem.numCols + i) :=
    (adjacent_iff problem varTypes _ _).mpr (.inl ⟨(i, c), hx, .inl ⟨rfl, rfl⟩⟩)
  have hentryEdge : (graph problem varTypes).Adjacent (nonzeroColumn problem p)
      (classVertex problem (i, c)) :=
    (adjacent_iff problem varTypes _ _).mpr (.inl ⟨(i, c), hx, .inr ⟨p, hitem, rfl, rfl⟩⟩)
  rw [← hσ.adjacent _ hvertex _ (row_lt_size varTypes hi), adjacent_iff, hclass, hrow] at hrowEdge
  rw [← hσ.adjacent _ (variable_lt_size varTypes hj) _ hvertex, adjacent_iff, hclass] at hentryEdge
  -- the image of the class is a class of the image of the row
  have hrowOf := row_of_joined hwf hy hi' hrowEdge
  obtain ⟨z, hz, hvertices, hentry⟩ := entryAt_of_joined (variable_to_variable hσ hj) hentryEdge
  rw [← classVertex_injective problem hy hvertices, hrowOf, hsame] at hentry
  exact hentry

lemma entry_map (hwf : problem.WellFormed) (hi : i < problem.numRows)
    (hi' : i' < problem.numRows) (hrow : σ (problem.numCols + i) = problem.numCols + i')
    (hj : j < problem.numCols) : problem.A.entry i' (σ j) = problem.A.entry i j := by
  by_cases h : ∃ c, EntryAt problem i j c
  · obtain ⟨c, hc⟩ := h
    exact entry_eq_of_entryAt hwf hi' hi (entryAt_map hσ hwf hi hi' hrow hc) hc
  · have hnone : ∀ c, ¬ EntryAt problem i' (σ j) c := by
      intro c hc
      have hback : σ.symm (problem.numCols + i') = problem.numCols + i := by
        rw [Equiv.symm_apply_eq]
        exact hrow.symm
      have hold := entryAt_map hσ.symm hwf hi' hi hback hc
      rw [Equiv.symm_apply_apply] at hold
      exact h ⟨c, hold⟩
    rw [entry_eq_zero hwf hi hj fun c hc => h ⟨c, hc⟩,
      entry_eq_zero hwf hi' (variable_to_variable hσ hj) hnone]

lemma mem_range_iff : j ∈ Finset.range problem.numCols ↔ σ j ∈ Finset.range problem.numCols := by
  rw [mem_range, mem_range]
  constructor
  · exact fun hj => variable_to_variable hσ hj
  · intro hj
    have hback := variable_to_variable hσ.symm hj
    rwa [Equiv.symm_apply_apply] at hback

lemma varKey_map (hj : j < problem.numCols) :
    varKey problem varTypes (σ j) = varKey problem varTypes j := by
  have hj' := variable_to_variable hσ hj
  have hcolor := hσ.color j (variable_lt_size varTypes hj)
  rw [color_variable problem varTypes hj, color_variable problem varTypes hj'] at hcolor
  exact varKey_of_color problem varTypes hj' hj hcolor

lemma rhs_map (hi : i < problem.numRows) (hi' : i' < problem.numRows)
    (hrow : σ (problem.numCols + i) = problem.numCols + i') : problem.rhs i' = problem.rhs i := by
  have hcolor := hσ.color _ (row_lt_size varTypes hi)
  rw [hrow, color_row problem varTypes hi, color_row problem varTypes hi'] at hcolor
  exact rhs_of_color problem varTypes hi' hi hcolor

lemma mixedFeasible_map (hwf : problem.WellFormed) {x : ℕ → ℚ}
    (hx : MixedFeasible problem varTypes x) : MixedFeasible problem varTypes fun j => x (σ j) where
  rows := by
    intro i hi
    obtain ⟨i', hi', hrow⟩ := row_to_row hσ hi
    rw [← rhs_map hσ hi hi' hrow, ← hx.rows i' hi']
    apply Finset.sum_equiv σ fun j => mem_range_iff hσ
    intro j hj
    rw [entry_map hσ hwf hi hi' hrow (mem_range.mp hj)]
  bounds := by
    intro j hj
    obtain ⟨-, hlower, hupper, -⟩ := VarKey.mk.inj (varKey_map hσ hj)
    have hbounds := hx.bounds (σ j) (variable_to_variable hσ hj)
    rwa [show problem.lower (σ j) = problem.lower j from hlower,
      show problem.upper (σ j) = problem.upper j from hupper] at hbounds
  integral := by
    intro j hj htype
    obtain ⟨-, -, -, hrank⟩ := VarKey.mk.inj (varKey_map hσ hj)
    apply hx.integral (σ j) (variable_to_variable hσ hj)
    rwa [typeRank_injective hrank]

lemma linearObjective_map (x : ℕ → ℚ) :
    linearObjective problem (fun j => x (σ j)) = linearObjective problem x := by
  apply Finset.sum_equiv σ fun j => mem_range_iff hσ
  intro j hj
  obtain ⟨hobjective, -⟩ := VarKey.mk.inj (varKey_map hσ (mem_range.mp hj))
  rw [hobjective]

end Automorphisms

/-- Every automorphism permutes the variables, and points stay feasible under it with the same objective
value. -/
theorem automorphism_faithful (problem : LpProblem) (varTypes : ℕ → VariableType)
    (hwf : problem.WellFormed) (σ : Equiv.Perm ℕ)
    (hσ : (detectSymmetryGraph 0 problem varTypes).Automorphism σ) :
    (∀ j, j < problem.numCols ↔ σ j < problem.numCols) ∧
      ∀ x, MixedFeasible problem varTypes x → MixedFeasible problem varTypes (fun j => x (σ j)) ∧
        linearObjective problem (fun j => x (σ j)) = linearObjective problem x := by
  constructor
  · intro j
    rw [← mem_range, ← mem_range]
    exact mem_range_iff hσ
  · exact fun x hx => ⟨mixedFeasible_map hσ hwf hx, linearObjective_map hσ x⟩

def twoChoices : LpProblem where
  numRows := 1
  numCols := 2
  objective := fun _ => 1
  Q := ⟨0, 0, fun _ => []⟩
  A := ⟨1, 2, fun _ => [(0, 1)]⟩
  rhs := fun _ => 1
  lower := fun _ => some 0
  upper := fun _ => some 1
  objConstant := 0
  coneVarStart := 0
  secondOrderConeDims := []

lemma twoChoices_wellFormed : twoChoices.WellFormed where
  A_m := rfl
  A_n := rfl
  A_lt := by
    intro j _ i hi
    rw [mem_singleton.mp hi]
    exact Nat.one_pos
  A_nodup := fun _ _ => nodup_singleton 0
  Q := fun h => absurd h (lt_irrefl 0)

lemma twoChoices_graph : detectSymmetryGraph 0 twoChoices (fun _ => .binary) =
    ⟨[0, 0, 1, 2], [(0, 3), (2, 3), (1, 3)]⟩ := by
  unfold detectSymmetryGraph startState rhsColors nonzeroColors varColors
  rw [sortedIndices_eq_range (by decide), sortedIndices_eq_range (by decide),
    sortedIndices_eq_range (by decide)]
  decide +kernel

lemma twoChoices_swap :
    (detectSymmetryGraph 0 twoChoices fun _ => .binary).Automorphism (Equiv.swap 0 1) := by
  rw [twoChoices_graph]
  constructor
  · intro v hv
    have hge : 4 ≤ v := hv
    exact Equiv.swap_apply_of_ne_of_ne (by omega) (by omega)
  · decide
  · unfold ColoredGraph.Adjacent
    decide

theorem twoChoices_faithful :
    (∀ j, j < 2 ↔ Equiv.swap 0 1 j < 2) ∧
      ∀ x, MixedFeasible twoChoices (fun _ => .binary) x →
        MixedFeasible twoChoices (fun _ => .binary) (fun j => x (Equiv.swap 0 1 j)) ∧
          linearObjective twoChoices (fun j => x (Equiv.swap 0 1 j)) = linearObjective twoChoices x :=
  automorphism_faithful twoChoices (fun _ => .binary) twoChoices_wellFormed (Equiv.swap 0 1)
    twoChoices_swap

end CuOpt.BranchAndBound.SymmetryGraph
