import CuOpt.Library.ColorRefinement
import CuOpt.Simplex.ColorGraph

/-! The coloring that `color_graph` returns is equitable: lines of one color have equal sums over
every color of the other side. -/

namespace CuOpt.Simplex

open ColorRefinement List Function Finset
open Function (update)
open List (mem_cons_self mem_filter mem_toFinset)

structure Colored (size : Side → ℕ) (state : Coloring) : Prop where
  mem : ∀ c < state.totalColorsSeen, ∀ v, v ∈ (state.colors c).vertices ↔
    v < size (state.colors c).side ∧ state.colorMap (state.colors c).side v = c
  mapped : ∀ side, ∀ v < size side, state.colorMap side v < state.totalColorsSeen ∧
    (state.colors (state.colorMap side v)).side = side
  nonempty : ∀ c < state.totalColorsSeen, (state.colors c).vertices.Nonempty
  active : ∀ c < state.totalColorsSeen, (state.colors c).active = true
  stack_lt : ∀ c ∈ state.colorStack, c < state.totalColorsSeen
  stack_nodup : state.colorStack.Nodup
  count : ∀ side, state.numSideColors side =
    ((Finset.range state.totalColorsSeen).filter fun c => (state.colors c).side = side).card

section Parts

variable {K : Type*} [AddCommMonoid K] [LinearOrder K] {order : IterationOrder}
  {sums : RefinedSums K} {state : Coloring} {color : ℕ} {sum : K}

/-- The touched vertices of a color are its own, and the others have the sum zero. -/
structure Touches (sums : RefinedSums K) (state : Coloring) (color : ℕ) : Prop where
  nodup : (sums.verticesToRefineByColor color).Nodup
  mem : ∀ v ∈ sums.verticesToRefineByColor color, v ∈ (state.colors color).vertices
  zero : ∀ v, v ∈ (state.colors color).vertices → v ∉ sums.verticesToRefineByColor color →
    sums.vertexToSum v = 0

def part (sums : RefinedSums K) (state : Coloring) (color : ℕ) (sum : K) : Finset ℕ :=
  (state.colors color).vertices.filter fun v => sums.vertexToSum v = sum

omit [AddCommMonoid K] in
theorem mem_part {v : ℕ} : v ∈ part sums state color sum ↔
    v ∈ (state.colors color).vertices ∧ sums.vertexToSum v = sum := Finset.mem_filter

namespace Touches

omit [LinearOrder K] in
theorem toFinset_subset (h : Touches sums state color) :
    (sums.verticesToRefineByColor color).toFinset ⊆ (state.colors color).vertices := by
  intro v hv
  exact h.mem v (mem_toFinset.mp hv)

omit [LinearOrder K] in
theorem card_toFinset (h : Touches sums state color) :
    (sums.verticesToRefineByColor color).toFinset.card =
      (sums.verticesToRefineByColor color).length :=
  toFinset_card_of_nodup h.nodup

omit [LinearOrder K] in
omit [LinearOrder K] in
theorem length_ne_iff (h : Touches sums state color) :
    (sums.verticesToRefineByColor color).length ≠ (state.colors color).vertices.card ↔
      ∃ v ∈ (state.colors color).vertices, v ∉ sums.verticesToRefineByColor color := by
  constructor
  · intro hne
    by_contra hall
    push Not at hall
    apply hne
    rw [← h.card_toFinset]
    congr 1
    apply Finset.Subset.antisymm h.toFinset_subset
    intro v hv
    exact mem_toFinset.mpr (hall v hv)
  · rintro ⟨v, hv, hnot⟩ heq
    rw [← h.card_toFinset] at heq
    have hsame := eq_of_subset_of_card_le h.toFinset_subset heq.ge
    rw [← hsame] at hv
    exact hnot (mem_toFinset.mp hv)

lemma mem_partSums (h : Touches sums state color) :
    sum ∈ partSums sums state color ↔ (part sums state color sum).Nonempty := by
  simp only [partSums, mem_insertionSort, mem_dedup, mem_append, List.mem_map]
  constructor
  · rintro (⟨v, hv, heq⟩ | hzero)
    · exact ⟨v, mem_part.mpr ⟨h.mem v hv, heq⟩⟩
    · split_ifs at hzero with hne
      · obtain ⟨v, hv, hnot⟩ := h.length_ne_iff.mp hne
        refine ⟨v, mem_part.mpr ⟨hv, ?_⟩⟩
        rw [h.zero v hv hnot, List.mem_singleton.mp hzero]
      · cases hzero
  · rintro ⟨v, hv⟩
    obtain ⟨hv, heq⟩ := mem_part.mp hv
    by_cases hmem : v ∈ sums.verticesToRefineByColor color
    · exact .inl ⟨v, hmem, heq⟩
    · right
      rw [if_pos (h.length_ne_iff.mpr ⟨v, hv, hmem⟩), ← heq, h.zero v hv hmem]
      exact List.mem_singleton_self 0

lemma nodup_filter (h : Touches sums state color) :
    ((sums.verticesToRefineByColor color).filter fun v => sums.vertexToSum v = sum).Nodup :=
  h.nodup.filter _

variable {adjustZero : Bool}

section

variable (h : Touches sums state color)
include h

lemma mem_part_of_mem_partVertices {v : ℕ}
    (hv : v ∈ partVertices order sums state color adjustZero sum) :
    v ∈ part sums state color sum := by
  rw [mem_part]
  simp only [partVertices, mem_append, mem_filter, decide_eq_true_eq] at hv
  rcases hv with ⟨hv, heq⟩ | hv
  · exact ⟨h.mem v hv, heq⟩
  · split_ifs at hv with hadjust
    · rw [Bool.and_eq_true, decide_eq_true_eq] at hadjust
      rw [mem_filter, order.mem_list, Bool.and_eq_true, decide_eq_true_eq] at hv
      exact ⟨hv.1, hv.2.1.trans hadjust.2.symm⟩
    · cases hv

lemma mem_partVertices (hsum : sum = 0 → adjustZero = true) {v : ℕ} :
    v ∈ partVertices order sums state color adjustZero sum ↔ v ∈ part sums state color sum := by
  refine ⟨h.mem_part_of_mem_partVertices, fun hv => ?_⟩
  obtain ⟨hv, heq⟩ := mem_part.mp hv
  simp only [partVertices, mem_append, mem_filter, decide_eq_true_eq]
  by_cases hmem : v ∈ sums.verticesToRefineByColor color
  · exact .inl ⟨hmem, heq⟩
  · right
    have hzero : sum = 0 := heq.symm.trans (h.zero v hv hmem)
    have hadjust : (adjustZero && decide (sum = 0)) = true := by
      rw [Bool.and_eq_true, decide_eq_true_eq]
      exact ⟨hsum hzero, hzero⟩
    rw [if_pos hadjust, mem_filter, order.mem_list]
    refine ⟨hv, ?_⟩
    simp [hmem, heq, hzero]

lemma nodup_partVertices (adjustZero : Bool) :
    (partVertices order sums state color adjustZero sum).Nodup := by
  unfold partVertices
  apply nodup_append.mpr
  refine ⟨h.nodup_filter, ?_, ?_⟩
  · split_ifs
    · exact (order.nodup _ _).filter _
    · exact nodup_nil
  · intro v hv w hw heq
    split_ifs at hw
    · simp only [mem_filter, Bool.and_eq_true, decide_eq_true_eq] at hw hv
      rw [← heq] at hw
      simp [hv] at hw
    · cases hw

lemma length_partVertices (hsum : sum = 0 → adjustZero = true) :
    (partVertices order sums state color adjustZero sum).length =
      (part sums state color sum).card := by
  rw [← toFinset_card_of_nodup (h.nodup_partVertices adjustZero)]
  congr 1
  ext v
  rw [mem_toFinset, h.mem_partVertices hsum]

lemma sumToSize_eq :
    sumToSize sums state color sum = (part sums state color sum).card := by
  have hrest : ∀ v ∈ (state.colors color).vertices \ (sums.verticesToRefineByColor color).toFinset,
      sums.vertexToSum v = 0 := fun v hv =>
    h.zero v (mem_sdiff.mp hv).1 fun hmem => (mem_sdiff.mp hv).2 (mem_toFinset.mpr hmem)
  rw [part, ← union_sdiff_of_subset h.toFinset_subset, filter_union,
    card_union_of_disjoint (disjoint_filter_filter disjoint_sdiff), sumToSize,
    ← toFinset_card_of_nodup h.nodup_filter, toFinset_filter]
  congr 1
  · simp
  · split_ifs with hzero
    · rw [filter_true_of_mem fun v hv => (hrest v hv).trans hzero.symm,
        card_sdiff_of_subset h.toFinset_subset, h.card_toFinset]
    · rw [filter_false_of_mem fun v hv heq => hzero (heq.symm.trans (hrest v hv)), card_empty]

end

end Touches

omit [AddCommMonoid K] [LinearOrder K] in
theorem largestSum_mem (size : K → ℕ) {keys : List K} (hkeys : keys ≠ []) :
    ∃ sum ∈ keys, largestSum size keys = some sum := by
  induction keys using List.reverseRecOn with
  | nil => exact absurd rfl hkeys
  | append_singleton keys key ih =>
    rw [largestSum, foldl_concat, ← largestSum]
    cases keys with
    | nil => exact ⟨key, mem_cons_self, rfl⟩
    | cons first keys =>
      obtain ⟨sum, hsum, heq⟩ := ih (cons_ne_nil first keys)
      rw [heq]
      show ∃ best ∈ (first :: keys) ++ [key],
        (if size sum < size key then some key else some sum) = some best
      split_ifs
      · exact ⟨key, mem_append_right _ mem_cons_self, rfl⟩
      · exact ⟨sum, mem_append_left _ hsum, rfl⟩

lemma nodup_partSums : (partSums sums state color).Nodup :=
  (perm_insertionSort _ _).nodup_iff.mpr (nodup_dedup _)

end Parts

section Splitting

variable {K : Type*} {size : Side → ℕ} {side : Side} {sum : ℕ → K} {whole : Finset ℕ} {color : ℕ}
  {start state : Coloring} {done : List K} {key : K} {vertices : List ℕ}

/-- The parts of `color` with the sums in `done` have colors of their own. The color itself still
lists them. -/
structure Splitting (side : Side) (sum : ℕ → K) (whole : Finset ℕ) (color : ℕ) (start : Coloring)
    (done : List K) (state : Coloring) : Prop where
  total_le : start.totalColorsSeen ≤ state.totalColorsSeen
  colors : ∀ c < start.totalColorsSeen, state.colors c = start.colors c
  map_other : ∀ s, s ≠ side → state.colorMap s = start.colorMap s
  map_out : ∀ v, v ∉ whole → state.colorMap side v = start.colorMap side v
  map_in : ∀ v ∈ whole, state.colorMap side v = color ∨
    start.totalColorsSeen ≤ state.colorMap side v ∧ state.colorMap side v < state.totalColorsSeen
  taken : ∀ v ∈ whole, state.colorMap side v ≠ color ↔ sum v ∈ done
  sums : ∀ v ∈ whole, ∀ w ∈ whole, state.colorMap side v ≠ color →
    state.colorMap side v = state.colorMap side w → sum v = sum w
  new : ∀ c, start.totalColorsSeen ≤ c → c < state.totalColorsSeen →
    (state.colors c).side = side ∧ (state.colors c).active = true ∧
      (state.colors c).vertices.Nonempty ∧
      ∀ v, v ∈ (state.colors c).vertices ↔ v ∈ whole ∧ state.colorMap side v = c
  stack_nodup : state.colorStack.Nodup
  stack : ∀ c, c ∈ state.colorStack ↔
    c ∈ start.colorStack ∨ start.totalColorsSeen ≤ c ∧ c < state.totalColorsSeen
  count : ∀ s, state.numSideColors s =
    ((Finset.range state.totalColorsSeen).filter fun c => (state.colors c).side = s).card

lemma Splitting.initial (sum : ℕ → K) (hstart : Colored size start)
    (hcolor : color < start.totalColorsSeen) (hside : (start.colors color).side = side) :
    Splitting side sum (start.colors color).vertices color start [] start := by
  have hmap : ∀ v ∈ (start.colors color).vertices, start.colorMap side v = color := by
    intro v hv
    rw [← hside]
    exact ((hstart.mem color hcolor v).mp hv).2
  constructor
  case total_le => exact le_refl _
  case colors | map_other | map_out => exact fun _ _ => rfl
  case map_in => exact fun v hv => .inl (hmap v hv)
  case taken =>
    intro v hv
    constructor
    · exact fun hne => absurd (hmap v hv) hne
    · exact fun hmem => absurd hmem not_mem_nil
  case sums => exact fun v hv _ _ hne => absurd (hmap v hv) hne
  case new =>
    intro c hle hlt
    exact absurd hlt (not_lt.mpr hle)
  case stack_nodup => exact hstart.stack_nodup
  case stack =>
    intro c
    constructor
    · exact Or.inl
    · rintro (hmem | ⟨hle, hlt⟩)
      · exact hmem
      · exact absurd hlt (not_lt.mpr hle)
  case count => exact hstart.count

lemma colorMap_addColor_of_mem {v : ℕ} (hv : v ∈ vertices) :
    (addColor side state vertices).colorMap side v = state.totalColorsSeen := by
  show update state.colorMap side _ side v = _
  rw [update_self, if_pos hv]

lemma colorMap_addColor_of_notMem {v : ℕ} (hv : v ∉ vertices) :
    (addColor side state vertices).colorMap side v = state.colorMap side v := by
  show update state.colorMap side _ side v = _
  rw [update_self, if_neg hv]

lemma colors_addColor_of_ne {c : ℕ} (hc : c ≠ state.totalColorsSeen) :
    (addColor side state vertices).colors c = state.colors c :=
  update_of_ne hc _ _

lemma colors_addColor_self :
    (addColor side state vertices).colors state.totalColorsSeen = ⟨side, true, vertices.toFinset⟩ :=
  update_self _ _ _

/-- One part more. -/
lemma Splitting.add (h : Splitting side sum whole color start done state)
    (hcolor : color < start.totalColorsSeen)
    (hstack : ∀ c ∈ start.colorStack, c < start.totalColorsSeen) (hkey : key ∉ done)
    (hvertices : ∀ v, v ∈ vertices ↔ v ∈ whole ∧ sum v = key) (hne : vertices ≠ []) :
    Splitting side sum whole color start (done ++ [key]) (addColor side state vertices) := by
  have hbefore : ∀ v ∈ vertices, state.colorMap side v = color := by
    intro v hv
    obtain ⟨hmem, heq⟩ := (hvertices v).mp hv
    by_contra hmoved
    exact hkey (heq ▸ (h.taken v hmem).mp hmoved)
  have hfresh : color ≠ state.totalColorsSeen := by
    have := h.total_le
    omega
  have hmapLt : ∀ v ∈ whole, state.colorMap side v < state.totalColorsSeen := by
    intro v hv
    have := h.total_le
    rcases h.map_in v hv with heq | ⟨_, hlt⟩
    · omega
    · exact hlt
  constructor
  case total_le => exact Nat.le_succ_of_le h.total_le
  case colors =>
    intro c hc
    have hne : c ≠ state.totalColorsSeen := by
      have := h.total_le
      omega
    rw [colors_addColor_of_ne hne, h.colors c hc]
  case map_other =>
    intro s hs
    rw [← h.map_other s hs]
    exact update_of_ne hs _ _
  case map_out =>
    intro v hv
    have hnot : v ∉ vertices := fun hmem => hv ((hvertices v).mp hmem).1
    rw [colorMap_addColor_of_notMem hnot, h.map_out v hv]
  case map_in =>
    intro v hv
    by_cases hmem : v ∈ vertices
    · right
      rw [colorMap_addColor_of_mem hmem]
      exact ⟨h.total_le, Nat.lt_succ_self _⟩
    · rw [colorMap_addColor_of_notMem hmem]
      rcases h.map_in v hv with heq | ⟨hle, hlt⟩
      · exact .inl heq
      · exact .inr ⟨hle, Nat.lt_succ_of_lt hlt⟩
  case taken =>
    intro v hv
    rw [mem_append, List.mem_singleton]
    by_cases hmem : v ∈ vertices
    · rw [colorMap_addColor_of_mem hmem]
      exact ⟨fun _ => .inr ((hvertices v).mp hmem).2, fun _ => hfresh.symm⟩
    · rw [colorMap_addColor_of_notMem hmem, h.taken v hv]
      constructor
      · exact Or.inl
      · rintro (hdone | heq)
        · exact hdone
        · exact absurd ((hvertices v).mpr ⟨hv, heq⟩) hmem
  case sums =>
    intro v hv w hw hmoved heq
    by_cases hv' : v ∈ vertices
    · by_cases hw' : w ∈ vertices
      · rw [((hvertices v).mp hv').2, ((hvertices w).mp hw').2]
      · rw [colorMap_addColor_of_mem hv', colorMap_addColor_of_notMem hw'] at heq
        exact absurd heq.symm (hmapLt w hw).ne
    · by_cases hw' : w ∈ vertices
      · rw [colorMap_addColor_of_notMem hv', colorMap_addColor_of_mem hw'] at heq
        exact absurd heq (hmapLt v hv).ne
      · rw [colorMap_addColor_of_notMem hv'] at hmoved
        rw [colorMap_addColor_of_notMem hv', colorMap_addColor_of_notMem hw'] at heq
        exact h.sums v hv w hw hmoved heq
  case new =>
    intro c hle hlt
    by_cases hc : c = state.totalColorsSeen
    · subst hc
      rw [colors_addColor_self]
      refine ⟨rfl, rfl, toFinset_nonempty_iff _ |>.mpr hne, fun v => ?_⟩
      show v ∈ vertices.toFinset ↔ _
      rw [mem_toFinset]
      constructor
      · intro hv
        exact ⟨((hvertices v).mp hv).1, colorMap_addColor_of_mem hv⟩
      · rintro ⟨hv, heq⟩
        by_contra hnot
        rw [colorMap_addColor_of_notMem hnot] at heq
        exact absurd heq (hmapLt v hv).ne
    · have hlt' : c < state.totalColorsSeen := by
        have : c < state.totalColorsSeen + 1 := hlt
        omega
      rw [colors_addColor_of_ne hc]
      obtain ⟨hside, hactive, hnonempty, hmem⟩ := h.new c hle hlt'
      refine ⟨hside, hactive, hnonempty, fun v => ?_⟩
      rw [hmem v]
      by_cases hv : v ∈ vertices
      · rw [colorMap_addColor_of_mem hv, hbefore v hv]
        constructor
        · rintro ⟨_, heq⟩
          omega
        · rintro ⟨_, heq⟩
          omega
      · rw [colorMap_addColor_of_notMem hv]
  case stack_nodup =>
    apply nodup_cons.mpr
    refine ⟨fun hmem => ?_, h.stack_nodup⟩
    rcases (h.stack _).mp hmem with hold | ⟨_, hlt⟩
    · have := hstack _ hold
      have := h.total_le
      omega
    · exact lt_irrefl _ hlt
  case stack =>
    intro c
    show c ∈ state.totalColorsSeen :: state.colorStack ↔
      c ∈ start.colorStack ∨ start.totalColorsSeen ≤ c ∧ c < state.totalColorsSeen + 1
    rw [List.mem_cons, h.stack c]
    have := h.total_le
    constructor
    · rintro (rfl | hold | ⟨hle, hlt⟩)
      · exact .inr ⟨this, Nat.lt_succ_self _⟩
      · exact .inl hold
      · exact .inr ⟨hle, Nat.lt_succ_of_lt hlt⟩
    · rintro (hold | ⟨hle, hlt⟩)
      · exact .inr (.inl hold)
      · rcases Nat.lt_succ_iff_lt_or_eq.mp hlt with hlt | heq
        · exact .inr (.inr ⟨hle, hlt⟩)
        · exact .inl heq
  case count =>
    intro s
    have hsame : ((Finset.range state.totalColorsSeen).filter fun c =>
        ((addColor side state vertices).colors c).side = s) =
        (Finset.range state.totalColorsSeen).filter fun c => (state.colors c).side = s := by
      apply Finset.filter_congr
      intro c hc
      rw [colors_addColor_of_ne (Finset.mem_range.mp hc).ne]
    show update state.numSideColors side (state.numSideColors side + 1) s =
      ((Finset.range (state.totalColorsSeen + 1)).filter fun c =>
        ((addColor side state vertices).colors c).side = s).card
    rw [range_add_one, filter_insert, colors_addColor_self, hsame]
    by_cases hs : s = side
    · subst hs
      rw [update_self, if_pos rfl, card_insert_of_notMem, h.count]
      simp
    · rw [update_of_ne hs, if_neg (Ne.symm hs), h.count]

lemma Splitting.addAll {parts : K → List ℕ} (keys : List K)
    (h : Splitting side sum whole color start done state) (hcolor : color < start.totalColorsSeen)
    (hstack : ∀ c ∈ start.colorStack, c < start.totalColorsSeen) (hkeys : (done ++ keys).Nodup)
    (hparts : ∀ key ∈ keys, ∀ v, v ∈ parts key ↔ v ∈ whole ∧ sum v = key)
    (hne : ∀ key ∈ keys, parts key ≠ []) :
    Splitting side sum whole color start (done ++ keys)
      (keys.foldl (fun state key => addColor side state (parts key)) state) := by
  induction keys generalizing done state with
  | nil =>
    rw [append_nil]
    exact h
  | cons key keys ih =>
    have hfresh : key ∉ done := by
      intro hmem
      exact (nodup_append.mp hkeys).2.2 key hmem key mem_cons_self rfl
    have hstep := h.add hcolor hstack hfresh (hparts key mem_cons_self)
      (hne key mem_cons_self)
    have hrest := ih hstep (by rwa [append_assoc])
      (fun k hk => hparts k (List.mem_cons_of_mem _ hk))
      (fun k hk => hne k (List.mem_cons_of_mem _ hk))
    rw [append_assoc] at hrest
    exact hrest

lemma colorMap_foldl_addColor {parts : K → List ℕ} (keys : List K) {v w : ℕ}
    (hparts : ∀ key ∈ keys, v ∈ parts key ↔ w ∈ parts key)
    (heq : state.colorMap side v = state.colorMap side w) :
    (keys.foldl (fun state key => addColor side state (parts key)) state).colorMap side v =
      (keys.foldl (fun state key => addColor side state (parts key)) state).colorMap side w := by
  induction keys generalizing state with
  | nil => exact heq
  | cons key keys ih =>
    apply ih fun k hk => hparts k (List.mem_cons_of_mem _ hk)
    have hiff := hparts key mem_cons_self
    by_cases hv : v ∈ parts key
    · rw [colorMap_addColor_of_mem hv, colorMap_addColor_of_mem (hiff.mp hv)]
    · rw [colorMap_addColor_of_notMem hv, colorMap_addColor_of_notMem (mt hiff.mpr hv), heq]

end Splitting

section SplitColors

variable {K : Type*} {size : Side → ℕ} {side : Side} {sum : ℕ → K} {color : ℕ}
  {state state' : Coloring}

structure SplitOff (size : Side → ℕ) (side : Side) (sum : ℕ → K) (color : ℕ)
    (state state' : Coloring) : Prop where
  colored : Colored size state'
  total_le : state.totalColorsSeen ≤ state'.totalColorsSeen
  map_other : ∀ s, s ≠ side → state'.colorMap s = state.colorMap s
  map : ∀ v < size side, state'.colorMap side v = state.colorMap side v ∨
    state.colorMap side v = color ∧ state.totalColorsSeen ≤ state'.colorMap side v
  colors : ∀ c < state.totalColorsSeen, c ≠ color → state'.colors c = state.colors c
  side_eq : ∀ c < state.totalColorsSeen, (state'.colors c).side = (state.colors c).side
  new_side : ∀ c, state.totalColorsSeen ≤ c → c < state'.totalColorsSeen →
    (state'.colors c).side = side
  stack : ∀ c, c ∈ state'.colorStack ↔
    c ∈ state.colorStack ∨ state.totalColorsSeen ≤ c ∧ c < state'.totalColorsSeen
  sums : ∀ v < size side, ∀ w < size side, state.colorMap side v = color →
    state.colorMap side w = color → state'.colorMap side v = state'.colorMap side w → sum v = sum w

/-- Vertices of one color with one sum have one color again. -/
def KeepsTogether (size : Side → ℕ) (side : Side) (sum : ℕ → K) (state state' : Coloring) : Prop :=
  ∀ v < size side, ∀ w < size side, state.colorMap side v = state.colorMap side w →
    sum v = sum w → state'.colorMap side v = state'.colorMap side w

section Kept

variable {done : List K} {moved : Coloring} {kept : Finset ℕ}
  (h : Splitting side sum (state.colors color).vertices color state done moved)
  (hcolored : Colored size state) (hcolor : color < state.totalColorsSeen)
  (hside : (state.colors color).side = side)

include hcolored hcolor hside in
lemma Colored.mem_whole (v : ℕ) :
    v ∈ (state.colors color).vertices ↔ v < size side ∧ state.colorMap side v = color := by
  rw [← hside]
  exact hcolored.mem color hcolor v

include h hcolor hside

lemma Splitting.side_update (kept : Finset ℕ) (c : ℕ) :
    (update moved.colors color ⟨side, true, kept⟩ c).side = (moved.colors c).side := by
  by_cases hc : c = color
  · rw [hc, update_self, h.colors color hcolor, hside]
  · rw [update_of_ne hc]

include hcolored

lemma Splitting.mem_of_map {v : ℕ} (hv : v < size side)
    (hmap : moved.colorMap side v = color ∨ state.totalColorsSeen ≤ moved.colorMap side v) :
    v ∈ (state.colors color).vertices := by
  by_contra hout
  rw [h.map_out v hout] at hmap
  rcases hmap with heq | hle
  · exact hout ((hcolored.mem_whole hcolor hside v).mpr ⟨hv, heq⟩)
  · exact absurd (hcolored.mapped side v hv).1 (not_lt.mpr hle)

lemma Splitting.mapped (s : Side) {v : ℕ} (hv : v < size s) :
    moved.colorMap s v < moved.totalColorsSeen ∧ (moved.colors (moved.colorMap s v)).side = s := by
  have hold (heq : moved.colorMap s v = state.colorMap s v) :
      moved.colorMap s v < moved.totalColorsSeen ∧ (moved.colors (moved.colorMap s v)).side = s := by
    obtain ⟨hlt, hold⟩ := hcolored.mapped s v hv
    rw [heq, h.colors _ hlt]
    exact ⟨lt_of_lt_of_le hlt h.total_le, hold⟩
  by_cases hs : s = side
  · subst hs
    by_cases hmem : v ∈ (state.colors color).vertices
    · rcases h.map_in v hmem with heq | ⟨hle, hlt⟩
      · rw [heq, h.colors color hcolor, hside]
        exact ⟨lt_of_lt_of_le hcolor h.total_le, rfl⟩
      · exact ⟨hlt, (h.new _ hle hlt).1⟩
    · exact hold (h.map_out v hmem)
  · exact hold (congrFun (h.map_other s hs) v)

lemma Splitting.mem_colors {c : ℕ} (hne : c ≠ color) (hc : c < moved.totalColorsSeen) (v : ℕ) :
    v ∈ (moved.colors c).vertices ↔
      v < size (moved.colors c).side ∧ moved.colorMap (moved.colors c).side v = c := by
  by_cases hold : c < state.totalColorsSeen
  · rw [h.colors c hold, hcolored.mem c hold v]
    by_cases hs : (state.colors c).side = side
    · rw [hs]
      by_cases hmem : v ∈ (state.colors color).vertices
      · have hbefore := ((hcolored.mem_whole hcolor hside v).mp hmem).2
        constructor
        · rintro ⟨_, hmap⟩
          exact absurd (hmap.symm.trans hbefore) hne
        · rintro ⟨_, hmap⟩
          rcases h.map_in v hmem with heq | ⟨hle, _⟩
          · exact absurd (hmap.symm.trans heq) hne
          · omega
      · rw [h.map_out v hmem]
    · rw [h.map_other _ hs]
  · obtain ⟨hs, _, _, hmem⟩ := h.new c (not_lt.mp hold) hc
    rw [hmem v, hs]
    exact ⟨fun hv => ⟨((hcolored.mem_whole hcolor hside v).mp hv.1).1, hv.2⟩,
      fun hv => ⟨h.mem_of_map hcolored hcolor hside hv.1 (.inr (hv.2.symm ▸ not_lt.mp hold)), hv.2⟩⟩

variable (hkept : ∀ v, v ∈ kept ↔ v ∈ (state.colors color).vertices ∧ moved.colorMap side v = color)
  (hne : kept.Nonempty)
include hkept hne

lemma Splitting.colored :
    Colored size { moved with colors := update moved.colors color ⟨side, true, kept⟩ } := by
  have hsideOf := h.side_update hcolor hside kept
  constructor
  case mem =>
    intro c hc v
    show v ∈ (update moved.colors color _ c).vertices ↔
      v < size (update moved.colors color _ c).side ∧
        moved.colorMap (update moved.colors color _ c).side v = c
    rw [hsideOf]
    by_cases hcolor' : c = color
    · rw [hcolor', update_self, h.colors color hcolor, hside]
      exact (hkept v).trans ⟨fun hv => ⟨((hcolored.mem_whole hcolor hside v).mp hv.1).1, hv.2⟩,
        fun hv => ⟨h.mem_of_map hcolored hcolor hside hv.1 (.inl hv.2), hv.2⟩⟩
    · rw [update_of_ne hcolor']
      exact h.mem_colors hcolored hcolor hside hcolor' hc v
  case mapped =>
    intro s v hv
    show moved.colorMap s v < moved.totalColorsSeen ∧
      (update moved.colors color _ (moved.colorMap s v)).side = s
    rw [hsideOf]
    exact h.mapped hcolored hcolor hside s hv
  case nonempty =>
    intro c hc
    show (update moved.colors color _ c).vertices.Nonempty
    by_cases hcolor' : c = color
    · rw [hcolor', update_self]
      exact hne
    · rw [update_of_ne hcolor']
      by_cases hold : c < state.totalColorsSeen
      · rw [h.colors c hold]
        exact hcolored.nonempty c hold
      · exact (h.new c (not_lt.mp hold) hc).2.2.1
  case active =>
    intro c hc
    show (update moved.colors color _ c).active = true
    by_cases hcolor' : c = color
    · rw [hcolor', update_self]
    · rw [update_of_ne hcolor']
      by_cases hold : c < state.totalColorsSeen
      · rw [h.colors c hold]
        exact hcolored.active c hold
      · exact (h.new c (not_lt.mp hold) hc).2.1
  case stack_lt =>
    intro c hc
    rcases (h.stack c).mp hc with hold | ⟨_, hlt⟩
    · exact lt_of_lt_of_le (hcolored.stack_lt c hold) h.total_le
    · exact hlt
  case stack_nodup => exact h.stack_nodup
  case count =>
    intro s
    show moved.numSideColors s = ((Finset.range moved.totalColorsSeen).filter fun c =>
      (update moved.colors color _ c).side = s).card
    rw [h.count]
    congr 1
    apply Finset.filter_congr
    intro c _
    rw [hsideOf]

/-- The parts have left the color. -/
lemma Splitting.splitOff (key : K)
    (hkey : ∀ v ∈ (state.colors color).vertices, sum v ∉ done → sum v = key) :
    SplitOff size side sum color state
      { moved with colors := update moved.colors color ⟨side, true, kept⟩ } := by
  have hwhole := hcolored.mem_whole hcolor hside
  have hsideOf := h.side_update hcolor hside kept
  constructor
  case colored => exact h.colored hcolored hcolor hside hkept hne
  case total_le => exact h.total_le
  case map_other => exact h.map_other
  case map =>
    intro v hv
    by_cases hmem : v ∈ (state.colors color).vertices
    · have hold := ((hwhole v).mp hmem).2
      rcases h.map_in v hmem with heq | ⟨hle, _⟩
      · exact .inl (heq.trans hold.symm)
      · exact .inr ⟨hold, hle⟩
    · exact .inl (h.map_out v hmem)
  case colors =>
    intro c hc hne
    show update moved.colors color _ c = _
    rw [update_of_ne hne, h.colors c hc]
  case side_eq =>
    intro c hc
    show (update moved.colors color _ c).side = _
    rw [hsideOf, h.colors c hc]
  case new_side =>
    intro c hle hlt
    show (update moved.colors color _ c).side = _
    rw [hsideOf]
    exact (h.new c hle hlt).1
  case stack => exact h.stack
  case sums =>
    intro v hv w hw hvc hwc heq
    have hv' := (hwhole v).mpr ⟨hv, hvc⟩
    have hw' := (hwhole w).mpr ⟨hw, hwc⟩
    by_cases hmoved : moved.colorMap side v = color
    · have hkey' : ∀ u ∈ (state.colors color).vertices, moved.colorMap side u = color →
          sum u = key := fun u hu hstay => hkey u hu fun hmem => (h.taken u hu).mpr hmem hstay
      rw [hkey' v hv' hmoved, hkey' w hw' (heq.symm.trans hmoved)]
    · exact h.sums v hv' w hw' hmoved heq

end Kept

variable [AddCommMonoid K] [LinearOrder K] {order : IterationOrder} {sums : RefinedSums K}

/-- A color whose vertices have several sums is split. -/
lemma splitColors_splitOff (order : IterationOrder) (hcolored : Colored size state)
    (hcolor : color < state.totalColorsSeen) (hside : (state.colors color).side = side)
    (ht : Touches sums state color) (hseveral : (partSums sums state color).length ≠ 1) :
    ∃ state', splitColors order side sums state color = some state' ∧
      SplitOff size side sums.vertexToSum color state state' ∧
      KeepsTogether size side sums.vertexToSum state state' := by
  have hkeys : partSums sums state color ≠ [] := by
    obtain ⟨v, hv⟩ := hcolored.nonempty color hcolor
    have hmem : sums.vertexToSum v ∈ partSums sums state color :=
      ht.mem_partSums.mpr ⟨v, mem_part.mpr ⟨hv, rfl⟩⟩
    exact ne_nil_of_mem hmem
  obtain ⟨key, hkey, hlargest⟩ :=
    largestSum_mem (sumToSize sums state color) hkeys
  simp only [splitColors, hlargest, Option.some.injEq]
  set adjustZero : Bool := decide (¬key = 0 ∧ 0 ∈ partSums sums state color) with hadjust
  set vertices := partVertices order sums state color adjustZero with hvertices
  have hsize : ∀ sum ∈ partSums sums state color,
      (vertices sum).length + (if sum = 0 ∧ adjustZero = false then
        (state.colors color).vertices.card - (sums.verticesToRefineByColor color).length else 0) =
          sumToSize sums state color sum := by
    intro sum hsum
    by_cases hzero : sum = 0 ∧ adjustZero = false
    · rw [if_pos hzero, sumToSize, if_pos hzero.1, hvertices, hzero.2]
      simp [partVertices]
    · rw [if_neg hzero, add_zero, hvertices, ht.sumToSize_eq, ht.length_partVertices]
      exact fun heq => Bool.not_eq_false _ ▸ fun hfalse => hzero ⟨heq, hfalse⟩
  -- only the first part of the largest size stays
  have hrest : (partSums sums state color).filter (fun sum => !decide (key = sum ∧
      (vertices sum).length + (if sum = 0 ∧ adjustZero = false then
        (state.colors color).vertices.card - (sums.verticesToRefineByColor color).length else 0) =
          sumToSize sums state color sum)) =
      (partSums sums state color).filter fun sum => key ≠ sum := by
    apply List.filter_congr
    intro sum hsum
    simp [hsize sum hsum]
  have hcount : ((partSums sums state color).map fun sum => (vertices sum).length +
      (if sum = 0 ∧ adjustZero = false then
        (state.colors color).vertices.card - (sums.verticesToRefineByColor color).length else 0)).sum =
      (state.colors color).vertices.card := by
    rw [List.map_congr_left hsize, ← List.sum_toFinset _ nodup_partSums,
      card_eq_sum_card_image sums.vertexToSum]
    have hkeys : (partSums sums state color).toFinset =
        (state.colors color).vertices.image sums.vertexToSum := by
      ext sum
      rw [mem_toFinset, ht.mem_partSums, Finset.mem_image]
      exact exists_congr fun v => mem_part
    rw [hkeys]
    exact sum_congr rfl fun sum _ => ht.sumToSize_eq
  rw [hrest]
  set rest := (partSums sums state color).filter fun sum => key ≠ sum with hrestDef
  have hmemRest : ∀ sum, sum ∈ rest ↔ sum ∈ partSums sums state color ∧ key ≠ sum := by
    intro sum
    rw [hrestDef, mem_filter, decide_eq_true_eq]
  have hadjustRest : ∀ sum ∈ rest, sum = 0 → adjustZero = true := by
    intro sum hsum hzero
    obtain ⟨hmem, hne⟩ := (hmemRest sum).mp hsum
    rw [hadjust, decide_eq_true_eq]
    exact ⟨fun heq => hne (heq.trans hzero.symm), hzero ▸ hmem⟩
  have hparts : ∀ sum ∈ rest, ∀ v, v ∈ vertices sum ↔
      v ∈ (state.colors color).vertices ∧ sums.vertexToSum v = sum := by
    intro sum hsum v
    rw [hvertices, ht.mem_partVertices (hadjustRest sum hsum), mem_part]
  have hne : ∀ sum ∈ rest, vertices sum ≠ [] := by
    intro sum hsum
    obtain ⟨v, hv⟩ := ht.mem_partSums.mp ((hmemRest sum).mp hsum).1
    exact ne_nil_of_mem ((hparts sum hsum v).mpr (mem_part.mp hv))
  have hsplit := (Splitting.initial sums.vertexToSum hcolored hcolor hside).addAll rest
    hcolor hcolored.stack_lt (nodup_partSums.filter _) hparts hne
  rw [nil_append] at hsplit
  have hle : ¬(state.colors color).vertices.card < (sums.verticesToRefineByColor color).length := by
    rw [not_lt, ← ht.card_toFinset]
    exact card_le_card ht.toFinset_subset
  rw [if_neg hle, if_neg hseveral, if_neg (not_not.mpr hcount)]
  set moved := rest.foldl (fun state sum => addColor side state (vertices sum)) state with hmoved
  set kept := (state.colors color).vertices.filter fun v =>
    ¬(v ∈ sums.verticesToRefineByColor color ∧ moved.colorMap side v ≠ color) ∧
      ¬(¬key = 0 ∧ v ∈ vertices 0) with hkeptDef
  have hkept : ∀ v, v ∈ kept ↔
      v ∈ (state.colors color).vertices ∧ moved.colorMap side v = color := by
    intro v
    rw [hkeptDef, Finset.mem_filter]
    constructor
    · rintro ⟨hv, htouched, hzero⟩
      refine ⟨hv, ?_⟩
      by_contra hgone
      have hnot : v ∉ sums.verticesToRefineByColor color := fun hmem => htouched ⟨hmem, hgone⟩
      have hsum := (hsplit.taken v hv).mp hgone
      rw [ht.zero v hv hnot] at hsum
      exact hzero ⟨((hmemRest 0).mp hsum).2, (hparts 0 hsum v).mpr ⟨hv, ht.zero v hv hnot⟩⟩
    · rintro ⟨hv, hstay⟩
      refine ⟨hv, fun hand => hand.2 hstay, fun hand => ?_⟩
      have hsum := (mem_part.mp (ht.mem_part_of_mem_partVertices hand.2)).2
      have hmem : sums.vertexToSum v ∈ rest := by
        rw [hmemRest, hsum]
        refine ⟨ht.mem_partSums.mpr ⟨v, mem_part.mpr ⟨hv, hsum⟩⟩, hand.1⟩
      exact (hsplit.taken v hv).mpr hmem hstay
  have hkeptNe : kept.Nonempty := by
    obtain ⟨v, hv⟩ := ht.mem_partSums.mp hkey
    obtain ⟨hv, hsum⟩ := mem_part.mp hv
    refine ⟨v, (hkept v).mpr ⟨hv, ?_⟩⟩
    by_contra hgone
    have hmem := (hsplit.taken v hv).mp hgone
    rw [hsum] at hmem
    exact ((hmemRest key).mp hmem).2 rfl
  have hresult := hsplit.splitOff hcolored hcolor hside hkept hkeptNe key (by
    intro v hv hnot
    by_contra hother
    apply hnot
    rw [hmemRest]
    exact ⟨ht.mem_partSums.mpr ⟨v, mem_part.mpr ⟨hv, rfl⟩⟩, fun heq => hother heq.symm⟩)
  have hcard : ¬kept.card = 0 := card_ne_zero.mpr hkeptNe
  have hold : moved.colors color = state.colors color := hsplit.colors color hcolor
  refine ⟨_, rfl, ?_, fun v hv w hw heq hsum => ?_⟩
  · convert hresult using 1
    simp [hcard, hold, hside, hcolored.active color hcolor]
  · apply colorMap_foldl_addColor rest _ heq
    intro sum hrest
    rw [hparts sum hrest, hparts sum hrest, hcolored.mem color hcolor, hcolored.mem color hcolor, hside,
      heq, hsum]
    simp [hv, hw]

end SplitColors

section Sums

variable {K : Type*} [AddCommMonoid K] {A : WeightMatrix K} {order : IterationOrder}
  {state : Coloring} {color : ℕ}

def WeightMatrix.InRange (A : WeightMatrix K) : Prop := ∀ j < A.n, ∀ p ∈ A.col j, p.1 < A.m

omit [AddCommMonoid K] in
theorem WeightMatrix.InRange.line_lt (h : A.InRange) {side : Side} {u : ℕ} (hu : u < A.size side)
    {p : ℕ × K} (hp : p ∈ A.line side u) : p.1 < A.size side.other := by
  cases side with
  | row =>
    obtain ⟨j, hj, hp⟩ := mem_flatMap.mp hp
    obtain ⟨q, _, rfl⟩ := List.mem_map.mp hp
    exact List.mem_range.mp hj
  | col => exact h u hu p hp

variable {v c : ℕ}

lemma lineSum_eq_zero {l : List (ℕ × K)} (h : v ∉ l.map Prod.fst) : lineSum l v = 0 := by
  have hempty : l.filter (fun p => p.1 = v) = [] := by
    apply filter_eq_nil_iff.mpr
    intro p hp heq
    exact h (List.mem_map.mpr ⟨p, hp, of_decide_eq_true heq⟩)
  rw [lineSum, hempty]
  rfl

lemma lineSum_flatMap (l : List ℕ) (line : ℕ → List (ℕ × K)) (v : ℕ) :
    lineSum (l.flatMap line) v = (l.map fun u => lineSum (line u) v).sum := by
  induction l with
  | nil => rfl
  | cons u l ih =>
    rw [List.map_cons, List.sum_cons, ← ih, flatMap_cons]
    simp only [lineSum, filter_append, map_append, sum_append]

lemma IterationOrder.sum_map (order : IterationOrder) (c : ℕ) (s : Finset ℕ) (f : ℕ → K) :
    ((order.list c s).map f).sum = ∑ u ∈ s, f u := by
  have hset : (order.list c s).toFinset = s := by
    ext v
    rw [mem_toFinset, order.mem_list]
  rw [← sum_toFinset f (order.nodup c s), hset]

lemma vertexToSum_computeSums (v : ℕ) : (computeSums A order state color).vertexToSum v =
    ∑ u ∈ (state.colors color).vertices, lineSum (A.line (state.colors color).side u) v := by
  rw [← order.sum_map color]
  exact lineSum_flatMap _ _ _

lemma touches_computeSums (hA : A.InRange) (hcolored : Colored A.size state)
    (hcolor : color < state.totalColorsSeen) (hc : c < state.totalColorsSeen)
    (hside : (state.colors c).side = (state.colors color).side.other) :
    Touches (computeSums A order state color) state c := by
  have hmem : ∀ v, v ∈ (computeSums A order state color).verticesToRefineByColor c ↔
      v ∈ ((order.list color (state.colors color).vertices).flatMap
        (A.line (state.colors color).side)).map Prod.fst ∧
        state.colorMap (state.colors color).side.other v = c := by
    intro v
    show v ∈ (distinct _).filter _ ↔ _
    rw [mem_filter, mem_distinct, decide_eq_true_eq]
  constructor
  case nodup => exact (nodup_distinct _).filter _
  case mem =>
    intro v hv
    obtain ⟨hentry, hmap⟩ := (hmem v).mp hv
    obtain ⟨p, hp, rfl⟩ := List.mem_map.mp hentry
    obtain ⟨u, hu, hp⟩ := mem_flatMap.mp hp
    have hu' := ((hcolored.mem color hcolor u).mp ((order.mem_list _ _ _).mp hu)).1
    rw [hcolored.mem c hc, hside]
    exact ⟨hA.line_lt hu' hp, hmap⟩
  case zero =>
    intro v hv hnot
    apply lineSum_eq_zero
    intro hentry
    apply hnot
    rw [hmem]
    refine ⟨hentry, ?_⟩
    rw [← hside]
    exact ((hcolored.mem c hc v).mp hv).2

lemma mem_colorsToUpdate (hv : v ∈ (computeSums A order state color).verticesToRefineByColor c) :
    c ∈ (computeSums A order state color).colorsToUpdate := by
  have hv' : v ∈ (distinct _).filter _ := hv
  rw [mem_filter, decide_eq_true_eq] at hv'
  show c ∈ distinct _
  rw [mem_distinct]
  exact List.mem_map.mpr ⟨v, hv'.1, hv'.2⟩

lemma colorsToUpdate_lt (hA : A.InRange) (hcolored : Colored A.size state)
    (hcolor : color < state.totalColorsSeen)
    (hc : c ∈ (computeSums A order state color).colorsToUpdate) : c < state.totalColorsSeen ∧
      (state.colors c).side = (state.colors color).side.other := by
  have hc' : c ∈ distinct _ := hc
  rw [mem_distinct] at hc'
  obtain ⟨v, hv, rfl⟩ := List.mem_map.mp hc'
  rw [mem_distinct] at hv
  obtain ⟨p, hp, rfl⟩ := List.mem_map.mp hv
  obtain ⟨u, hu, hp⟩ := mem_flatMap.mp hp
  have hu' := ((hcolored.mem color hcolor u).mp ((order.mem_list _ _ _).mp hu)).1
  exact hcolored.mapped _ _ (hA.line_lt hu' hp)

variable [LinearOrder K] {sums : RefinedSums K}

omit [AddCommMonoid K] in
theorem le_foldl_max (l : List K) (a : K) : a ≤ l.foldl max a ∧ ∀ b ∈ l, b ≤ l.foldl max a := by
  induction l using List.reverseRecOn with
  | nil => exact ⟨le_refl a, fun b hb => absurd hb not_mem_nil⟩
  | append_singleton l x ih =>
    rw [foldl_concat]
    refine ⟨le_max_of_le_left ih.1, fun b hb => ?_⟩
    rcases mem_append.mp hb with hb | hb
    · exact le_max_of_le_left (ih.2 b hb)
    · rw [List.mem_singleton.mp hb]
      exact le_max_right _ _

omit [AddCommMonoid K] in
theorem foldl_min_le (l : List K) (a : K) : ∀ b ∈ l, l.foldl min a ≤ b :=
  (le_foldl_max (K := Kᵒᵈ) l a).2

lemma minMaxSum_bounds (ht : Touches sums state color) (hv : v ∈ (state.colors color).vertices) :
    (minMaxSum sums state color).1 ≤ sums.vertexToSum v ∧
      sums.vertexToSum v ≤ (minMaxSum sums state color).2 := by
  set seen := (sums.verticesToRefineByColor color).map sums.vertexToSum with hseen
  by_cases hmem : v ∈ sums.verticesToRefineByColor color
  · have hin : sums.vertexToSum v ∈ seen := List.mem_map_of_mem hmem
    have hmax := (le_foldl_max seen (seen.headD 0)).2 _ hin
    have hmin := foldl_min_le seen (seen.foldl max (seen.headD 0)) _ hin
    simp only [minMaxSum, ← hseen]
    split_ifs
    · exact ⟨min_le_of_left_le hmin, le_max_of_le_left hmax⟩
    · exact ⟨hmin, hmax⟩
  · have hne := ht.length_ne_iff.mpr ⟨v, hv, hmem⟩
    rw [ht.zero v hv hmem]
    simp only [minMaxSum, if_pos hne]
    exact ⟨min_le_right _ _, le_max_right _ _⟩

omit [AddCommMonoid K] [LinearOrder K] in
theorem foldl_eq_of_forall {op : K → K → K} {a : K} {l : List K} (hop : op a a = a)
    (h : ∀ b ∈ l, b = a) : l.foldl op a = a := by
  induction l with
  | nil => rfl
  | cons b l ih =>
    rw [foldl_cons, h b mem_cons_self, hop]
    exact ih fun c hc => h c (List.mem_cons_of_mem _ hc)

/-- A color that is to be split has several sums. -/
lemma length_partSums_ne_one (ht : Touches sums state color)
    (hsplit : (minMaxSum sums state color).1 < (minMaxSum sums state color).2) :
    (partSums sums state color).length ≠ 1 := by
  intro hone
  obtain ⟨sum, hsum⟩ := List.length_eq_one_iff.mp hone
  have hall : ∀ v ∈ (state.colors color).vertices, sums.vertexToSum v = sum := by
    intro v hv
    have hmem := ht.mem_partSums.mpr ⟨v, mem_part.mpr ⟨hv, rfl⟩⟩
    rwa [hsum, List.mem_singleton] at hmem
  have hzero : (sums.verticesToRefineByColor color).length ≠ (state.colors color).vertices.card →
      (0 : K) = sum := by
    intro hne
    obtain ⟨v, hv, hnot⟩ := ht.length_ne_iff.mp hne
    rw [← ht.zero v hv hnot, hall v hv]
  have hseen : ∀ b ∈ (sums.verticesToRefineByColor color).map sums.vertexToSum, b = sum := by
    rw [List.forall_mem_map]
    exact fun v hv => hall v (ht.mem v hv)
  have hhead : sums.verticesToRefineByColor color ≠ [] →
      ((sums.verticesToRefineByColor color).map sums.vertexToSum).headD 0 = sum := by
    intro hne
    obtain ⟨v, l, heq⟩ := exists_cons_of_ne_nil hne
    rw [heq]
    exact hall v (ht.mem v (heq ▸ mem_cons_self))
  by_cases hnil : sums.verticesToRefineByColor color = []
  · simp [minMaxSum, hnil] at hsplit
  · simp only [minMaxSum, hhead hnil, foldl_eq_of_forall (max_self sum) hseen,
      foldl_eq_of_forall (min_self sum) hseen] at hsplit
    split_ifs at hsplit with hne
    · rw [← hzero hne, min_self, max_self] at hsplit
      exact lt_irrefl _ hsplit
    · exact lt_irrefl _ hsplit

lemma vertexToSum_eq_of_not_split (ht : Touches sums state color)
    (hsplit : ¬(minMaxSum sums state color).1 < (minMaxSum sums state color).2) {w : ℕ}
    (hv : v ∈ (state.colors color).vertices) (hw : w ∈ (state.colors color).vertices) :
    sums.vertexToSum v = sums.vertexToSum w := by
  obtain ⟨hvmin, hvmax⟩ := minMaxSum_bounds ht hv
  obtain ⟨hwmin, hwmax⟩ := minMaxSum_bounds ht hw
  have hle := not_lt.mp hsplit
  exact le_antisymm (hvmax.trans (hle.trans hwmin)) (hwmax.trans (hle.trans hvmin))

end Sums

section Round

variable {K : Type*} {size : Side → ℕ} {side : Side} {sum : ℕ → K} {color refiningColor : ℕ}
  {state state' : Coloring} {done : List ℕ}

lemma Side.other_ne (side : Side) : side.other ≠ side := by
  cases side <;> decide

lemma Side.eq_other {side s : Side} (h : s ≠ side) : s = side.other := by
  cases side <;> cases s <;> first | rfl | exact absurd rfl h

lemma Side.other_other (side : Side) : side.other.other = side := by
  cases side <;> rfl

structure SplitAll (size : Side → ℕ) (side : Side) (sum : ℕ → K) (colors : List ℕ)
    (state state' : Coloring) : Prop where
  colored : Colored size state'
  total_le : state.totalColorsSeen ≤ state'.totalColorsSeen
  map_other : ∀ s, s ≠ side → state'.colorMap s = state.colorMap s
  side_eq : ∀ c < state.totalColorsSeen, (state'.colors c).side = (state.colors c).side
  stack : ∀ c, c ∈ state'.colorStack ↔
    c ∈ state.colorStack ∨ state.totalColorsSeen ≤ c ∧ c < state'.totalColorsSeen
  finer : ∀ v < size side, ∀ w < size side,
    state'.colorMap side v = state'.colorMap side w → state.colorMap side v = state.colorMap side w
  sums : ∀ v < size side, ∀ w < size side, state.colorMap side v ∈ colors →
    state'.colorMap side v = state'.colorMap side w → sum v = sum w

lemma SplitOff.finer (h : SplitOff size side sum color state state')
    (hcolored : Colored size state) {v w : ℕ} (hv : v < size side) (hw : w < size side)
    (heq : state'.colorMap side v = state'.colorMap side w) :
    state.colorMap side v = state.colorMap side w := by
  have hvlt := (hcolored.mapped side v hv).1
  have hwlt := (hcolored.mapped side w hw).1
  rcases h.map v hv with hveq | ⟨hvc, hvnew⟩
  · rcases h.map w hw with hweq | ⟨_, hwnew⟩
    · rw [← hveq, heq, hweq]
    · omega
  · rcases h.map w hw with hweq | ⟨hwc, _⟩
    · omega
    · rw [hvc, hwc]

variable {G : Type*} [AddCommGroup G] {weight : Side → ℕ → ℕ → G}

def AllSettled (weight : Side → ℕ → ℕ → G) (size : Side → ℕ) (waiting : List ℕ)
    (state : Coloring) : Prop :=
  ∀ c < state.totalColorsSeen, c ∉ waiting →
    Settled (weight (state.colors c).side) (Finset.range (size (state.colors c).side))
      (state.colorMap (state.colors c).side) (Finset.range (size (state.colors c).side.other))
      (state.colorMap (state.colors c).side.other) waiting c

lemma SplitOff.allSettled (h : SplitOff size side sum color state state')
    (hcolored : Colored size state) (hrefining : refiningColor < state.totalColorsSeen)
    (hsettled : AllSettled weight size (refiningColor :: state.colorStack) state) :
    AllSettled weight size (refiningColor :: state'.colorStack) state' := by
  intro c hc hwait
  rw [List.mem_cons, not_or] at hwait
  have hold : c < state.totalColorsSeen := by
    by_contra hnew
    exact hwait.2 ((h.stack c).mpr (.inr ⟨not_lt.mp hnew, hc⟩))
  have hmono : ∀ d ∈ refiningColor :: state.colorStack, d ∈ refiningColor :: state'.colorStack := by
    intro d hd
    rcases List.mem_cons.mp hd with rfl | hd
    · exact mem_cons_self
    · exact List.mem_cons_of_mem _ ((h.stack d).mpr (.inl hd))
  have hbefore := hsettled c hold (by
    rw [List.mem_cons, not_or]
    exact ⟨hwait.1, fun hd => hwait.2 ((h.stack c).mpr (.inl hd))⟩)
  rw [h.side_eq c hold]
  by_cases hside : (state.colors c).side = side
  · rw [hside] at hbefore ⊢
    rw [h.map_other _ side.other_ne]
    apply hbefore.split color (Finset.Ico state.totalColorsSeen state'.totalColorsSeen)
    · intro d hd
      obtain ⟨hle, _⟩ := mem_Ico.mp hd
      refine ⟨by omega, fun hmem => ?_⟩
      rcases List.mem_cons.mp hmem with rfl | hmem
      · omega
      · have := hcolored.stack_lt d hmem
        omega
    · intro u hu hmem
      have hlt := (hcolored.mapped side u (Finset.mem_range.mp hu)).1
      exact absurd (mem_Ico.mp hmem).1 (not_le.mpr hlt)
    · intro u hu
      rcases h.map u (Finset.mem_range.mp hu) with heq | ⟨hq, hle⟩
      · exact .inl heq
      · refine .inr ⟨hq, mem_Ico.mpr ⟨hle, ?_⟩⟩
        exact (h.colored.mapped side u (Finset.mem_range.mp hu)).1
    · exact hmono
    · intro d hd
      obtain ⟨hle, hlt⟩ := mem_Ico.mp hd
      exact List.mem_cons_of_mem _ ((h.stack d).mpr (.inr ⟨hle, hlt⟩))
  · have hother := Side.eq_other hside
    rw [h.map_other _ hside]
    rw [hother, side.other_other] at hbefore ⊢
    apply (hbefore.mono hmono).finer
    intro v hv w hw heq
    exact h.finer hcolored (Finset.mem_range.mp hv) (Finset.mem_range.mp hw) heq

variable [AddCommMonoid K] [LinearOrder K] {order : IterationOrder} {sums : RefinedSums K}

omit [LinearOrder K] in
theorem Touches.congr (h : Touches sums state color)
    (heq : state'.colors color = state.colors color) : Touches sums state' color := by
  constructor
  case nodup => exact h.nodup
  case mem =>
    rw [heq]
    exact h.mem
  case zero =>
    rw [heq]
    exact h.zero

lemma foldlM_splitColors (order : IterationOrder) (colors : List ℕ) (hcolored : Colored size state)
    (hnodup : colors.Nodup) (hcolors : ∀ c ∈ colors, c < state.totalColorsSeen ∧
      (state.colors c).side = side ∧ Touches sums state c ∧ (partSums sums state c).length ≠ 1)
    (hrefining : refiningColor < state.totalColorsSeen)
    (hsettled : AllSettled weight size (refiningColor :: state.colorStack) state) :
    ∃ state', colors.foldlM (splitColors order side sums) state = some state' ∧
      SplitAll size side sums.vertexToSum colors state state' ∧
      AllSettled weight size (refiningColor :: state'.colorStack) state' ∧
      KeepsTogether size side sums.vertexToSum state state' := by
  induction colors generalizing state with
  | nil =>
    refine ⟨state, rfl, ⟨hcolored, le_refl _, fun _ _ => rfl, fun _ _ => rfl, fun c => ?_,
      fun _ _ _ _ heq => heq, fun _ _ _ _ hmem => absurd hmem not_mem_nil⟩, hsettled,
      fun _ _ _ _ heq _ => heq⟩
    constructor
    · exact Or.inl
    · rintro (hmem | ⟨hle, hlt⟩)
      · exact hmem
      · exact absurd hlt (not_lt.mpr hle)
  | cons c colors ih =>
    obtain ⟨hlt, hside, ht, hseveral⟩ := hcolors c mem_cons_self
    obtain ⟨middle, hfirst, hoff, hkeeps⟩ :=
      splitColors_splitOff order hcolored hlt hside ht hseveral
    have hcolors' : ∀ d ∈ colors, d < middle.totalColorsSeen ∧ (middle.colors d).side = side ∧
        Touches sums middle d ∧ (partSums sums middle d).length ≠ 1 := by
      intro d hd
      obtain ⟨hdlt, hdside, hdt, hdseveral⟩ := hcolors d (List.mem_cons_of_mem _ hd)
      have hne : d ≠ c := fun heq => (nodup_cons.mp hnodup).1 (heq ▸ hd)
      have hsame := hoff.colors d hdlt hne
      refine ⟨lt_of_lt_of_le hdlt hoff.total_le, by rw [hsame, hdside], hdt.congr hsame, ?_⟩
      rwa [partSums, hsame]
    obtain ⟨state', hrest, hall, hset, hkeeps'⟩ := ih hoff.colored (nodup_cons.mp hnodup).2 hcolors'
      (lt_of_lt_of_le hrefining hoff.total_le) (hoff.allSettled hcolored hrefining hsettled)
    refine ⟨state', by rw [foldlM_cons, hfirst]; exact hrest, ?_, hset, fun v hv w hw heq hsum =>
      hkeeps' v hv w hw (hkeeps v hv w hw heq hsum) hsum⟩
    constructor
    case colored => exact hall.colored
    case total_le => exact hoff.total_le.trans hall.total_le
    case map_other =>
      intro s hs
      rw [hall.map_other s hs, hoff.map_other s hs]
    case side_eq =>
      intro d hd
      rw [hall.side_eq d (lt_of_lt_of_le hd hoff.total_le), hoff.side_eq d hd]
    case stack =>
      intro d
      have hfirstLe := hoff.total_le
      have hrestLe := hall.total_le
      rw [hall.stack d, hoff.stack d]
      constructor
      · rintro ((hmem | ⟨hle, hlt⟩) | ⟨hle, hlt⟩)
        · exact .inl hmem
        · exact .inr ⟨hle, lt_of_lt_of_le hlt hrestLe⟩
        · exact .inr ⟨hfirstLe.trans hle, hlt⟩
      · rintro (hmem | ⟨hle, hlt⟩)
        · exact .inl (.inl hmem)
        · by_cases hmid : d < middle.totalColorsSeen
          · exact .inl (.inr ⟨hle, hmid⟩)
          · exact .inr ⟨not_lt.mp hmid, hlt⟩
    case finer =>
      intro v hv w hw heq
      exact hoff.finer hcolored hv hw (hall.finer v hv w hw heq)
    case sums =>
      intro v hv w hw hmem heq
      have hmiddle := hall.finer v hv w hw heq
      have hbefore := hoff.finer hcolored hv hw hmiddle
      by_cases hvc : state.colorMap side v = c
      · exact hoff.sums v hv w hw hvc (hbefore.symm.trans hvc) hmiddle
      · have hkeep : middle.colorMap side v = state.colorMap side v := by
          rcases hoff.map v hv with hsame | ⟨hc, _⟩
          · exact hsame
          · exact absurd hc hvc
        have hmem' := (List.mem_cons.mp hmem).resolve_left hvc
        exact hall.sums v hv w hw (hkeep ▸ hmem') heq

end Round

section Loop

variable {K G : Type*} [AddCommMonoid K] [AddCommGroup G] {A : WeightMatrix K}
  {weight : Side → ℕ → ℕ → G} {order : IterationOrder} {state state' : Coloring}
  {refiningColor : ℕ} {thresholds : ColorThresholds}

def TracksWeight (A : WeightMatrix K) (weight : Side → ℕ → ℕ → G) : Prop :=
  ∀ side, ∀ lines ⊆ Finset.range (A.size side),
    ∀ v < A.size side.other, ∀ w < A.size side.other,
      ∑ u ∈ lines, lineSum (A.line side u) v = ∑ u ∈ lines, lineSum (A.line side u) w →
        ∑ u ∈ lines, weight side u v = ∑ u ∈ lines, weight side u w

omit [AddCommMonoid K] in
theorem Colored.vertices_eq (hcolored : Colored A.size state) {c : ℕ}
    (hc : c < state.totalColorsSeen) : (state.colors c).vertices =
      classOf (Finset.range (A.size (state.colors c).side))
        (state.colorMap (state.colors c).side) {c} := by
  ext v
  rw [hcolored.mem c hc, classOf, Finset.mem_filter, Finset.mem_range, Finset.mem_singleton]

omit [AddCommMonoid K] in
theorem Colored.vertices_subset (hcolored : Colored A.size state) {c : ℕ}
    (hc : c < state.totalColorsSeen) :
    (state.colors c).vertices ⊆ Finset.range (A.size (state.colors c).side) := by
  rw [hcolored.vertices_eq hc]
  exact Finset.filter_subset _ _

omit [AddCommMonoid K] in
/-- There are not more colors than vertices. -/
theorem Colored.total_le (hcolored : Colored A.size state) : state.totalColorsSeen ≤ A.m + A.n := by
  have hsub : Finset.range state.totalColorsSeen ⊆
      (Finset.range A.m).image (state.colorMap .row) ∪
        (Finset.range A.n).image (state.colorMap .col) := by
    intro c hc
    have hlt := Finset.mem_range.mp hc
    obtain ⟨v, hv⟩ := hcolored.nonempty c hlt
    obtain ⟨hvlt, hmap⟩ := (hcolored.mem c hlt v).mp hv
    rw [Finset.mem_union]
    cases hside : (state.colors c).side with
    | row =>
      rw [hside] at hvlt hmap
      exact Or.inl (mem_image.mpr ⟨v, Finset.mem_range.mpr hvlt, hmap⟩)
    | col =>
      rw [hside] at hvlt hmap
      exact Or.inr (mem_image.mpr ⟨v, Finset.mem_range.mpr hvlt, hmap⟩)
  calc
    state.totalColorsSeen = (Finset.range state.totalColorsSeen).card :=
      (card_range _).symm
    _ ≤ _ := card_le_card hsub
    _ ≤ _ := card_union_le _ _
    _ ≤ (Finset.range A.m).card + (Finset.range A.n).card :=
      Nat.add_le_add card_image_le card_image_le
    _ = A.m + A.n := by rw [card_range, card_range]

/-- Vertices that `P` puts together have one color. -/
def Refines (size : Side → ℕ) (P : Side → ℕ → ℕ) (state : Coloring) : Prop :=
  ∀ side, ∀ v < size side, ∀ w < size side, P side v = P side w →
    state.colorMap side v = state.colorMap side w

/-- Lines of one part of `P` have equal sums over every part of the other side. -/
def Equitable (A : WeightMatrix K) (P : Side → ℕ → ℕ) : Prop :=
  ∀ side d, ∀ v < A.size side.other, ∀ w < A.size side.other, P side.other v = P side.other w →
    ∑ u ∈ classOf (Finset.range (A.size side)) (P side) {d}, lineSum (A.line side u) v =
      ∑ u ∈ classOf (Finset.range (A.size side)) (P side) {d}, lineSum (A.line side u) w

/-- A color is a union of parts. -/
lemma Equitable.sum_eq {P : Side → ℕ → ℕ} (hP : Equitable A P) (hrefines : Refines A.size P state)
    (hcolored : Colored A.size state) {c : ℕ} (hc : c < state.totalColorsSeen) {side : Side}
    (hside : (state.colors c).side = side) {v w : ℕ} (hv : v < A.size side.other)
    (hw : w < A.size side.other) (heq : P side.other v = P side.other w) :
    ∑ u ∈ (state.colors c).vertices, lineSum (A.line side u) v =
      ∑ u ∈ (state.colors c).vertices, lineSum (A.line side u) w := by
  have hmem := hcolored.mem c hc
  rw [hside] at hmem
  have hparts : ∀ d ∈ (state.colors c).vertices.image (P side),
      (state.colors c).vertices.filter (fun u => P side u = d) =
        classOf (Finset.range (A.size side)) (P side) {d} := by
    intro d hd
    obtain ⟨u₀, hu₀, rfl⟩ := Finset.mem_image.mp hd
    obtain ⟨hlt, hmap⟩ := (hmem u₀).mp hu₀
    ext u
    rw [Finset.mem_filter, classOf, Finset.mem_filter, Finset.mem_range, Finset.mem_singleton, hmem]
    constructor
    · exact fun h => ⟨h.1.1, h.2⟩
    · exact fun h => ⟨⟨h.1, (hrefines side u h.1 u₀ hlt h.2).trans hmap⟩, h.2⟩
  have hmaps : ∀ u ∈ (state.colors c).vertices, P side u ∈ (state.colors c).vertices.image (P side) :=
    fun u hu => mem_image_of_mem (P side) hu
  rw [← sum_fiberwise_of_maps_to hmaps, ← sum_fiberwise_of_maps_to hmaps]
  refine sum_congr rfl fun d hd => ?_
  rw [hparts d hd]
  exact hP side d v hv w hw heq

variable [LinearOrder K]

omit [AddCommMonoid K] [LinearOrder K] in
/-- The new colors are those that the stack has gained. -/
theorem SplitAll.length_stack {size : Side → ℕ} {side : Side} {sum : ℕ → K} {colors : List ℕ}
    (h : SplitAll size side sum colors state state') (hcolored : Colored size state) :
    state'.colorStack.length + state.totalColorsSeen =
      state.colorStack.length + state'.totalColorsSeen := by
  have hunion : state'.colorStack.toFinset = state.colorStack.toFinset ∪
      Finset.Ico state.totalColorsSeen state'.totalColorsSeen := by
    ext c
    rw [mem_toFinset, h.stack c, Finset.mem_union, mem_toFinset, mem_Ico]
  have hdisjoint : Disjoint state.colorStack.toFinset
      (Finset.Ico state.totalColorsSeen state'.totalColorsSeen) := by
    rw [Finset.disjoint_left]
    intro c hc hnew
    have := hcolored.stack_lt c (mem_toFinset.mp hc)
    have := (mem_Ico.mp hnew).1
    omega
  have hcard := congrArg Finset.card hunion
  rw [card_union_of_disjoint hdisjoint, Nat.card_Ico, toFinset_card_of_nodup h.colored.stack_nodup,
    toFinset_card_of_nodup hcolored.stack_nodup] at hcard
  have := h.total_le
  omega

/-- One color is settled, and the colors that are new wait. -/
lemma refineBy_settled (order : IterationOrder) (hA : A.InRange) (htracks : TracksWeight A weight)
    (hcolored : Colored A.size state) (hrefining : refiningColor < state.totalColorsSeen)
    (hsettled : AllSettled weight A.size (refiningColor :: state.colorStack) state) :
    ∃ state', refineBy A order state refiningColor = some state' ∧ Colored A.size state' ∧
      AllSettled weight A.size state'.colorStack state' ∧
      state'.colorStack.length + state.totalColorsSeen =
        state.colorStack.length + state'.totalColorsSeen ∧
      ∀ P, Equitable A P → Refines A.size P state → Refines A.size P state' := by
  set side := (state.colors refiningColor).side with hside
  set sums := computeSums A order state refiningColor with hsums
  have htouches : ∀ c < state.totalColorsSeen, (state.colors c).side = side.other →
      Touches sums state c := fun c hc hs => touches_computeSums hA hcolored hrefining hc hs
  have hupdate : ∀ c ∈ sums.colorsToUpdate,
      c < state.totalColorsSeen ∧ (state.colors c).side = side.other := fun c hc =>
    colorsToUpdate_lt hA hcolored hrefining hc
  obtain ⟨colorsToSplit, hfind, hcolorsToSplit⟩ : ∃ colors, findColorsToSplit sums state = some colors ∧
      colors = sums.colorsToUpdate.filter fun c =>
        (minMaxSum sums state c).1 < (minMaxSum sums state c).2 := by
    refine ⟨_, if_neg fun hany => ?_, rfl⟩
    obtain ⟨c, hc, hless⟩ := any_eq_true.mp hany
    obtain ⟨hlt, hs⟩ := hupdate c hc
    obtain ⟨v, hv⟩ := hcolored.nonempty c hlt
    obtain ⟨hmin, hmax⟩ := minMaxSum_bounds (htouches c hlt hs) hv
    exact (of_decide_eq_true hless).not_ge (hmin.trans hmax)
  have hmem : ∀ c, c ∈ colorsToSplit ↔ c ∈ sums.colorsToUpdate ∧
      (minMaxSum sums state c).1 < (minMaxSum sums state c).2 := by
    intro c
    rw [hcolorsToSplit, mem_filter, decide_eq_true_eq]
  have hnodup : colorsToSplit.Nodup := by
    rw [hcolorsToSplit]
    exact (nodup_distinct _).filter _
  obtain ⟨state', hfold, hall, hset, hkeeps⟩ := foldlM_splitColors order colorsToSplit hcolored hnodup
    (fun c hc => by
      obtain ⟨hc, hless⟩ := (hmem c).mp hc
      obtain ⟨hlt, hs⟩ := hupdate c hc
      have ht := htouches c hlt hs
      exact ⟨hlt, hs, ht, length_partSums_ne_one ht hless⟩) hrefining hsettled
  refine ⟨state', Option.bind_eq_some_iff.mpr ⟨_, hfind, hfold⟩, hall.colored, ?_,
    hall.length_stack hcolored, fun P hP hrefines s v hv w hw heq => ?_⟩
  swap
  · by_cases hs : s = side.other
    · subst hs
      apply hkeeps v hv w hw (hrefines _ v hv w hw heq)
      rw [hsums, vertexToSum_computeSums, vertexToSum_computeSums]
      exact hP.sum_eq hrefines hcolored hrefining rfl hv hw heq
    · rw [hall.map_other s hs]
      exact hrefines s v hv w hw heq
  -- vertices of one new color have one sum, whether their old color was split or not
  have hsame : ∀ v < A.size side.other, ∀ w < A.size side.other,
      state'.colorMap side.other v = state'.colorMap side.other w →
        sums.vertexToSum v = sums.vertexToSum w := by
    intro v hv w hw heq
    by_cases hsplit : state.colorMap side.other v ∈ colorsToSplit
    · exact hall.sums v hv w hw hsplit heq
    · have hold := hall.finer v hv w hw heq
      obtain ⟨hlt, hs⟩ := hcolored.mapped side.other v hv
      have ht := htouches _ hlt hs
      have hv' : v ∈ (state.colors (state.colorMap side.other v)).vertices := by
        rw [hcolored.mem _ hlt, hs]
        exact ⟨hv, rfl⟩
      have hw' : w ∈ (state.colors (state.colorMap side.other v)).vertices := by
        rw [hcolored.mem _ hlt, hs]
        exact ⟨hw, hold.symm⟩
      by_cases hseen : state.colorMap side.other v ∈ sums.colorsToUpdate
      · apply vertexToSum_eq_of_not_split ht _ hv' hw'
        intro hless
        exact hsplit ((hmem _).mpr ⟨hseen, hless⟩)
      · rw [ht.zero v hv' fun hin => hseen (mem_colorsToUpdate hin),
          ht.zero w hw' fun hin => hseen (mem_colorsToUpdate hin)]
  have hmapSide : state'.colorMap side = state.colorMap side :=
    hall.map_other side side.other_ne.symm
  have hsideEq := hall.side_eq refiningColor hrefining
  have hstable : Stable (weight side) (Finset.range (A.size side.other))
      (state'.colorMap side.other)
      (classOf (Finset.range (A.size side)) (state'.colorMap side) {refiningColor}) := by
    intro v hv w hw heq
    have hsum := hsame v (Finset.mem_range.mp hv) w (Finset.mem_range.mp hw) heq
    rw [hsums, vertexToSum_computeSums, vertexToSum_computeSums] at hsum
    rw [hmapSide, ← hcolored.vertices_eq hrefining]
    exact htracks side _ (hcolored.vertices_subset hrefining) v (Finset.mem_range.mp hv) w
      (Finset.mem_range.mp hw) hsum
  intro c hc hwait
  by_cases hcr : c = refiningColor
  · rw [hcr, hsideEq]
    exact Settled.of_stable hstable
  · apply (hset c hc (by
      rw [List.mem_cons, not_or]
      exact ⟨hcr, hwait⟩)).pop hcr
    by_cases hs : (state'.colors c).side = side
    · rw [hs]
      exact hstable
    · -- a color of the other side has no vertices here
      have hempty : classOf (Finset.range (A.size (state'.colors c).side))
          (state'.colorMap (state'.colors c).side) {refiningColor} = ∅ := by
        apply filter_eq_empty_iff.mpr
        intro v hv hmap
        obtain ⟨_, hvside⟩ := hall.colored.mapped _ v (Finset.mem_range.mp hv)
        rw [Finset.mem_singleton.mp hmap, hsideEq] at hvside
        exact hs hvside.symm
      rw [hempty]
      intro v _ w _ _
      rw [sum_empty, sum_empty]

/-- One round of the loop. -/
def Round (A : WeightMatrix K) (order : IterationOrder) (state state' : Coloring) : Prop :=
  ∃ refiningColor rest, state.colorStack = refiningColor :: rest ∧
    refineBy A order { state with colorStack := rest } refiningColor = some state'

/-- The loop ends only for the thresholds before the stack is empty. The fuel that it needs: the
colors that wait and those that may still come. -/
lemma refineColors_settled (order : IterationOrder) (thresholds : ColorThresholds) (hA : A.InRange)
    (htracks : TracksWeight A weight) (fuel : ℕ) (hcolored : Colored A.size state)
    (hsettled : AllSettled weight A.size state.colorStack state)
    (hfuel : A.m + A.n + state.colorStack.length ≤ fuel + state.totalColorsSeen) :
    (∃ state', refineColors A order thresholds fuel state = some state' ∧ Colored A.size state' ∧
      AllSettled weight A.size [] state' ∧
      ∀ P, Equitable A P → Refines A.size P state → Refines A.size P state') ∨
    refineColors A order thresholds fuel state = none ∧
      ∃ stop, Relation.ReflTransGen (Round A order) state stop ∧
        withinThresholds A thresholds stop = false := by
  induction fuel generalizing state with
  | zero =>
    have hempty : state.colorStack = [] := by
      have := hcolored.total_le
      apply eq_nil_of_length_eq_zero
      omega
    rw [hempty] at hsettled
    exact .inl ⟨state, rfl, hcolored, hsettled, fun _ _ h => h⟩
  | succ fuel ih =>
    cases hstack : state.colorStack with
    | nil =>
      rw [hstack] at hsettled
      exact .inl ⟨state, by rw [refineColors, hstack], hcolored, hsettled, fun _ _ h => h⟩
    | cons refiningColor rest =>
      have hnodup := hcolored.stack_nodup
      have hlt := hcolored.stack_lt
      rw [hstack] at hnodup hlt hsettled
      have hpopped : Colored A.size { state with colorStack := rest } :=
        ⟨hcolored.mem, hcolored.mapped, hcolored.nonempty, hcolored.active,
          fun c hc => hlt c (List.mem_cons_of_mem _ hc), (nodup_cons.mp hnodup).2, hcolored.count⟩
      obtain ⟨next, hround, hcolored', hsettled', hlength, hkeeps⟩ := refineBy_settled order hA htracks
        hpopped (hlt refiningColor mem_cons_self) hsettled
      have hstep : Round A order state next := ⟨_, _, hstack, hround⟩
      simp only [refineColors, hstack, hround]
      by_cases hwithin : withinThresholds A thresholds next = true
      · rw [if_pos hwithin]
        rw [hstack, length_cons] at hfuel
        simp only at hlength
        rcases ih hcolored' hsettled' (by omega) with ⟨state', heq, hcolored', hsettled', hnext⟩ |
          ⟨heq, stop, hreach, hstop⟩
        · exact .inl ⟨state', heq, hcolored', hsettled', fun P hP h => hnext P hP (hkeeps P hP h)⟩
        · exact .inr ⟨heq, stop, .head hstep hreach, hstop⟩
      · rw [if_neg hwithin]
        exact .inr ⟨rfl, next, .single hstep, Bool.eq_false_iff.mpr hwithin⟩

omit [LinearOrder K] [AddCommMonoid K] in
theorem initialColoring_colored (hm : 0 < A.m) (hn : 0 < A.n) :
    Colored A.size (initialColoring A) := by
  have htwo : ∀ c < (initialColoring A).totalColorsSeen, c = 0 ∨ c = 1 := by
    intro c hc
    have : c < 2 := hc
    omega
  constructor
  case mem =>
    intro c hc v
    rcases htwo c hc with rfl | rfl
    · show v ∈ Finset.range A.m ↔ v < A.m ∧ (0 : ℕ) = 0
      simp
    · show v ∈ Finset.range A.n ↔ v < A.n ∧ (1 : ℕ) = 1
      simp
  case mapped =>
    intro side v _
    cases side with
    | row => exact ⟨Nat.zero_lt_two, rfl⟩
    | col => exact ⟨Nat.one_lt_two, rfl⟩
  case nonempty =>
    intro c hc
    rcases htwo c hc with rfl | rfl
    · exact nonempty_range_iff.mpr hm.ne'
    · exact nonempty_range_iff.mpr hn.ne'
  case active =>
    intro c hc
    rcases htwo c hc with rfl | rfl
    · rfl
    · rfl
  case stack_lt =>
    show ∀ c ∈ [1, 0], c < 2
    decide
  case stack_nodup =>
    show [1, 0].Nodup
    decide
  case count =>
    intro side
    cases side <;> rfl

/-- `color_graph` returns an equitable coloring that every equitable one refines, or a threshold is
exceeded. -/
lemma colorGraph_cases (order : IterationOrder) (thresholds : ColorThresholds) (hA : A.InRange)
    (htracks : TracksWeight A weight) (hm : 0 < A.m) (hn : 0 < A.n) :
    (∃ state, colorGraph A order thresholds = some state ∧ Colored A.size state ∧
      (∀ c < state.totalColorsSeen, Stable (weight (state.colors c).side)
        (Finset.range (A.size (state.colors c).side.other))
        (state.colorMap (state.colors c).side.other) (state.colors c).vertices) ∧
      ∀ P, Equitable A P → Refines A.size P state) ∨
    colorGraph A order thresholds = none ∧
      (thresholds.row < colorLowerBound A .row ∨ thresholds.col < colorLowerBound A .col ∨
        ∃ stop, Relation.ReflTransGen (Round A order) (initialColoring A) stop ∧
          withinThresholds A thresholds stop = false) := by
  by_cases hbound : (thresholds.row < colorLowerBound A .row ||
      thresholds.col < colorLowerBound A .col) = true
  · refine .inr ⟨if_pos hbound, ?_⟩
    rw [Bool.or_eq_true, decide_eq_true_eq, decide_eq_true_eq] at hbound
    exact hbound.imp_right Or.inl
  rw [colorGraph, if_neg hbound]
  have hstart : AllSettled weight A.size (initialColoring A).colorStack (initialColoring A) := by
    intro c hc hwait
    have hlt : c < 2 := hc
    have hnot : c ∉ [1, 0] := hwait
    simp only [List.mem_cons, not_mem_nil, or_false, not_or] at hnot
    omega
  rcases refineColors_settled order thresholds hA htracks _ (initialColoring_colored hm hn) hstart
    (le_refl _) with ⟨state, heq, hcolored, hsettled, hkeeps⟩ | ⟨heq, hstop⟩
  · refine .inl ⟨state, heq, hcolored, fun c hc => ?_, fun P hP => hkeeps P hP ?_⟩
    · rw [hcolored.vertices_eq hc]
      exact (hsettled c hc not_mem_nil).stable
    · exact fun _ _ _ _ _ _ => rfl
  · exact .inr ⟨heq, .inr (.inr hstop)⟩

/-- Lines of one color have equal sums over every color of the other side. -/
lemma colorGraph_equitable (hA : A.InRange) (htracks : TracksWeight A weight) (hm : 0 < A.m)
    (hn : 0 < A.n) (h : colorGraph A order thresholds = some state) :
    Colored A.size state ∧ ∀ c < state.totalColorsSeen,
      Stable (weight (state.colors c).side) (Finset.range (A.size (state.colors c).side.other))
        (state.colorMap (state.colors c).side.other) (state.colors c).vertices := by
  rcases colorGraph_cases order thresholds hA htracks hm hn with
    ⟨state', heq, hcolored, hstable, -⟩ | ⟨heq, -⟩
  · rw [h] at heq
    cases heq
    exact ⟨hcolored, hstable⟩
  · rw [h] at heq
    cases heq

end Loop

end CuOpt.Simplex
