import CuOpt.Cuts.CliqueSearch
import CuOpt.Cuts.ConflictCuts
import CuOpt.Cuts.OddCyclesSound
import CuOpt.Library.ZeroOneSums

/-! Cuts over literals keep every feasible point when the edges they rest on are real conflicts, and
infeasibility is reported only when there is no feasible point. -/

namespace CuOpt.Cuts

open List hiding keys sum_eq_zero
open Nat (mod_eq_of_lt mod_lt)

open SparseList QuadProgram Sorting ZeroOneSums

namespace MixedProblem

variable (p : MixedProblem)

def literal (x : ℕ → ℚ) (v : ℕ) : ℚ :=
  if p.numVars ≤ v then 1 - x (v % p.numVars) else x (v % p.numVars)

structure IsLiteral (v : ℕ) : Prop where
  lt : v < 2 * p.numVars
  integral : p.varTypes (v % p.numVars) ≠ .continuous
  lower : ∃ l, p.lower (v % p.numVars) = some l ∧ 0 ≤ l
  upper : ∃ u, p.upper (v % p.numVars) = some u ∧ u ≤ 1

def Conflict (u v : ℕ) : Prop := ∀ x ∈ p.feasible, p.literal x u + p.literal x v ≤ 1

structure IsClique (l : List ℕ) : Prop where
  nodup : l.Nodup
  literal : ∀ v ∈ l, p.IsLiteral v
  conflict : l.Pairwise p.Conflict

def Keeps : CutBuild → Prop
  | .noCut => True
  | .cutAdded cut => p.Valid cut
  | .infeasible => p.feasible = ∅

variable {p} {x : ℕ → ℚ} {u v : ℕ}

lemma IsLiteral.pos (h : p.IsLiteral v) : 0 < p.numVars := by
  have hlt := h.lt
  omega

lemma IsLiteral.binary (h : p.IsLiteral v) (hx : x ∈ p.feasible) :
    x (v % p.numVars) = 0 ∨ x (v % p.numVars) = 1 := by
  have hmod : v % p.numVars < p.numVars := mod_lt v h.pos
  obtain ⟨k, hk⟩ := p.integral x hx _ hmod h.integral
  obtain ⟨l, hl, hl0⟩ := h.lower
  obtain ⟨w, hw, hw1⟩ := h.upper
  obtain ⟨hlow, hup⟩ := p.inBounds x hx _ hmod
  have h0 : (0 : ℚ) ≤ k := hk ▸ hl0.trans (hlow l hl)
  have h1 : (k : ℚ) ≤ 1 := hk ▸ (hup w hw).trans hw1
  have hk0 : 0 ≤ k := by exact_mod_cast h0
  have hk1 : k ≤ 1 := by exact_mod_cast h1
  have hcases : k = 0 ∨ k = 1 := by omega
  rcases hcases with rfl | rfl
  · left
    rw [hk, Int.cast_zero]
  · right
    rw [hk, Int.cast_one]

lemma IsLiteral.literal_eq (h : p.IsLiteral v) (hx : x ∈ p.feasible) :
    p.literal x v = 0 ∨ p.literal x v = 1 := by
  unfold MixedProblem.literal
  rcases h.binary hx with heq | heq
  · rw [heq]
    split_ifs
    · exact .inr (sub_zero 1)
    · exact .inl rfl
  · rw [heq]
    split_ifs
    · exact .inl (sub_self 1)
    · exact .inr rfl

lemma Conflict.symm (h : p.Conflict u v) : p.Conflict v u := by
  intro x hx
  rw [add_comm]
  exact h x hx

lemma IsClique.conflict_of_ne {l : List ℕ} (h : p.IsClique l) (hu : u ∈ l) (hv : v ∈ l)
    (hne : u ≠ v) : p.Conflict u v :=
  have : Std.Symm p.Conflict := ⟨fun _ _ h => h.symm⟩
  h.conflict.forall hu hv hne

lemma IsClique.append {l : List ℕ} (h : p.IsClique l) (hv : p.IsLiteral v)
    (hall : ∀ u ∈ l, p.Conflict v u ∧ v ≠ u) : p.IsClique (l ++ [v]) where
  nodup := by
    refine Nodup.append h.nodup (nodup_singleton v) fun u hu huv => ?_
    exact (hall u hu).2 (mem_singleton.mp huv).symm
  literal := by
    intro u hu
    rcases mem_append.mp hu with hu | hu
    · exact h.literal u hu
    · exact mem_singleton.mp hu ▸ hv
  conflict := by
    refine pairwise_append.mpr ⟨h.conflict, pairwise_singleton _ v, fun u hu w hw => ?_⟩
    exact mem_singleton.mp hw ▸ (hall u hu).1.symm

lemma keeps_acceptCut {xstar : ℕ → ℚ} {minViolation : ℚ} {cut : Inequality}
    (h : p.Valid cut) : p.Keeps (acceptCut xstar minViolation cut) := by
  unfold acceptCut
  split_ifs
  · exact h
  · trivial

end MixedProblem

open MixedProblem

/-- The edges of the clique table and of the fractional subgraph are real conflicts between
literals. -/
structure ConflictSetting where
  p : MixedProblem
  g : ConflictGraph
  numCols : ℕ
  numVars_eq : g.numVars = p.numVars
  le : p.numVars ≤ numCols
  edge : ∀ u v, g.checkAdjacency u v = true → p.Conflict u v ∧ u ≠ v
  adjSet : ∀ u, ∀ v ∈ g.adjSet u, p.IsLiteral v
  localGraph : OddGraph
  vertices : List ℕ
  vertices_length : vertices.length = localGraph.localAdj.length
  vertices_nodup : vertices.Nodup
  literal : ∀ v ∈ vertices, p.IsLiteral v
  localEdge : ∀ a, ∀ b ∈ localGraph.localAdj.getD a [],
    p.Conflict (vertices.getD a 0) (vertices.getD b 0)
  irrefl : ∀ a, a ∉ localGraph.localAdj.getD a []

namespace ConflictSetting

variable {s : ConflictSetting} {limits : ConflictLimits}

lemma greedyExtendClique_isClique {cost : ℚ} (candidates : List ℕ)
    (hcandidates : ∀ v ∈ candidates, s.p.IsLiteral v) {selected : List ℕ} (work : Option ℚ)
    (h : s.p.IsClique selected) :
    s.p.IsClique (greedyExtendClique s.g limits cost candidates selected work).1 ∧
      ∀ v ∈ (greedyExtendClique s.g limits cost candidates selected work).1,
        v ∈ selected ∨ v ∈ candidates := by
  induction candidates generalizing selected work with
  | nil => exact ⟨h, fun v hv => .inl hv⟩
  | cons candidate rest ih =>
    have hrest : ∀ v ∈ rest, s.p.IsLiteral v :=
      fun v hv => hcandidates v (mem_cons_of_mem candidate hv)
    rw [greedyExtendClique]
    dsimp only
    split_ifs with htime hadd hover hover
    · exact ⟨h, fun v hv => .inl hv⟩
    · exact ⟨h, fun v hv => .inl hv⟩
    · have hall := takeWhile_eq_self_iff.mp
        (( takeWhile_prefix _).eq_of_length (of_decide_eq_true hadd))
      have hnext := h.append (hcandidates candidate mem_cons_self)
        fun u hu => s.edge candidate u (hall u hu)
      obtain ⟨hclique, hfrom⟩ := ih hrest _ hnext
      refine ⟨hclique, fun v hv => ?_⟩
      rcases hfrom v hv with hv | hv
      · rcases mem_append.mp hv with hv | hv
        · exact .inl hv
        · exact .inr (mem_singleton.mp hv ▸ mem_cons_self)
      · exact .inr (mem_cons_of_mem candidate hv)
    · exact ⟨h, fun v hv => .inl hv⟩
    · obtain ⟨hclique, hfrom⟩ := ih hrest _ h
      exact ⟨hclique, fun v hv => (hfrom v hv).imp id (mem_cons_of_mem candidate)⟩

lemma mem_sortCandidates {std : Sorter} {reducedCosts : ℕ → Option ℚ} {candidates : List ℕ}
    {v : ℕ} : v ∈ sortCandidatesByReducedCost s.g std reducedCosts candidates ↔ v ∈ candidates :=
  (std.perm _ candidates).mem_iff

lemma extendCliqueVertices_isClique {std : Sorter} {xstar : ℕ → ℚ}
    {reducedCosts : ℕ → Option ℚ} {integerTol : ℚ} {clique : List ℕ} (work : Option ℚ)
    (h : s.p.IsClique clique) :
    s.p.IsClique
      (extendCliqueVertices s.g limits std xstar reducedCosts integerTol clique work).1 := by
  unfold extendCliqueVertices
  split_ifs
  · exact h
  · exact h
  · cases minDegreeAnchor s.g limits clique maxInt none with
    | none => exact h
    | some anchor =>
      dsimp only
      split_ifs
      · exact h
      · exact h
      · refine (greedyExtendClique_isClique _ (fun v hv => ?_) _ h).1
        exact s.adjSet anchor v (mem_of_mem_filter (mem_sortCandidates.mp hv))

lemma isClique_nil : s.p.IsClique [] :=
  ⟨nodup_nil, nofun, Pairwise.nil⟩

/-- The centres of a wheel are a clique, and each conflicts with every vertex of the cycle. -/
lemma extendToOddWheel_isClique (limits : ConflictLimits) (std : Sorter)
    (reducedCosts : ℕ → Option ℚ) (cycleVertices : List ℕ) (work : Option ℚ) :
    s.p.IsClique (extendToOddWheel s.g limits std reducedCosts cycleVertices work).1 ∧
      ∀ c ∈ (extendToOddWheel s.g limits std reducedCosts cycleVertices work).1,
        ∀ v ∈ cycleVertices, s.p.Conflict c v := by
  have hnone : s.p.IsClique [] ∧ ∀ c ∈ ([] : List ℕ), ∀ v ∈ cycleVertices, s.p.Conflict c v :=
    ⟨isClique_nil, nofun⟩
  unfold extendToOddWheel
  split_ifs
  · exact hnone
  · exact hnone
  · cases minDegreeAnchor s.g limits cycleVertices maxInt none with
    | none => exact hnone
    | some anchor =>
      dsimp only
      split_ifs
      · exact hnone
      · exact hnone
      · exact hnone
      · obtain ⟨hclique, hfrom⟩ := greedyExtendClique_isClique
          (sortCandidatesByReducedCost s.g std reducedCosts _)
          (fun v hv => s.adjSet anchor v (mem_of_mem_filter (mem_sortCandidates.mp hv)))
          _ isClique_nil
        refine ⟨hclique, fun c hc v hv => ?_⟩
        have hcandidate := mem_sortCandidates.mp ((hfrom c hc).resolve_left not_mem_nil)
        have hadjacent := of_mem_filter hcandidate
        have hall := all_eq_true.mp (Bool.and_eq_true_iff.mp hadjacent).2 v hv
        exact (s.edge c v (Bool.and_eq_true_iff.mp hall).2).1

end ConflictSetting

section Build

variable {p : MixedProblem} {x : ℕ → ℚ}

structure SeenLiterals.Records (n : ℕ) (l : List ℕ) (seen : SeenLiterals) : Prop where
  original : ∀ i, i ∈ seen.original ↔ ∃ v ∈ l, v < n ∧ v % n = i
  complement : ∀ i, i ∈ seen.complement ↔ ∃ v ∈ l, n ≤ v ∧ v % n = i
  pairs : ∀ i, i ∈ seen.pairs ↔ i ∈ seen.original ∧ i ∈ seen.complement
  nodup : seen.pairs.Nodup

variable {l : List ℕ} {seen : SeenLiterals}

lemma SeenLiterals.Records.see {n : ℕ} (h : seen.Records n l) (v : ℕ) :
    (seen.see n v).Records n (l ++ [v]) := by
  have hconcat : ∀ (q : ℕ → Prop), (∃ w ∈ l ++ [v], q w) ↔ q v ∨ ∃ w ∈ l, q w := by
    intro q
    simp only [mem_append, mem_singleton, or_and_right, exists_or, exists_eq_left]
    exact or_comm
  unfold SeenLiterals.see
  dsimp only
  split_ifs with hcomplement hpair hpair
  · refine ⟨fun i => ?_, fun i => ?_, fun i => ?_, h.nodup.insert⟩
    · rw [hconcat, h.original]
      exact ⟨.inr, fun hi => hi.resolve_left fun hv => absurd hv.1 (not_lt.mpr hcomplement)⟩
    · rw [hconcat, mem_insert_iff, h.complement, eq_comm]
      simp only [hcomplement, true_and]
    · rw [mem_insert_iff, mem_insert_iff, h.pairs]
      constructor
      · rintro (rfl | ⟨ho, hc⟩)
        · exact ⟨hpair, .inl rfl⟩
        · exact ⟨ho, .inr hc⟩
      · rintro ⟨ho, rfl | hc⟩
        · exact .inl rfl
        · exact .inr ⟨ho, hc⟩
  · refine ⟨fun i => ?_, fun i => ?_, fun i => ?_, h.nodup⟩
    · rw [hconcat, h.original]
      exact ⟨.inr, fun hi => hi.resolve_left fun hv => absurd hv.1 (not_lt.mpr hcomplement)⟩
    · rw [hconcat, mem_insert_iff, h.complement, eq_comm]
      simp only [hcomplement, true_and]
    · rw [mem_insert_iff, h.pairs]
      refine and_congr_right fun ho => ⟨.inr, fun hc => hc.resolve_left ?_⟩
      rintro rfl
      exact hpair ho
  · refine ⟨fun i => ?_, fun i => ?_, fun i => ?_, h.nodup.insert⟩
    · rw [hconcat, mem_insert_iff, h.original, eq_comm]
      simp only [not_le.mp hcomplement, true_and]
    · rw [hconcat, h.complement]
      exact ⟨.inr, fun hi => hi.resolve_left fun hv => absurd hv.1 hcomplement⟩
    · rw [mem_insert_iff, mem_insert_iff, h.pairs]
      constructor
      · rintro (rfl | ⟨ho, hc⟩)
        · exact ⟨.inl rfl, hpair⟩
        · exact ⟨.inr ho, hc⟩
      · rintro ⟨rfl | ho, hc⟩
        · exact .inl rfl
        · exact .inr ⟨ho, hc⟩
  · refine ⟨fun i => ?_, fun i => ?_, fun i => ?_, h.nodup⟩
    · rw [hconcat, mem_insert_iff, h.original, eq_comm]
      simp only [not_le.mp hcomplement, true_and]
    · rw [hconcat, h.complement]
      exact ⟨.inr, fun hi => hi.resolve_left fun hv => absurd hv.1 hcomplement⟩
    · rw [mem_insert_iff, h.pairs]
      refine and_congr_left fun hc => ⟨.inr, fun ho => ho.resolve_left ?_⟩
      rintro rfl
      exact hpair hc

lemma records_foldl (n : ℕ) (l : List ℕ) :
    (l.foldl (SeenLiterals.see n) ⟨[], [], []⟩).Records n l := by
  induction l using reverseRecOn with
  | nil => exact ⟨by simp, by simp, by simp, nodup_nil⟩
  | append_singleton l v ih =>
    rw [foldl_append]
    exact ih.see v

def literalRow (n : ℕ) (l : List ℕ) : List (ℕ × ℚ) :=
  l.map fun v => (v % n, if n ≤ v then (1 : ℚ) else -1)

lemma dot_literalRow (l : List ℕ) :
    dot (literalRow p.numVars l) x =
      (l.countP fun v => decide (p.numVars ≤ v)) - (l.map (p.literal x)).sum := by
  induction l with
  | nil => simp [literalRow, dot]
  | cons v l ih =>
    have hcons : dot (literalRow p.numVars (v :: l)) x =
        (if p.numVars ≤ v then (1 : ℚ) else -1) * x (v % p.numVars) +
          dot (literalRow p.numVars l) x := rfl
    rw [hcons, ih, countP_cons, map_cons, sum_cons, MixedProblem.literal]
    by_cases hv : p.numVars ≤ v
    · simp only [hv, if_true, decide_true, Nat.cast_add, Nat.cast_one]
      ring
    · simp only [hv, if_false, decide_false, Bool.false_eq_true, Nat.cast_add, Nat.cast_zero]
      ring

variable {i : ℕ}

/-- A variable met with both signs stands in the clique as itself and as its complement. -/
lemma mem_of_pair (h : seen.Records p.numVars l) (hl : p.IsClique l) (hi : i ∈ seen.pairs) :
    i < p.numVars ∧ i ∈ l ∧ i + p.numVars ∈ l := by
  obtain ⟨ho, hc⟩ := (h.pairs i).mp hi
  obtain ⟨v, hv, hvlt, hvi⟩ := (h.original i).mp ho
  obtain ⟨w, hw, hwle, hwi⟩ := (h.complement i).mp hc
  have hv' : v = i := by rw [← hvi, mod_eq_of_lt hvlt]
  have hw' : w = i + p.numVars := by
    have hlt := (hl.literal w hw).lt
    rw [Nat.mod_eq_sub_mod hwle, mod_eq_of_lt (by omega)] at hwi
    omega
  exact ⟨hv' ▸ hvlt, hv' ▸ hv, hw' ▸ hw⟩

lemma literal_pair (hi : i < p.numVars) :
    p.literal x i = x i ∧ p.literal x (i + p.numVars) = 1 - x i := by
  unfold MixedProblem.literal
  rw [if_neg (not_le.mpr hi), if_pos (Nat.le_add_left _ i), Nat.add_mod_right, mod_eq_of_lt hi]
  exact ⟨rfl, rfl⟩

/-- Two variables with both signs in a clique leave no feasible point. -/
lemma infeasible_of_pairs (hl : p.IsClique l) {j : ℕ} (hij : i ≠ j)
    (hi : i < p.numVars ∧ i ∈ l ∧ i + p.numVars ∈ l)
    (hj : j < p.numVars ∧ j ∈ l ∧ j + p.numVars ∈ l) : p.feasible = ∅ := by
  rw [Set.eq_empty_iff_forall_notMem]
  intro x hx
  obtain ⟨hilt, hil, hil'⟩ := hi
  obtain ⟨hjlt, hjl, hjl'⟩ := hj
  have h1 := hl.conflict_of_ne hil hjl hij x hx
  have h2 := hl.conflict_of_ne hil hjl' (by omega) x hx
  have h3 := hl.conflict_of_ne hil' hjl (by omega) x hx
  have h4 := hl.conflict_of_ne hil' hjl' (by omega) x hx
  rw [(literal_pair hilt).1, (literal_pair hjlt).1] at h1
  rw [(literal_pair hilt).1, (literal_pair hjlt).2] at h2
  rw [(literal_pair hilt).2, (literal_pair hjlt).1] at h3
  rw [(literal_pair hilt).2, (literal_pair hjlt).2] at h4
  have hbinary := (hl.literal i hil).binary hx
  rw [mod_eq_of_lt hilt] at hbinary
  rcases hbinary with h | h
  · linarith
  · linarith

/-- One variable with both signs makes every other literal false. -/
lemma literal_eq_zero_of_pair (hl : p.IsClique l) {w : ℕ}
    (hi : i < p.numVars ∧ i ∈ l ∧ i + p.numVars ∈ l) (hw : w ∈ l) (hne : w % p.numVars ≠ i)
    (hx : x ∈ p.feasible) : p.literal x w = 0 := by
  obtain ⟨hilt, hil, hil'⟩ := hi
  have hwi : w ≠ i := fun h => hne (by rw [h, mod_eq_of_lt hilt])
  have hwi' : w ≠ i + p.numVars :=
    fun h => hne (by rw [h, Nat.add_mod_right, mod_eq_of_lt hilt])
  have h1 := hl.conflict_of_ne hw hil hwi x hx
  have h2 := hl.conflict_of_ne hw hil' hwi' x hx
  rw [(literal_pair hilt).1] at h1
  rw [(literal_pair hilt).2] at h2
  rcases (hl.literal w hw).literal_eq hx with h | h
  · exact h
  · linarith

/-- Unless a variable is met with both signs, the variables of the kept literals are distinct. -/
lemma nodup_keys_literalRow {kept : List ℕ} (h : seen.Records p.numVars l) (hl : p.IsClique l)
    (hkept : kept.Sublist l) (hpairs : ∀ v ∈ kept, v % p.numVars ∉ seen.pairs) :
    (keys (literalRow p.numVars kept)).Nodup := by
  rw [literalRow, keys, map_map]
  refine Nodup.map_on (fun u hu v hv heq => ?_) (hl.nodup.sublist hkept)
  have hlu := (hl.literal u (hkept.mem hu)).lt
  have hlv := (hl.literal v (hkept.mem hv)).lt
  have hboth : ∀ a ∈ kept, ∀ b ∈ kept, a < p.numVars → p.numVars ≤ b →
      a % p.numVars = b % p.numVars → False := by
    intro a ha b hb halt hble hab
    refine hpairs a ha ((h.pairs _).mpr ⟨?_, ?_⟩)
    · exact (h.original _).mpr ⟨a, hkept.mem ha, halt, rfl⟩
    · exact (h.complement _).mpr ⟨b, hkept.mem hb, hble, hab.symm⟩
  have heq' : u % p.numVars = v % p.numVars := heq
  by_cases hun : u < p.numVars
  · by_cases hvn : v < p.numVars
    · rwa [mod_eq_of_lt hun, mod_eq_of_lt hvn] at heq'
    · exact absurd heq' (hboth u hu v hv hun (not_lt.mp hvn))
  · by_cases hvn : v < p.numVars
    · exact absurd heq'.symm (hboth v hv u hu hvn (not_lt.mp hun))
    · rw [Nat.mod_eq_sub_mod (not_lt.mp hun), mod_eq_of_lt (by omega),
        Nat.mod_eq_sub_mod (not_lt.mp hvn), mod_eq_of_lt (by omega)] at heq'
      omega

lemma buildCliqueCut_keeps {numCols : ℕ} (hcols : p.numVars ≤ numCols) {limits : ConflictLimits}
    {xstar : ℕ → ℚ} {minViolation : ℚ} (hl : p.IsClique l) (work : Option ℚ) :
    p.Keeps (buildCliqueCut p.numVars numCols limits xstar minViolation l work).1 := by
  have hseen := records_foldl p.numVars l
  unfold buildCliqueCut
  dsimp only
  generalize l.foldl (SeenLiterals.see p.numVars) ⟨[], [], []⟩ = seen at hseen
  split_ifs with hshort hover htwo hempty hpair
  · trivial
  · trivial
  · obtain ⟨i, j, rest, hpairs⟩ : ∃ i j rest, seen.pairs = i :: j :: rest := by
      cases hpairs : seen.pairs with
      | nil =>
        rw [hpairs] at htwo
        exact absurd htwo (by decide)
      | cons i tail =>
        cases tail with
        | nil =>
          rw [hpairs] at htwo
          exact absurd htwo (by simp)
        | cons j rest => exact ⟨i, j, rest, rfl⟩
    have hnodup := hseen.nodup
    rw [hpairs] at hnodup
    have hij : i ≠ j := fun h => (nodup_cons.mp hnodup).1 (h ▸ mem_cons_self)
    refine infeasible_of_pairs hl hij (mem_of_pair hseen hl ?_) (mem_of_pair hseen hl ?_)
    · rw [hpairs]
      exact mem_cons_self
    · rw [hpairs]
      exact mem_cons_of_mem i mem_cons_self
  · trivial
  all_goals
    refine keeps_acceptCut fun x hx => ?_
    generalize hkeptEq : l.filter (fun v =>
      !(decide (seen.pairs.length = 1) && decide (v % p.numVars ∈ seen.pairs))) = kept
    have hkept : kept.Sublist l := hkeptEq ▸ filter_sublist
    have hmod : ∀ q ∈ literalRow p.numVars kept, q.1 < numCols := by
      intro q hq
      obtain ⟨v, hv, rfl⟩ := mem_map.mp hq
      exact (mod_lt v (hl.literal v (hkept.mem hv)).pos).trans_le hcols
    have hpairs : ∀ v ∈ kept, v % p.numVars ∉ seen.pairs := by
      intro v hv hmem
      have hone : seen.pairs.length = 1 := by
        have hpos := length_pos_of_mem hmem
        omega
      rw [← hkeptEq] at hv
      have hfilter := of_mem_filter hv
      simp [hone, hmem] at hfilter
    have hdot : dot (sortVector numCols (literalRow p.numVars kept)) x = _ :=
      (dot_sortVector (nodup_keys_literalRow hseen hl hkept hpairs) hmod x).trans
        (dot_literalRow kept)
    show _ ≤ dot (sortVector numCols (literalRow p.numVars kept)) x
    rw [hdot]
  · -- with one pair, the other literals are all false
    obtain ⟨i, hi⟩ := length_eq_one_iff.mp (of_decide_eq_true hpair)
    have hmem : i ∈ seen.pairs := hi ▸ mem_singleton_self i
    have hzero : (kept.map (p.literal x)).sum = 0 := by
      refine sum_eq_zero fun v hv => ?_
      refine literal_eq_zero_of_pair hl (mem_of_pair hseen hl hmem) (hkept.mem hv) ?_ hx
      exact fun heq => hpairs v hv (heq.symm ▸ hmem)
    rw [hzero, sub_zero]
  · have hle : (kept.map (p.literal x)).sum ≤ 1 := by
      refine sum_le_one (fun v hv => (hl.literal v (hkept.mem hv)).literal_eq hx) ?_
      exact (hl.conflict.sublist hkept).imp fun h => h x hx
    linarith

lemma keys_addCoeff (coeffs : List (ℕ × ℚ)) (i : ℕ) (weight : ℚ) :
    keys (addCoeff coeffs i weight) = if i ∈ keys coeffs then keys coeffs else keys coeffs ++ [i] := by
  unfold addCoeff
  split_ifs with hi
  · rw [keys, map_map]
    refine map_congr_left fun q _ => ?_
    show (if q.1 = i then (q.1, q.2 + weight) else q).1 = q.1
    split_ifs <;> rfl
  · exact keys_append coeffs [(i, weight)]

lemma dot_addCoeff {coeffs : List (ℕ × ℚ)} (h : (keys coeffs).Nodup) (i : ℕ) (weight : ℚ) :
    dot (addCoeff coeffs i weight) x = dot coeffs x + weight * x i := by
  unfold addCoeff
  split_ifs with hi
  · induction coeffs with
    | nil => cases hi
    | cons q coeffs ih =>
      have hq : q.1 ∉ keys coeffs := (nodup_cons.mp h).1
      have hcons : ∀ l : List (ℕ × ℚ), ∀ r : ℕ × ℚ, dot (r :: l) x = r.2 * x r.1 + dot l x :=
        fun _ _ => rfl
      rw [map_cons, hcons, hcons]
      by_cases hqi : q.1 = i
      · have hsame : coeffs.map (fun r => if r.1 = i then (r.1, r.2 + weight) else r) = coeffs := by
          refine (map_congr_left fun r hr => ?_).trans (map_id coeffs)
          refine if_neg fun hri => hq ?_
          rw [hqi, ← hri]
          exact mem_map_of_mem hr
        rw [hsame, if_pos hqi, ← hqi]
        ring
      · have hmem : i ∈ keys coeffs := (mem_cons.mp hi).resolve_left (Ne.symm hqi)
        rw [ih (nodup_cons.mp h).2 hmem, if_neg hqi]
        ring
  · simp [dot]

structure CycleAccumulator.Sound (n : ℕ) (acc : CycleAccumulator) : Prop where
  nodup : (keys acc.coeffByVar).Nodup
  lt : ∀ q ∈ acc.coeffByVar, q.1 < n
  integral : ∀ q ∈ acc.coeffByVar, ∃ k : ℤ, q.2 = k

lemma CycleAccumulator.Sound.addCoeff {n : ℕ} {acc acc' : CycleAccumulator} (h : acc.Sound n)
    (hi : i < n) {weight : ℚ} (hweight : ∃ k : ℤ, weight = k)
    (hcoeffs : acc'.coeffByVar = CuOpt.Cuts.addCoeff acc.coeffByVar i weight) : acc'.Sound n := by
  obtain ⟨k, rfl⟩ := hweight
  have hkeys := keys_addCoeff acc.coeffByVar i k
  rw [← hcoeffs] at hkeys
  refine ⟨?_, fun q hq => ?_, fun q hq => ?_⟩
  · rw [hkeys]
    split_ifs with hmem
    · exact h.nodup
    · refine Nodup.append h.nodup (nodup_singleton i) fun a ha hai => ?_
      exact hmem (mem_singleton.mp hai ▸ ha)
  · have hq' : q.1 ∈ keys acc'.coeffByVar := mem_map_of_mem hq
    rw [hkeys] at hq'
    have hold : ∀ a ∈ keys acc.coeffByVar, a < n := by
      intro a ha
      obtain ⟨r, hr, rfl⟩ := mem_map.mp ha
      exact h.lt r hr
    split_ifs at hq'
    · exact hold _ hq'
    · rcases mem_append.mp hq' with hq' | hq'
      · exact hold _ hq'
      · exact mem_singleton.mp hq' ▸ hi
  · rw [hcoeffs, CuOpt.Cuts.addCoeff] at hq
    split_ifs at hq
    · obtain ⟨r, hr, rfl⟩ := mem_map.mp hq
      obtain ⟨c, hc⟩ := h.integral r hr
      split_ifs
      · exact ⟨c + k, by rw [hc, Int.cast_add]⟩
      · exact ⟨c, hc⟩
    · rcases mem_append.mp hq with hq | hq
      · exact h.integral q hq
      · exact ⟨k, by rw [mem_singleton.mp hq]⟩

def CycleAccumulator.slack (x : ℕ → ℚ) (acc : CycleAccumulator) : ℚ :=
  dot acc.coeffByVar x - acc.rhs

/-- Each literal counted in takes its value, times the weight, off the slack. -/
lemma accumulate_sound {weight : ℚ} (hweight : ∃ k : ℤ, weight = k) (l : List ℕ)
    (hl : ∀ v ∈ l, p.IsLiteral v) {acc acc' : CycleAccumulator} (h : acc.Sound p.numVars)
    (hrun : accumulate p.numVars weight l acc = some acc') :
    acc'.Sound p.numVars ∧ acc'.slack x = acc.slack x - weight * (l.map (p.literal x)).sum := by
  induction l generalizing acc with
  | nil =>
    cases hrun
    refine ⟨h, ?_⟩
    simp
  | cons v l ih =>
    have hv : v % p.numVars < p.numVars := mod_lt v (hl v mem_cons_self).pos
    have hrest : ∀ w ∈ l, p.IsLiteral w := fun w hw => hl w (mem_cons_of_mem v hw)
    have hneg : ∃ k : ℤ, -weight = k := by
      obtain ⟨k, rfl⟩ := hweight
      exact ⟨-k, by rw [Int.cast_neg]⟩
    rw [accumulate] at hrun
    rw [map_cons, sum_cons]
    split_ifs at hrun with hcomplement
    · obtain ⟨hsound, hslack⟩ := ih hrest (h.addCoeff hv hweight rfl) hrun
      refine ⟨hsound, hslack.trans ?_⟩
      rw [CycleAccumulator.slack, CycleAccumulator.slack, MixedProblem.literal,
        if_pos hcomplement, dot_addCoeff h.nodup]
      ring
    · obtain ⟨hsound, hslack⟩ := ih hrest (h.addCoeff hv hneg rfl) hrun
      refine ⟨hsound, hslack.trans ?_⟩
      rw [CycleAccumulator.slack, CycleAccumulator.slack, MixedProblem.literal,
        if_neg hcomplement, dot_addCoeff h.nodup]
      ring

/-- Dropping coefficients below the tolerance drops only zeros, for they are integers. -/
lemma dot_filter_tiny {coeffs : List (ℕ × ℚ)} (h : ∀ q ∈ coeffs, ∃ k : ℤ, q.2 = k) :
    dot (coeffs.filter fun q => decide (1 / 10 ^ 12 < |q.2|)) x = dot coeffs x := by
  rw [dot, sum_map_filter]
  refine congrArg sum (map_congr_left fun q hq => ?_)
  obtain ⟨k, hk⟩ := h q hq
  split_ifs with hlarge
  · rfl
  · have hzero : k = 0 := by
      by_contra hne
      have hone : (1 : ℤ) ≤ |k| := Int.one_le_abs hne
      have hcast : (1 : ℚ) ≤ |(k : ℚ)| := by exact_mod_cast hone
      rw [← hk] at hcast
      refine hlarge (decide_eq_true (lt_of_lt_of_le ?_ hcast))
      norm_num
    rw [hk, hzero, Int.cast_zero, zero_mul]

/-- Counting the cycle in, and then the centers with weight `m`, leaves no slack below zero. -/
lemma accumulate_cycle_sound {m : ℕ} {cycle centers : List ℕ} (acc : CycleAccumulator)
    (hcycle : ∀ v ∈ cycle, p.IsLiteral v) (hcenters : p.IsClique centers)
    (hall : ∀ c ∈ centers, ∀ v ∈ cycle, p.Conflict c v)
    (hsum : ∀ x ∈ p.feasible, (cycle.map (p.literal x)).sum ≤ m)
    (hrun : ((accumulate p.numVars 1 cycle ⟨[], [], [], -m⟩).bind fun acc =>
      if 0 < m ∧ centers ≠ [] then accumulate p.numVars m centers acc else some acc) = some acc) :
    acc.Sound p.numVars ∧ ∀ x ∈ p.feasible, 0 ≤ acc.slack x := by
  obtain ⟨acc₁, hfirst, hsecond⟩ := Option.bind_eq_some_iff.mp hrun
  have hone : ∃ k : ℤ, (1 : ℚ) = k := ⟨1, Int.cast_one.symm⟩
  have hm : ∃ k : ℤ, (m : ℚ) = k := ⟨m, (Int.cast_natCast m).symm⟩
  have hstart : CycleAccumulator.Sound p.numVars ⟨[], [], [], -(m : ℚ)⟩ :=
    ⟨nodup_nil, nofun, nofun⟩
  have hsound₁ := (accumulate_sound (x := fun _ => 0) hone cycle hcycle hstart hfirst).1
  have hslack₁ : ∀ x, acc₁.slack x = m - (cycle.map (p.literal x)).sum := by
    intro x
    obtain ⟨-, hslack⟩ := accumulate_sound (x := x) hone cycle hcycle hstart hfirst
    rw [hslack, CycleAccumulator.slack, dot]
    simp
  split_ifs at hsecond with hwheel
  · have hcount := fun x => accumulate_sound (x := x) hm centers hcenters.literal hsound₁ hsecond
    refine ⟨(hcount fun _ => 0).1, fun x hx => ?_⟩
    have hle := sum_add_mul_sum_le (fun v hv => (hcycle v hv).literal_eq hx)
      (fun v hv => (hcenters.literal v hv).literal_eq hx) (hsum x hx)
      (hcenters.conflict.imp fun h => h x hx) fun c hc v hv => hall c hc v hv x hx
    rw [(hcount x).2, hslack₁]
    linarith
  · cases hsecond
    refine ⟨hsound₁, fun x hx => ?_⟩
    rw [hslack₁]
    exact sub_nonneg.mpr (hsum x hx)

lemma buildZeroHalfCut_keeps {numCols : ℕ} (hcols : p.numVars ≤ numCols)
    {limits : ConflictLimits} {xstar : ℕ → ℚ} {minViolation : ℚ} {cycle centers : List ℕ}
    (hcycle : ∀ v ∈ cycle, p.IsLiteral v) (hcenters : p.IsClique centers)
    (hall : ∀ c ∈ centers, ∀ v ∈ cycle, p.Conflict c v)
    (hsum : ∀ x ∈ p.feasible,
      (cycle.map (p.literal x)).sum ≤ ((cycle.length - 1) / 2 : ℕ)) (work : Option ℚ) :
    p.Keeps
      (buildZeroHalfCut p.numVars numCols limits xstar minViolation cycle centers work).1 := by
  unfold buildZeroHalfCut
  dsimp only
  have hcount := fun acc => accumulate_cycle_sound acc hcycle hcenters hall hsum
  generalize ((accumulate p.numVars 1 cycle ⟨[], [], [], -((cycle.length - 1) / 2 : ℕ)⟩).bind _) =
    accumulated at hcount
  split_ifs with hshape hover
  · trivial
  · trivial
  · cases accumulated with
    | none => trivial
    | some acc =>
      obtain ⟨hsound, hslack⟩ := hcount acc rfl
      dsimp only
      split_ifs with hempty
      · trivial
      · refine keeps_acceptCut fun x hx => ?_
        have hsublist := filter_sublist (l := acc.coeffByVar)
          (p := fun q => decide (1 / 10 ^ 12 < |q.2|))
        show acc.rhs ≤ dot (sortVector numCols _) x
        rw [dot_sortVector (hsound.nodup.sublist (hsublist.map Prod.fst))
          (fun q hq => (hsound.lt q (hsublist.mem hq)).trans_le hcols),
          dot_filter_tiny hsound.integral]
        exact sub_nonneg.mp (hslack x hx)

end Build

namespace ConflictSetting

variable (s : ConflictSetting)

structure LocalClique (locals : List ℕ) : Prop where
  nodup : locals.Nodup
  lt : ∀ a ∈ locals, a < s.localGraph.localAdj.length
  adjacent : locals.Pairwise fun a b => b ∈ s.localGraph.localAdj.getD a []

def OddPath (path : List ℕ) : Prop :=
  ∃ source, s.localGraph.IsOddClosedWalk source (path.map (· % s.localGraph.localAdj.length))

def adjacencyGraph : AdjacencyGraph :=
  ⟨s.localGraph.localAdj, s.localGraph.lt, s.localGraph.symm, s.irrefl⟩

variable {s}

/-- The cliques that the search reports, with any limits and any rounding of the weights. -/
lemma localClique_of_root {search : BkSearch} (hadj : search.adj = adjBitset s.localGraph.localAdj)
    (hwords : search.words = bitsetWords s.localGraph.localAdj.length) {work : Option ℚ}
    {ctx : BkContext} (hrun : search.root s.localGraph.localAdj.length work = some ctx)
    {locals : List ℕ} (hlocals : locals ∈ ctx.cliques) : s.LocalClique locals := by
  obtain ⟨hnodup, hlt, hadjacent⟩ :=
    s.adjacencyGraph.root_sound hadj hwords hrun locals hlocals
  refine ⟨hnodup, hlt, hnodup.imp_of_mem fun ha hb hne => ?_⟩
  exact hadjacent _ ha _ hb hne

/-- The paths that the calls on one scratch find. -/
lemma oddPath_of_runCalls {calls : List OddCall} {results : List OddCycleResult}
    (hgraph : ∀ call ∈ calls, call.graph = s.localGraph)
    (hall : Forall₂ OddCall.Answered calls results) {result : OddCycleResult}
    (hresult : result ∈ results) {path : List ℕ} {total : ℚ}
    (hfound : result.found = some (path, total)) : s.OddPath path := by
  induction hall with
  | nil => cases hresult
  | @cons call _ calls _ hcall _ ih =>
    rcases mem_cons.mp hresult with rfl | hresult
    · have hexact := hcall.2 (hcall.1 (.inr (by rw [hfound]; rfl)))
      obtain ⟨hwalk, -⟩ := hexact.2 path total hfound
      rw [hgraph call mem_cons_self] at hwalk
      exact ⟨call.source, hwalk⟩
    · exact ih (fun call' hcall' => hgraph call' (mem_cons_of_mem call hcall')) hresult

lemma getD_mem_vertices {a : ℕ} (ha : a < s.localGraph.localAdj.length) :
    s.vertices.getD a 0 ∈ s.vertices := by
  rw [← s.vertices_length] at ha
  rw [getD_eq_getElem _ _ ha]
  exact getElem_mem ha

lemma LocalClique.isClique {locals : List ℕ} (c : s.LocalClique locals) :
    s.p.IsClique (locals.map (s.vertices.getD · 0)) where
  nodup := by
    refine Nodup.map_on (fun a ha b hb hab => ?_) c.nodup
    have ha' : a < s.vertices.length := s.vertices_length ▸ c.lt a ha
    have hb' : b < s.vertices.length := s.vertices_length ▸ c.lt b hb
    rw [getD_eq_getElem _ _ ha', getD_eq_getElem _ _ hb'] at hab
    exact (Nodup.getElem_inj_iff s.vertices_nodup).mp hab
  literal := by
    intro v hv
    obtain ⟨a, ha, rfl⟩ := mem_map.mp hv
    exact s.literal _ (getD_mem_vertices (c.lt a ha))
  conflict := pairwise_map.mpr (c.adjacent.imp fun h => s.localEdge _ _ h)

/-- The cycle of a path has an odd number of vertices, at most half of them true. -/
lemma OddPath.sum_le {path : List ℕ} (w : s.OddPath path) {limits : ConflictLimits}
    {work work' : Option ℚ} {cycle : List ℕ}
    (hcycle : pathToOddCycle limits s.localGraph.localAdj.length s.g.numVars s.vertices path work =
      (some cycle, work')) :
    (∀ v ∈ cycle, s.p.IsLiteral v) ∧
      ∀ x ∈ s.p.feasible, (cycle.map (s.p.literal x)).sum ≤ ((cycle.length - 1) / 2 : ℕ) := by
  have hvalue : cycle = ((path.map (· % s.localGraph.localAdj.length)).dropLast).map
      (s.vertices.getD · 0) := by
    unfold pathToOddCycle at hcycle
    dsimp only at hcycle
    split_ifs at hcycle
    all_goals
      cases hcycle
      try rfl
  obtain ⟨vertex, hclosed⟩ := w
  obtain ⟨hnonneg, hlt⟩ := source_of_isOddClosedWalk hclosed
  obtain ⟨⟨source, -, hhead, hlast⟩, hchain, heven⟩ := hclosed
  generalize hp : path.map (· % s.localGraph.localAdj.length) = p at hvalue hhead hlast hchain heven
  have hsize : 0 < s.localGraph.localAdj.length := by
    have hpos := hnonneg.trans_lt hlt
    exact_mod_cast hpos
  have hmem : ∀ a ∈ p, s.p.IsLiteral (s.vertices.getD a 0) := by
    intro a ha
    rw [← hp] at ha
    obtain ⟨b, -, rfl⟩ := mem_map.mp ha
    exact s.literal _ (getD_mem_vertices (mod_lt b hsize))
  refine ⟨fun v hv => ?_, fun x hx => ?_⟩
  · rw [hvalue] at hv
    obtain ⟨a, ha, rfl⟩ := mem_map.mp hv
    exact hmem a (mem_of_mem_dropLast ha)
  · obtain ⟨k, hk⟩ := heven
    have hpos : 0 < p.length := by
      cases p with
      | nil => cases hhead
      | cons a p => exact Nat.succ_pos _
    have hlength : p.length = 2 * (k - 1) + 2 := by omega
    have hsum := sum_le_of_closed (f := fun a => s.p.literal x (s.vertices.getD a 0))
      (fun a ha => (hmem a ha).literal_eq hx) (hchain.imp fun a b h => s.localEdge a b h x hx)
      (hhead.trans hlast.symm) hlength
    have hhalf : (cycle.length - 1) / 2 = k - 1 := by
      rw [hvalue, length_map, length_dropLast]
      omega
    rw [hhalf, hvalue, map_map]
    exact hsum

/-- Clique cuts and odd-wheel cuts keep every feasible point, and infeasibility is never reported
while there is one; their cliques and closed walks are such as the two searches report, wherever
these are ended by their limits. -/
theorem conflictCuts_keep (s : ConflictSetting) (limits : ConflictLimits) (std : Sorter)
    (xstar : ℕ → ℚ) (reducedCosts : ℕ → Option ℚ) (integerTol minViolation : ℚ) (work : Option ℚ) :
    (∀ locals, s.LocalClique locals → s.p.Keeps
      (cliqueCut s.g limits s.numCols std xstar reducedCosts integerTol minViolation
        (locals.map (s.vertices.getD · 0)) work).1) ∧
    (∀ path, s.OddPath path → s.p.Keeps
      (oddCycleCut s.g limits s.numCols s.localGraph.localAdj.length s.vertices std xstar
        reducedCosts minViolation path work).1) ∧
    (∀ search : BkSearch, search.adj = adjBitset s.localGraph.localAdj →
      search.words = bitsetWords s.localGraph.localAdj.length →
      ∀ searchWork ctx, search.root s.localGraph.localAdj.length searchWork = some ctx →
        ∀ locals ∈ ctx.cliques, s.LocalClique locals) ∧
    ∀ calls : List OddCall, calls.length < 2 ^ 64 →
      (∀ call ∈ calls, call.graph = s.localGraph) →
      ∃ results, runCalls calls DijkstraScratch.empty = some results ∧
        ∀ result ∈ results, ∀ path total, result.found = some (path, total) → s.OddPath path := by
  refine ⟨fun locals c => ?_, fun path w => ?_, ?_, fun calls hcalls hgraph => ?_⟩
  · unfold cliqueCut
    dsimp only
    rw [s.numVars_eq]
    exact buildCliqueCut_keeps s.le (extendCliqueVertices_isClique work c.isClique) _
  · unfold oddCycleCut
    split
    case h_1 => trivial
    case h_2 cycle work' hcycle =>
      obtain ⟨hliteral, hsum⟩ := w.sum_le hcycle
      obtain ⟨hclique, hall⟩ :=
        extendToOddWheel_isClique (s := s) limits std reducedCosts cycle work'
      dsimp only
      rw [s.numVars_eq]
      exact buildZeroHalfCut_keeps s.le hliteral hclique hall hsum _
  · intro search hadj hwords searchWork ctx hrun locals hlocals
    exact localClique_of_root hadj hwords hrun hlocals
  · obtain ⟨results, hrun, hall⟩ := runCalls_answered calls DijkstraScratch.empty_tidy
      (show 0 + calls.length < 2 ^ 64 by omega)
    exact ⟨results, hrun, fun result hresult path total hfound =>
      oddPath_of_runCalls hgraph hall hresult hfound⟩

section Pentagon

/-- Of the literals of five variables, those of one variable and those of neighbours on a circle. -/
def pentagonEdge (u v : ℕ) : Bool :=
  decide (u < 10 ∧ v < 10 ∧ u ≠ v ∧
    (u % 5 = v % 5 ∨ u < 5 ∧ v < 5 ∧ (v = (u + 1) % 5 ∨ u = (v + 1) % 5)))

def pentagonProblem : MixedProblem where
  numVars := 5
  varTypes _ := .binary
  lower _ := some 0
  upper _ := some 1
  feasible := {x | ∀ j < 5, (x j = 0 ∨ x j = 1) ∧ x j + x ((j + 1) % 5) ≤ 1}
  inBounds := by
    intro x hx j hj
    rcases (hx j hj).1 with h | h
    · rw [h]
      decide
    · rw [h]
      decide
  integral := by
    intro x hx j hj _
    rcases (hx j hj).1 with h | h
    · exact ⟨0, by rw [h, Int.cast_zero]⟩
    · exact ⟨1, by rw [h, Int.cast_one]⟩

lemma pentagon_conflict {u v : ℕ} (h : pentagonEdge u v = true) :
    pentagonProblem.Conflict u v ∧ u ≠ v := by
  obtain ⟨hu, hv, hne, hedge⟩ := of_decide_eq_true h
  refine ⟨fun x hx => ?_, hne⟩
  have hlow : ∀ w, w < 5 → pentagonProblem.literal x w = x w := by
    intro w hw
    have hmod : w % pentagonProblem.numVars = w := mod_eq_of_lt hw
    rw [MixedProblem.literal, hmod]
    exact if_neg (not_le.mpr hw)
  have hhigh : ∀ w, 5 ≤ w → pentagonProblem.literal x w = 1 - x (w % 5) :=
    fun w hw => if_pos hw
  rcases hedge with hsame | ⟨hu, hv, rfl | rfl⟩
  · rcases lt_or_ge u 5 with hu5 | hu5
    · rw [hlow u hu5, hhigh v (by omega), ← hsame, mod_eq_of_lt hu5]
      linarith
    · have hv5 : v < 5 := by omega
      rw [hlow v hv5, hhigh u hu5, hsame, mod_eq_of_lt hv5]
      linarith
  · rw [hlow u hu, hlow _ hv]
    exact (hx u hu).2
  · rw [hlow v hv, hlow _ hu, add_comm]
    exact (hx v hv).2

lemma pentagon_literal {v : ℕ} (h : v < 10) : pentagonProblem.IsLiteral v :=
  ⟨h, nofun, ⟨0, rfl, le_rfl⟩, ⟨1, rfl, le_rfl⟩⟩

def pentagonVertices : List ℕ := [0, 5, 1, 6, 2, 7, 3, 8, 4, 9]

def pentagonGraph : OddGraph where
  localAdj := pentagonVertices.map fun u =>
    (range 10).filter fun b => pentagonEdge u (pentagonVertices.getD b 0)
  weights := (replicate 5 [3 / 5, 2 / 5]).flatten
  lt := forall_mem_getD (by decide)
  symm := forall_mem_getD (by decide)
  weights_length := rfl

/-- Five binary variables on a circle, each in conflict with its neighbours. -/
def pentagon : ConflictSetting where
  p := pentagonProblem
  g := ⟨5, pentagonEdge, fun u => ((range 10).filter (pentagonEdge u)).length,
    fun u => (range 10).filter (pentagonEdge u), 0⟩
  numCols := 5
  numVars_eq := rfl
  le := le_rfl
  edge := fun _ _ => pentagon_conflict
  adjSet := fun _ _ hv => pentagon_literal (List.mem_range.mp (mem_of_mem_filter hv))
  localGraph := pentagonGraph
  vertices := pentagonVertices
  vertices_length := rfl
  vertices_nodup := by decide
  literal := fun v hv => pentagon_literal ((by decide : ∀ v ∈ pentagonVertices, v < 10) v hv)
  localEdge := by
    have hedge : ∀ a < pentagonGraph.localAdj.length, ∀ b ∈ pentagonGraph.localAdj.getD a [],
        pentagonEdge (pentagonVertices.getD a 0) (pentagonVertices.getD b 0) = true := by
      decide
    exact forall_mem_getD fun a ha b hb => (pentagon_conflict (hedge a ha b hb)).1
  irrefl a ha := forall_mem_getD (P := fun a b => a ≠ b) (by decide) a a ha rfl

def unlimited : ConflictLimits :=
  ⟨false, fun _ => false, fun _ => false, fun _ => false, ⊤, fun v => Int.log 2 v⟩

/-- A clique and an odd cycle that the searches find at the point `3 / 5` of the pentagon give valid
cuts. -/
theorem pentagon_cuts :
    (cliqueCut pentagon.g unlimited 5 insertionSorter (fun _ => 3 / 5) (fun _ => none) (1 / 10 ^ 5)
        (1 / 10 ^ 6) [0, 1] (some 0)).1 = .cutAdded ⟨[(0, -1), (1, -1)], -1⟩ ∧
      pentagon.p.Valid ⟨[(0, -1), (1, -1)], -1⟩ ∧
    (oddCycleCut pentagon.g unlimited 5 10 pentagonVertices insertionSorter (fun _ => 3 / 5)
        (fun _ => none) (1 / 10 ^ 6) [0, 12, 4, 16, 8, 10] (some 0)).1 =
      .cutAdded ⟨[(0, -1), (1, -1), (2, -1), (3, -1), (4, -1)], -2⟩ ∧
      pentagon.p.Valid ⟨[(0, -1), (1, -1), (2, -1), (3, -1), (4, -1)], -2⟩ := by
  obtain ⟨hclique, hodd, hsearch, hcalls⟩ := conflictCuts_keep pentagon unlimited insertionSorter
    (fun _ => 3 / 5) (fun _ => none) (1 / 10 ^ 5) (1 / 10 ^ 6) (some 0)
  have hcliqueCut : (cliqueCut pentagon.g unlimited 5 insertionSorter (fun _ => 3 / 5)
      (fun _ => none) (1 / 10 ^ 5) (1 / 10 ^ 6) [0, 1] (some 0)).1 =
        .cutAdded ⟨[(0, -1), (1, -1)], -1⟩ := by
    decide +kernel
  have hcycleCut : (oddCycleCut pentagon.g unlimited 5 10 pentagonVertices insertionSorter
      (fun _ => 3 / 5) (fun _ => none) (1 / 10 ^ 6) [0, 12, 4, 16, 8, 10] (some 0)).1 =
        .cutAdded ⟨[(0, -1), (1, -1), (2, -1), (3, -1), (4, -1)], -2⟩ := by
    decide +kernel
  have hreported : (((searchOf (· + ·) pentagonGraph.localAdj pentagonGraph.weights
      (1 + 1 / 10 ^ 6) 100000 fun _ => false).root 10 (some 0)).map BkContext.cliques) =
        some [[0, 2], [0, 8], [4, 2], [4, 6], [6, 8]] := by
    decide +kernel
  have hfound : (runCalls [⟨pentagonGraph, 0, 1 / 2 - 1 / 10 ^ 6, some 0, ⊤⟩]
      DijkstraScratch.empty).map (fun results => results.map OddCycleResult.found) =
        some [some ([0, 12, 4, 16, 8, 10], 0)] := by
    decide +kernel
  refine ⟨hcliqueCut, ?_, hcycleCut, ?_⟩
  · obtain ⟨ctx, hrun, hcliques⟩ := Option.map_eq_some_iff.mp hreported
    have hlocal := hsearch _ rfl rfl (some 0) ctx hrun [0, 2] (hcliques ▸ mem_cons_self)
    have hkeeps := hclique [0, 2] hlocal
    exact cast (congrArg pentagon.p.Keeps hcliqueCut) hkeeps
  · obtain ⟨results, hrun, hpaths⟩ := hcalls [⟨pentagonGraph, 0, 1 / 2 - 1 / 10 ^ 6, some 0, ⊤⟩]
      (by decide) (fun call hcall => mem_singleton.mp hcall ▸ rfl)
    rw [hrun] at hfound
    have hvalues : results.map OddCycleResult.found = [some ([0, 12, 4, 16, 8, 10], 0)] :=
      Option.some.inj hfound
    have hmem : some ([0, 12, 4, 16, 8, 10], (0 : ℚ)) ∈ results.map OddCycleResult.found := by
      rw [hvalues]
      exact mem_cons_self
    obtain ⟨result, hresult, hpath⟩ := mem_map.mp hmem
    have hkeeps := hodd _ (hpaths result hresult _ _ hpath)
    exact cast (congrArg pentagon.p.Keeps hcycleCut) hkeeps

end Pentagon

end ConflictSetting

end CuOpt.Cuts
