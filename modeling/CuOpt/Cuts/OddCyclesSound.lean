import CuOpt.Cuts.OddCycles

/-! What a call finds on the double cover, and that calls on the same arrays do not see what earlier
ones have written. -/

namespace CuOpt.Cuts

open ShortestPaths List Function Finset
open Nat (mod_eq_of_lt)
open Option (bind_some)
open DijkstraScratch (empty ensureSize)

namespace OddGraph

variable (g : OddGraph)

def size : ℕ := g.localAdj.length

def cross (u vLocal : ℕ) : ℕ := vLocal + (1 - u / g.size) * g.size

def cover : Network ℕ ℚ where
  next u := (g.localAdj.getD (u % g.size) []).map (g.cross u)
  cost u v := edgeWeight g.weights (u % g.size) (v % g.size)

lemma edgeWeight_nonneg (weights : List ℚ) (u v : ℕ) : 0 ≤ edgeWeight weights u v := by
  unfold edgeWeight
  dsimp only
  split_ifs with h
  · exact le_rfl
  · exact not_lt.mp h

lemma cover_nonneg (u v : ℕ) : 0 ≤ g.cover.cost u v := edgeWeight_nonneg _ _ _

variable {g} {u v : ℕ}

lemma cross_mod (hv : v < g.size) : g.cross u v % g.size = v := by
  rw [cross, Nat.add_mul_mod_self_right, mod_eq_of_lt hv]

lemma cross_div (hv : v < g.size) : g.cross u v / g.size = 1 - u / g.size := by
  rw [cross, Nat.add_mul_div_right v _ (by omega), Nat.div_eq_of_lt hv, zero_add]

lemma cross_lt (hv : v < g.size) : g.cross u v < 2 * g.size := by
  have hpart : (1 - u / g.size) * g.size ≤ 1 * g.size :=
    Nat.mul_le_mul_right _ (Nat.sub_le 1 _)
  rw [cross]
  omega

lemma mem_next {w : ℕ} (h : w ∈ g.cover.next u) :
    w < 2 * g.size ∧ w % g.size ∈ g.localAdj.getD (u % g.size) [] ∧
      w / g.size = 1 - u / g.size := by
  obtain ⟨v, hv, rfl⟩ := List.mem_map.mp h
  have hlt : v < g.size := g.lt _ v hv
  rw [cross_mod hlt, cross_div hlt]
  exact ⟨cross_lt hlt, hv, rfl⟩

lemma copy_flip {copy : ℕ} (h : copy < 2) : 1 - copy = 0 ↔ ¬ copy = 0 := by omega

lemma walkWeight_concat (weights : List ℚ) (q : List ℕ) {a : ℕ} (b : ℕ)
    (ha : q.getLast? = some a) :
    walkWeight weights (q ++ [b]) = walkWeight weights q + edgeWeight weights a b := by
  induction q with
  | nil => cases ha
  | cons x q ih =>
    cases q with
    | nil =>
      cases ha
      simp [walkWeight]
    | cons y q =>
      have hlast : (y :: q).getLast? = some a := by
        rw [getLast?_cons_cons] at ha
        exact ha
      show edgeWeight weights x y + walkWeight weights ((y :: q) ++ [b]) = _
      rw [ih hlast]
      exact (add_assoc _ _ _).symm

/-- A walk of the cover is a walk of the graph that ends in the second copy when its number of edges
is odd. -/
lemma walk_of_cover {s : ℕ} (hs : s < g.size) {p : List ℕ} {c : ℚ} (h : WalkTo g.cover s v p c) :
    v < 2 * g.size ∧ (v / g.size = 0 ↔ Odd p.length) ∧ (p.reverse.map (· % g.size)).head? = some s ∧
      (p.reverse.map (· % g.size)).getLast? = some (v % g.size) ∧
      (p.reverse.map (· % g.size)).IsChain (fun a b => b ∈ g.localAdj.getD a []) ∧
      walkWeight g.weights (p.reverse.map (· % g.size)) = c := by
  induction h with
  | start =>
    have hmod : s % g.size = s := mod_eq_of_lt hs
    refine ⟨by omega, ?_, ?_, ?_, ?_, rfl⟩
    · rw [Nat.div_eq_of_lt hs]
      exact ⟨fun _ => odd_one, fun _ => rfl⟩
    · simp [hmod]
    · simp
    · exact isChain_singleton _
  | @step u v p c hwalk hedge ih =>
    obtain ⟨hu, hpart, hhead, hlast, hchain, hweight⟩ := ih
    obtain ⟨hv, hmem, hdiv⟩ := mem_next hedge
    have hsplit : (v :: p).reverse.map (· % g.size) =
        p.reverse.map (· % g.size) ++ [v % g.size] := by
      rw [reverse_cons, map_append, List.map_singleton]
    have hucopy : u / g.size < 2 := Nat.div_lt_of_lt_mul (by omega)
    rw [hsplit]
    refine ⟨hv, ?_, ?_, ?_, ?_, ?_⟩
    · rw [hdiv, length_cons, Nat.odd_add_one, ← hpart]
      exact copy_flip hucopy
    · rw [head?_append, hhead]
      rfl
    · exact getLast?_concat
    · refine isChain_append.mpr ⟨hchain, isChain_singleton _, fun a ha b hb => ?_⟩
      rw [hlast] at ha
      cases ha
      cases hb
      exact hmem
    · rw [walkWeight_concat g.weights _ _ hlast, hweight]
      rfl

lemma exists_cover_walk {s : ℕ} (hs : s < g.size) (q : List ℕ) {x : ℕ}
    (hhead : q.head? = some s) (hlast : q.getLast? = some x)
    (hchain : q.IsChain (fun a b => b ∈ g.localAdj.getD a [])) :
    ∃ v p, WalkTo g.cover s v p (walkWeight g.weights q) ∧ v < 2 * g.size ∧ v % g.size = x ∧
      (v / g.size = 0 ↔ Odd q.length) := by
  induction q using reverseRecOn generalizing x with
  | nil => cases hhead
  | append_singleton q b ih =>
    have hbx : b = x := Option.some.inj (getLast?_concat.symm.trans hlast)
    subst hbx
    cases hq : q.getLast? with
    | none =>
      rw [getLast?_eq_none_iff] at hq
      subst hq
      cases hhead
      refine ⟨s, [s], .start, by omega, mod_eq_of_lt hs, ?_⟩
      rw [Nat.div_eq_of_lt hs]
      exact ⟨fun _ => odd_one, fun _ => rfl⟩
    | some a =>
      obtain ⟨hfront, -, hjoin⟩ := isChain_append.mp hchain
      have hb : b ∈ g.localAdj.getD a [] := hjoin a hq b rfl
      have hfirst : q.head? = some s := by
        cases q with
        | nil => cases hq
        | cons y q => exact hhead
      obtain ⟨v, p, hwalk, hv, hmod, hpart⟩ := ih hfirst hq hfront
      have hlt : b < g.size := g.lt a b hb
      have hedge : g.cross v b ∈ g.cover.next v := by
        refine List.mem_map.mpr ⟨b, ?_, rfl⟩
        rw [hmod]
        exact hb
      have hcopy : v / g.size < 2 := Nat.div_lt_of_lt_mul (by omega)
      have hcost : g.cover.cost v (g.cross v b) = edgeWeight g.weights a b := by
        show edgeWeight g.weights (v % g.size) (g.cross v b % g.size) = _
        rw [hmod, cross_mod hlt]
      refine ⟨g.cross v b, g.cross v b :: p, ?_, cross_lt hlt, cross_mod hlt, ?_⟩
      · rw [walkWeight_concat g.weights q b hq, ← hcost]
        exact hwalk.step hedge
      · rw [cross_div hlt, length_append, length_singleton, Nat.odd_add_one, ← hpart]
        exact copy_flip hcopy

end OddGraph

namespace DijkstraScratch

variable (scratch : DijkstraScratch)

def prevOf (v : ℕ) : Option ℕ :=
  if 0 ≤ scratch.prev v then some (scratch.prev v).toNat else none

lemma prevOf_eq_some {v b : ℕ} (h : scratch.prevOf v = some b) : scratch.prev v = b := by
  unfold prevOf at h
  split_ifs at h with hnonneg
  cases h
  exact (Int.toNat_of_nonneg hnonneg).symm

lemma curDist_write (v : ℕ) (d : ℚ) (parent : ℤ) :
    (scratch.write v d parent).curDist = update scratch.curDist v (some d) := by
  funext w
  by_cases hw : w = v
  · subst hw
    simp [curDist, write]
  · simp [curDist, write, hw]

lemma prevOf_write (v : ℕ) (d : ℚ) (parent : ℕ) :
    (scratch.write v d parent).prevOf = update scratch.prevOf v (some parent) := by
  funext w
  by_cases hw : w = v
  · subst hw
    simp [prevOf, write]
  · simp [prevOf, write, hw]

def Tidy : Prop := ∀ v, scratch.stamp v ≤ scratch.gen

variable {scratch}

lemma Tidy.write (h : scratch.Tidy) (v : ℕ) (d : ℚ) (parent : ℤ) :
    (scratch.write v d parent).Tidy := by
  intro w
  by_cases hw : w = v
  · subst hw
    exact (update_self w scratch.gen scratch.stamp).le
  · exact (update_of_ne hw _ scratch.stamp).le.trans (h w)

end DijkstraScratch

instance : Std.Total EntryLe where
  total a b := by
    rcases lt_trichotomy a.1 b.1 with h | h | h
    · exact .inl (.inl h)
    · exact (le_total a.2 b.2).imp (fun hle => .inr ⟨h, hle⟩) fun hle => .inr ⟨h.symm, hle⟩
    · exact .inr (.inl h)

instance : IsTrans (ℚ × ℕ) EntryLe where
  trans a b c hab hbc := by
    rcases hab with hab | ⟨hab, hab'⟩
    · rcases hbc with hbc | ⟨hbc, -⟩
      · exact .inl (hab.trans hbc)
      · exact .inl (hbc ▸ hab)
    · rcases hbc with hbc | ⟨hbc, hbc'⟩
      · exact .inl (hab ▸ hbc)
      · exact .inr ⟨hab.trans hbc, hab'.trans hbc'⟩

section Loop

variable {g : OddGraph} {s target : ℕ} {cutoff : ℚ} {maxWork : WithTop ℚ} {st : DijkstraState}
  {settled : Finset ℕ}

def DijkstraState.InCover (g : OddGraph) (st : DijkstraState) : Prop :=
  ∀ v, st.scratch.curDist v ≠ none → v < 2 * g.size

variable {u v : ℕ} {d : ℚ}

lemma relaxNeighbour_expanding {todo : List ℕ} (hv : v < g.size)
    (h : Expanding g.cover s u d (g.cross u v :: todo) settled st.scratch.curDist
      st.scratch.prevOf st.queue) (hsorted : st.queue.Pairwise EntryLe) (hcover : st.InCover g) :
    Expanding g.cover s u d todo settled
        (relaxNeighbour g.localAdj g.weights u d st v).scratch.curDist
        (relaxNeighbour g.localAdj g.weights u d st v).scratch.prevOf
        (relaxNeighbour g.localAdj g.weights u d st v).queue ∧
      (relaxNeighbour g.localAdj g.weights u d st v).queue.Pairwise EntryLe ∧
      (relaxNeighbour g.localAdj g.weights u d st v).InCover g ∧
      (relaxNeighbour g.localAdj g.weights u d st v).queue.length ≤ st.queue.length + 1 := by
  have hcost : g.cover.cost u (g.cross u v) = edgeWeight g.weights (u % g.size) v := by
    show edgeWeight g.weights (u % g.size) (g.cross u v % g.size) = _
    rw [OddGraph.cross_mod hv]
  have hvalue : relaxNeighbour g.localAdj g.weights u d st v =
      if (st.scratch.curDist (g.cross u v)).all
          fun dv => decide (d + g.cover.cost u (g.cross u v) < dv) then
        ⟨st.scratch.write (g.cross u v) (d + g.cover.cost u (g.cross u v)) u,
          st.queue.orderedInsert EntryLe (d + g.cover.cost u (g.cross u v), g.cross u v)⟩
      else st := by
    rw [hcost]
    rfl
  rw [hvalue]
  split_ifs with hsmaller
  · refine ⟨?_, hsorted.orderedInsert _ _, ?_, (orderedInsert_length _ _ _).le⟩
    · dsimp only
      rw [DijkstraScratch.curDist_write, DijkstraScratch.prevOf_write]
      refine h.improve g.cover_nonneg (fun dv hdv => ?_) (perm_orderedInsert _ _ _)
      rw [hdv] at hsmaller
      exact of_decide_eq_true hsmaller
    · intro w hw
      dsimp only at hw
      rw [DijkstraScratch.curDist_write] at hw
      by_cases heq : w = g.cross u v
      · rw [heq]
        exact OddGraph.cross_lt hv
      · rw [update_of_ne heq] at hw
        exact hcover w hw
  · refine ⟨h.keep ?_, hsorted, hcover, Nat.le_succ _⟩
    cases hdv : st.scratch.curDist (g.cross u v) with
    | none =>
      rw [hdv] at hsmaller
      exact absurd rfl hsmaller
    | some dv =>
      rw [hdv] at hsmaller
      exact ⟨dv, rfl, not_lt.mp fun hlt => hsmaller (decide_eq_true hlt)⟩

lemma foldl_relaxNeighbour (todo : List ℕ) (htodo : ∀ v ∈ todo, v < g.size)
    (h : Expanding g.cover s u d (todo.map (g.cross u)) settled st.scratch.curDist
      st.scratch.prevOf st.queue) (hsorted : st.queue.Pairwise EntryLe) (hcover : st.InCover g) :
    Inv g.cover s noEdge settled
        (todo.foldl (relaxNeighbour g.localAdj g.weights u d) st).scratch.curDist
        (todo.foldl (relaxNeighbour g.localAdj g.weights u d) st).scratch.prevOf
        (todo.foldl (relaxNeighbour g.localAdj g.weights u d) st).queue ∧
      (todo.foldl (relaxNeighbour g.localAdj g.weights u d) st).queue.Pairwise EntryLe ∧
      (todo.foldl (relaxNeighbour g.localAdj g.weights u d) st).InCover g ∧
      (todo.foldl (relaxNeighbour g.localAdj g.weights u d) st).queue.length ≤
        st.queue.length + todo.length := by
  induction todo generalizing st with
  | nil => exact ⟨h.finish, hsorted, hcover, le_rfl⟩
  | cons v todo ih =>
    obtain ⟨hnext, hsorted', hcover', hlen⟩ :=
      relaxNeighbour_expanding (htodo v mem_cons_self) h hsorted hcover
    obtain ⟨hinv, hsorted'', hcover'', hlen'⟩ :=
      ih (fun w hw => htodo w (mem_cons_of_mem v hw)) hnext hsorted' hcover'
    refine ⟨hinv, hsorted'', hcover'', ?_⟩
    rw [foldl_cons, length_cons]
    omega

/-- What the loop leaves when the work limit has not ended it: each distance is that of a walk along
the parents, and no walk to the target below the cutoff is shorter than the target's distance. -/
structure Searched (g : OddGraph) (s target : ℕ) (cutoff : ℚ) (scratch : DijkstraScratch) :
    Prop where
  path : ∀ v d, scratch.curDist v = some d → ∃ p, WalkTo g.cover s v (v :: p) d ∧
    Traced scratch.prevOf s (v :: p) ∧ (v :: p).length ≤ 2 * g.size
  best : ∀ p c, WalkTo g.cover s target p c →
    (∃ d, scratch.curDist target = some d ∧ d ≤ c) ∨ 0 < cutoff ∧ cutoff ≤ c

lemma path_of_inv {scratch : DijkstraScratch} {queue : List (ℚ × ℕ)} (hs : s < g.size)
    (h : Inv g.cover s noEdge settled scratch.curDist scratch.prevOf queue)
    (v : ℕ) (d : ℚ) (hd : scratch.curDist v = some d) :
    ∃ p, WalkTo g.cover s v (v :: p) d ∧ Traced scratch.prevOf s (v :: p) ∧
      (v :: p).length ≤ 2 * g.size := by
  obtain ⟨p, hwalk, htraced, -, hnodup⟩ := h.path v d hd
  have hlt : ∀ {v p c}, WalkTo g.cover s v p c → ∀ w ∈ p, w < 2 * g.size := by
    intro v p c hwalk
    induction hwalk with
    | start =>
      intro w hw
      rw [List.mem_singleton.mp hw]
      omega
    | step _ hedge ih =>
      intro w hw
      rcases List.mem_cons.mp hw with rfl | hw
      · exact (OddGraph.mem_next hedge).1
      · exact ih w hw
  refine ⟨p, hwalk, htraced, ?_⟩
  have hsubset : (v :: p).toFinset ⊆ Finset.range (2 * g.size) :=
    fun w hw => Finset.mem_range.mpr (hlt hwalk w (List.mem_toFinset.mp hw))
  have hcard := card_le_card hsubset
  rw [toFinset_card_of_nodup hnodup, card_range] at hcard
  exact hcard

def openEdges (g : OddGraph) (settled : Finset ℕ) : ℕ :=
  ∑ u ∈ Finset.range (2 * g.size) \ settled, (g.localAdj.getD (u % g.size) []).length

lemma openEdges_insert (hu : u < 2 * g.size) (hnew : u ∉ settled) :
    openEdges g (insert u settled) + (g.localAdj.getD (u % g.size) []).length =
      openEdges g settled := by
  have hmem : u ∈ Finset.range (2 * g.size) \ settled :=
    mem_sdiff.mpr ⟨Finset.mem_range.mpr hu, hnew⟩
  rw [openEdges, openEdges, sdiff_insert, sum_erase_add _ _ hmem]

lemma dijkstraLoop_searched (hs : s < g.size) (fuel : ℕ) (work : Option ℚ)
    (h : Inv g.cover s noEdge settled st.scratch.curDist st.scratch.prevOf st.queue)
    (hsorted : st.queue.Pairwise EntryLe) (hcover : st.InCover g) (htarget : target ∉ settled)
    (hfuel : st.queue.length + openEdges g settled < fuel) :
    ∃ st' work' limitMet, dijkstraLoop g.localAdj g.weights target cutoff maxWork fuel st work =
        some (st', work', limitMet) ∧
      (limitMet = false → Searched g s target cutoff st'.scratch) := by
  induction fuel generalizing st settled work with
  | zero => exact absurd hfuel (Nat.not_lt_zero _)
  | succ fuel ih =>
    rw [dijkstraLoop]
    cases hqueue : st.queue with
    | nil =>
      rw [hqueue] at h
      exact ⟨_, _, _, rfl, fun _ => ⟨path_of_inv hs h, fun p c hwalk =>
        .inl (h.exists_le_of_empty g.cover_nonneg hwalk)⟩⟩
    | cons entry rest =>
      obtain ⟨d, u⟩ := entry
      rw [hqueue] at h hsorted hfuel
      rw [length_cons] at hfuel
      obtain ⟨hfirst, hrest⟩ := List.pairwise_cons.mp hsorted
      have hmin : ∀ e ∈ rest, d ≤ e.1 := by
        intro e he
        rcases hfirst e he with hlt | ⟨heq, -⟩
        · exact hlt.le
        · exact heq.le
      have hnewIff : (∃ du, st.scratch.curDist u = some du ∧ du < d) ↔
          ((st.scratch.curDist u).any fun du => decide (du < d)) = true := by
        rw [Option.any_eq_true]
        exact exists_congr fun du => and_congr_right fun _ => decide_eq_true_iff.symm
      dsimp only
      split_ifs with hold hstop hcut hover
      · have hdrop := h.drop (hnewIff.mpr hold)
        exact ih work hdrop hrest hcover htarget (by show rest.length + _ < fuel; omega)
      · refine ⟨_, _, _, rfl, fun _ => ⟨path_of_inv hs h, fun p c hwalk => .inl ⟨d, ?_, ?_⟩⟩⟩
        · rw [← hstop]
          exact (h.fresh fun hex => hold (hnewIff.mp hex)).1
        · exact h.le_of_walk g.cover_nonneg hmin hwalk htarget
      · refine ⟨_, _, _, rfl, fun _ => ⟨path_of_inv hs h, fun p c hwalk => .inr ⟨hcut.1, ?_⟩⟩⟩
        exact hcut.2.trans (h.le_of_walk g.cover_nonneg hmin hwalk htarget)
      · exact ⟨_, _, _, rfl, nofun⟩
      · have hfresh : ¬ ∃ du, st.scratch.curDist u = some du ∧ du < d :=
          fun hex => hold (hnewIff.mp hex)
        obtain ⟨hdu, hu⟩ := h.fresh hfresh
        have hlt : u < 2 * g.size := hcover u (by rw [hdu]; exact Option.some_ne_none d)
        have hexpand := h.expand g.cover_nonneg hmin hfresh
        have hpopped : DijkstraState.InCover g ⟨st.scratch, rest⟩ := hcover
        obtain ⟨hinv, hsorted', hcover', hlen⟩ :=
          foldl_relaxNeighbour (g.localAdj.getD (u % g.size) []) (g.lt _) hexpand hrest hpopped
        have hopen := openEdges_insert hlt hu
        refine ih _ hinv hsorted' hcover' ?_ ?_
        · rw [mem_insert, not_or]
          exact ⟨fun heq => hstop heq.symm, htarget⟩
        · refine lt_of_le_of_lt (Nat.add_le_add_right hlen _) ?_
          dsimp only
          omega

lemma tracePath_of_traced {scratch : DijkstraScratch} {p : List ℕ} {fuel : ℕ}
    (h : Traced scratch.prevOf s (v :: p)) (hfuel : (v :: p).length ≤ fuel) :
    tracePath scratch.prev s fuel v = some (v :: p) := by
  induction p generalizing v fuel with
  | nil =>
    cases fuel with
    | zero => exact absurd hfuel (Nat.not_succ_le_zero 0)
    | succ fuel =>
      have hv : v = s := h
      rw [tracePath, if_neg (by omega), if_pos (by rw [hv]), hv]
  | cons w p ih =>
    cases fuel with
    | zero => exact absurd hfuel (Nat.not_succ_le_zero _)
    | succ fuel =>
      have hrest := ih h.2.2 (Nat.le_of_succ_le_succ hfuel)
      have hne : ¬ (v : ℤ) = (s : ℤ) := fun heq => h.1 (Int.ofNat.inj heq)
      rw [tracePath, if_neg (by omega), if_neg hne, Int.toNat_natCast,
        DijkstraScratch.prevOf_eq_some _ h.2.1, hrest]
      rfl

lemma relaxNeighbour_tidy (h : st.scratch.Tidy) :
    (relaxNeighbour g.localAdj g.weights u d st v).scratch.gen = st.scratch.gen ∧
      (relaxNeighbour g.localAdj g.weights u d st v).scratch.Tidy := by
  unfold relaxNeighbour
  dsimp only
  split_ifs
  · exact ⟨rfl, h.write _ _ _⟩
  · exact ⟨rfl, h⟩

lemma foldl_relaxNeighbour_tidy (todo : List ℕ) (h : st.scratch.Tidy) :
    (todo.foldl (relaxNeighbour g.localAdj g.weights u d) st).scratch.gen = st.scratch.gen ∧
      (todo.foldl (relaxNeighbour g.localAdj g.weights u d) st).scratch.Tidy := by
  induction todo generalizing st with
  | nil => exact ⟨rfl, h⟩
  | cons v todo ih =>
    obtain ⟨hgen, htidy⟩ := relaxNeighbour_tidy (g := g) (u := u) (v := v) (d := d) h
    obtain ⟨hgen', htidy'⟩ := ih htidy
    exact ⟨hgen'.trans hgen, htidy'⟩

lemma dijkstraLoop_tidy {fuel : ℕ} {work work' : Option ℚ} {st' : DijkstraState} {limitMet : Bool}
    (h : st.scratch.Tidy)
    (hrun : dijkstraLoop g.localAdj g.weights target cutoff maxWork fuel st work =
      some (st', work', limitMet)) : st'.scratch.gen = st.scratch.gen ∧ st'.scratch.Tidy := by
  induction fuel generalizing st work with
  | zero => cases hrun
  | succ fuel ih =>
    rw [dijkstraLoop] at hrun
    split at hrun
    case h_1 =>
      cases hrun
      exact ⟨rfl, h⟩
    case h_2 d u rest hqueue =>
      have hpopped : (DijkstraState.mk st.scratch rest).scratch.Tidy := h
      dsimp only at hrun
      split_ifs at hrun
      · have hlater := ih hpopped hrun
        exact hlater
      · cases hrun
        exact ⟨rfl, h⟩
      · cases hrun
        exact ⟨rfl, h⟩
      · cases hrun
        exact ⟨rfl, h⟩
      · obtain ⟨hgen, htidy⟩ := foldl_relaxNeighbour_tidy (g := g) (u := u) (d := d)
          (g.localAdj.getD (u % g.localAdj.length) []) hpopped
        obtain ⟨hgen', htidy'⟩ := ih htidy hrun
        exact ⟨hgen'.trans hgen, htidy'⟩

lemma dijkstraLoop_unlimited {fuel : ℕ} {work work' : Option ℚ} {st' : DijkstraState}
    {limitMet : Bool}
    (hrun : dijkstraLoop g.localAdj g.weights target cutoff ⊤ fuel st work =
      some (st', work', limitMet)) : limitMet = false := by
  induction fuel generalizing st work with
  | zero => cases hrun
  | succ fuel ih =>
    rw [dijkstraLoop] at hrun
    split at hrun
    · cases hrun
      rfl
    · dsimp only at hrun
      split_ifs at hrun with houtdated htarget hcutoff hover
      · exact ih hrun
      · cases hrun
        rfl
      · cases hrun
        rfl
      · exact absurd hover (Bool.eq_false_iff.mp (addWorkEstimate_top _ _))
      · exact ih hrun

end Loop

section Calls

variable {g : OddGraph} {s : ℕ}

/-- The walks of the cover to the second copy of the source are the odd closed walks. -/
lemma isOddClosedWalk_of_cover (hs : s < g.size) {p : List ℕ} {c : ℚ}
    (h : WalkTo g.cover s (s + g.size) p c) :
    g.IsOddClosedWalk s (p.reverse.map (· % g.size)) ∧
      walkWeight g.weights (p.reverse.map (· % g.size)) = c := by
  obtain ⟨-, hpart, hhead, hlast, hchain, hweight⟩ := OddGraph.walk_of_cover hs h
  refine ⟨⟨⟨s, rfl, hhead, ?_⟩, hchain, ?_⟩, hweight⟩
  · rw [Nat.add_mod_right, mod_eq_of_lt hs] at hlast
    exact hlast
  · rw [length_map, length_reverse, ← Nat.not_odd_iff_even, ← hpart, Nat.add_div_right s (by omega)]
    exact Nat.succ_ne_zero _

lemma cover_of_isOddClosedWalk (hs : s < g.size) {q : List ℕ} (h : g.IsOddClosedWalk s q) :
    ∃ p, WalkTo g.cover s (s + g.size) p (walkWeight g.weights q) := by
  obtain ⟨⟨s', heq, hhead, hlast⟩, hchain, heven⟩ := h
  rw [Int.ofNat.inj heq] at hhead hlast
  obtain ⟨v, p, hwalk, hv, hmod, hpart⟩ := OddGraph.exists_cover_walk hs q hhead hlast hchain
  have hcopy : v / g.size = 1 := by
    have hlt : v / g.size < 2 := Nat.div_lt_of_lt_mul (by omega)
    have hne : ¬ v / g.size = 0 := fun hzero => Nat.not_odd_iff_even.mpr heven (hpart.mp hzero)
    exact le_antisymm (Nat.le_of_lt_succ hlt) (Nat.one_le_iff_ne_zero.mpr hne)
  have htarget : v = s + g.size := by
    have hdecomp := Nat.mod_add_div v g.size
    rw [hmod, hcopy, Nat.mul_one] at hdecomp
    exact hdecomp.symm
  exact ⟨p, htarget ▸ hwalk⟩

lemma source_of_isOddClosedWalk {source : ℤ} {q : List ℕ} (h : g.IsOddClosedWalk source q) :
    0 ≤ source ∧ source < g.size := by
  obtain ⟨⟨s, rfl, hhead, -⟩, hchain, heven⟩ := h
  refine ⟨Int.natCast_nonneg s, Int.ofNat_lt.mpr ?_⟩
  cases q with
  | nil => cases hhead
  | cons a q =>
    cases hhead
    cases q with
    | nil => exact absurd heven Nat.not_even_one
    | cons b q =>
      have hedge : b ∈ g.localAdj.getD s [] := (isChain_cons_cons.mp hchain).1
      by_contra hle
      rw [getD_eq_default _ _ (not_lt.mp hle)] at hedge
      exact not_mem_nil hedge

lemma sum_range_getD (l : List (List ℕ)) :
    ∑ u ∈ Finset.range l.length, (l.getD u []).length = (l.map length).sum := by
  induction l with
  | nil => rfl
  | cons x l ih =>
    rw [length_cons, Finset.sum_range_succ', List.map_cons, List.sum_cons, ← ih, add_comm]
    rfl

lemma openEdges_empty : openEdges g ∅ = 2 * (g.localAdj.map length).sum := by
  rw [openEdges, sdiff_empty, two_mul, sum_range_add, ← sum_range_getD, two_mul]
  refine congrArg₂ (· + ·) ?_ ?_
  · refine sum_congr rfl fun u hu => ?_
    have hmod : u % g.size = u := mod_eq_of_lt (Finset.mem_range.mp hu)
    rw [hmod]
  · refine sum_congr rfl fun u hu => ?_
    have hmod : (g.size + u) % g.size = u :=
      (Nat.add_mod_left _ u).trans (mod_eq_of_lt (Finset.mem_range.mp hu))
    rw [hmod]

variable {scratch : DijkstraScratch}

lemma ensureSize_tidy (h : scratch.Tidy) (n : ℕ) :
    (scratch.ensureSize n).Tidy ∧ (scratch.ensureSize n).gen ≤ scratch.gen := by
  unfold ensureSize
  split_ifs
  · exact ⟨fun v => le_rfl, Nat.zero_le _⟩
  · exact ⟨h, le_rfl⟩

/-- Unless the counter wraps, no earlier entry counts after the generation has moved on. -/
lemma nextGen_fresh (h : scratch.Tidy) (hgen : scratch.gen + 1 < 2 ^ 64) :
    scratch.nextGen.gen = scratch.gen + 1 ∧ scratch.nextGen.Tidy ∧
      scratch.nextGen.curDist = fun _ => none := by
  have hnext : scratch.nextGen.gen = scratch.gen + 1 := mod_eq_of_lt hgen
  have hbelow : ∀ v, scratch.nextGen.stamp v < scratch.nextGen.gen := by
    intro v
    rw [hnext]
    exact Nat.lt_succ_of_le (h v)
  refine ⟨hnext, fun v => (hbelow v).le, ?_⟩
  funext v
  exact if_neg (hbelow v).ne

lemma exact_none {call : OddCall}
    (h : ∀ p, call.graph.IsOddClosedWalk call.source p →
      ¬ (0 < call.cutoff → walkWeight call.graph.weights p < call.cutoff)) : call.Exact none :=
  ⟨⟨nofun, fun ⟨p, hp, hlt⟩ => absurd hlt (h p hp)⟩, fun _ _ => nofun⟩

/-- The work limit is not met if there is none, or if a walk is found. -/
lemma run_limitMet {call : OddCall} {result : OddCycleResult} (hrun : call.run scratch = some result)
    (h : call.maxWorkEstimate = ⊤ ∨ result.found.isSome = true) : result.limitMet = false := by
  unfold OddCall.run dijkstraOddCycle at hrun
  dsimp only at hrun
  split_ifs at hrun
  · cases hrun
    rfl
  · cases hrun
    rfl
  · obtain ⟨⟨st, work, limitMet⟩, hloop, hrest⟩ := Option.bind_eq_some_iff.mp hrun
    dsimp only at hrest
    split_ifs at hrest with hlimit
    · cases hrest
      rcases h with hmax | hfound
      · rw [hmax] at hloop
        exact absurd hlimit (Bool.eq_false_iff.mp (dijkstraLoop_unlimited hloop))
      · cases hfound
    · split at hrest
      · cases hrest
        rfl
      · split_ifs at hrest
        · cases hrest
          rfl
        · obtain ⟨path, -, rfl⟩ := Option.map_eq_some_iff.mp hrest
          rfl

/-- A call that the work limit does not end is exact, whatever earlier calls have left. -/
lemma run_exact (call : OddCall) (htidy : scratch.Tidy) (hgen : scratch.gen + 1 < 2 ^ 64) :
    ∃ result, call.run scratch = some result ∧ result.scratch.Tidy ∧
      result.scratch.gen ≤ scratch.gen + 1 ∧
      (result.limitMet = false → call.Exact result.found) := by
  obtain ⟨g, source, cutoff, work, maxWork⟩ := call
  unfold OddCall.run dijkstraOddCycle
  dsimp only
  split_ifs with hsource hweights
  · refine ⟨_, rfl, htidy, Nat.le_succ _, fun _ => exact_none fun p hp => ?_⟩
    obtain ⟨hnonneg, hlt⟩ := source_of_isOddClosedWalk hp
    rcases hsource with hneg | hlarge
    · exact absurd hneg (not_lt.mpr hnonneg)
    · exact absurd hlt (not_lt.mpr hlarge)
  · exact absurd g.weights_length hweights
  · obtain ⟨s, rfl⟩ : ∃ s : ℕ, source = s := Int.eq_ofNat_of_zero_le (by omega)
    have hs : s < g.size := by
      show s < g.localAdj.length
      omega
    rw [Int.toNat_natCast]
    obtain ⟨hsized, hsizedGen⟩ := ensureSize_tidy htidy (2 * g.localAdj.length)
    obtain ⟨hnext, hnextTidy, hfresh⟩ := nextGen_fresh hsized (by omega)
    generalize hstart : ((scratch.ensureSize (2 * g.localAdj.length)).nextGen).write s 0 (-1) = start
    have hstartTidy : start.Tidy := hstart ▸ hnextTidy.write s 0 (-1)
    have hstartGen : start.gen ≤ scratch.gen + 1 := by
      rw [← hstart]
      exact hnext.le.trans (Nat.succ_le_succ hsizedGen)
    have hstartDist : start.curDist = update (fun _ => none) s (some 0) := by
      rw [← hstart, DijkstraScratch.curDist_write, hfresh]
    have hinv : Inv g.cover s noEdge ∅ start.curDist start.prevOf [(0, s)] := by
      rw [hstartDist]
      exact Inv.start start.prevOf
    have hcover : DijkstraState.InCover g ⟨start, [(0, s)]⟩ := by
      intro v hv
      by_cases heq : v = s
      · omega
      · refine absurd ?_ hv
        show start.curDist v = none
        rw [hstartDist, update_of_ne heq]
    have hfuel : [((0 : ℚ), s)].length + openEdges g ∅ < dijkstraFuel g.localAdj := by
      rw [openEdges_empty, dijkstraFuel, length_singleton]
      omega
    have hloop : ∃ st work' limitMet, dijkstraLoop g.localAdj g.weights (s + g.localAdj.length)
        cutoff maxWork (dijkstraFuel g.localAdj) ⟨start, [(0, s)]⟩ work =
          some (st, work', limitMet) ∧
        (limitMet = false → Searched g s (s + g.localAdj.length) cutoff st.scratch) :=
      dijkstraLoop_searched hs (dijkstraFuel g.localAdj) work hinv (pairwise_singleton _ _)
        hcover (notMem_empty _) hfuel
    obtain ⟨st, work', limitMet, hrun, hsearched⟩ := hloop
    obtain ⟨hgen', htidy'⟩ := dijkstraLoop_tidy hstartTidy hrun
    have hgenLe : st.scratch.gen ≤ scratch.gen + 1 := hgen'.le.trans hstartGen
    rw [hrun, bind_some]
    dsimp only
    split_ifs with hlimit
    · exact ⟨_, rfl, htidy', hgenLe, nofun⟩
    · have hdone := hsearched (Bool.eq_false_of_not_eq_true hlimit)
      cases htotal : st.scratch.curDist (s + g.localAdj.length) with
      | none =>
        refine ⟨_, rfl, htidy', hgenLe, fun _ => exact_none fun q hq hlt => ?_⟩
        obtain ⟨p, hwalk⟩ := cover_of_isOddClosedWalk hs hq
        rcases hdone.best p _ hwalk with ⟨d, hd, -⟩ | ⟨hpos, hle⟩
        · exact Option.some_ne_none d (hd.symm.trans htotal)
        · exact absurd (hlt hpos) (not_lt.mpr hle)
      | some total =>
        dsimp only
        obtain ⟨p, hwalk, htraced, hlen⟩ := hdone.path _ total htotal
        have htrace : tracePath st.scratch.prev s (2 * g.localAdj.length + 1)
            ((s + g.localAdj.length : ℕ) : ℤ) = some ((s + g.localAdj.length) :: p) :=
          tracePath_of_traced htraced (hlen.trans (Nat.le_succ _))
        have hbest : ∀ q, g.IsOddClosedWalk s q → total ≤ walkWeight g.weights q ∨
            0 < cutoff ∧ cutoff ≤ walkWeight g.weights q := by
          intro q hq
          obtain ⟨p', hwalk'⟩ := cover_of_isOddClosedWalk hs hq
          refine (hdone.best p' _ hwalk').imp (fun ⟨d, hd, hle⟩ => ?_) id
          rw [htotal] at hd
          cases hd
          exact hle
        split_ifs with hlong
        · refine ⟨_, rfl, htidy', hgenLe, fun _ => exact_none fun q hq hlt => ?_⟩
          have hcut : cutoff ≤ walkWeight g.weights q :=
            (hbest q hq).elim hlong.2.trans And.right
          exact absurd (hlt hlong.1) (not_lt.mpr hcut)
        · rw [htrace, Option.map_some]
          obtain ⟨hodd, hweight⟩ := isOddClosedWalk_of_cover hs hwalk
          have hshort : 0 < cutoff → total < cutoff :=
            fun hpos => not_le.mp fun hle => hlong ⟨hpos, hle⟩
          refine ⟨_, rfl, htidy', hgenLe, fun _ => ⟨⟨fun _ => ?_, fun _ => rfl⟩, ?_⟩⟩
          · exact ⟨_, hodd, fun hpos => hweight.trans_lt (hshort hpos)⟩
          · intro path total' hfound
            cases hfound
            refine ⟨hodd, hweight, fun q hq => ?_⟩
            rcases hbest q hq with hle | ⟨hpos, hle⟩
            · exact hle
            · exact (hshort hpos).le.trans hle

/-- The answer of a call is exact unless the work limit ends it, and then it finds nothing. -/
def OddCall.Answered (call : OddCall) (result : OddCycleResult) : Prop :=
  (call.maxWorkEstimate = ⊤ ∨ result.found.isSome = true → result.limitMet = false) ∧
    (result.limitMet = false → call.Exact result.found)

lemma runCalls_answered (calls : List OddCall) {scratch : DijkstraScratch} (htidy : scratch.Tidy)
    (hgen : scratch.gen + calls.length < 2 ^ 64) :
    ∃ results, runCalls calls scratch = some results ∧
      Forall₂ OddCall.Answered calls results := by
  induction calls generalizing scratch with
  | nil => exact ⟨[], rfl, .nil⟩
  | cons call rest ih =>
    rw [length_cons] at hgen
    obtain ⟨result, hcall, htidy', hgen', hexact⟩ := run_exact call htidy (by omega)
    obtain ⟨results, hrest, hall⟩ := ih htidy' (by omega)
    refine ⟨result :: results, ?_, .cons ⟨run_limitMet hcall, hexact⟩ hall⟩
    rw [runCalls, hcall, bind_some, hrest]
    rfl

lemma DijkstraScratch.empty_tidy : empty.Tidy := fun _ => le_rfl

/-- Each of fewer than `2 ^ 64` calls on the same arrays is answered. -/
theorem runCalls_exact (calls : List OddCall) (hcalls : calls.length < 2 ^ 64) :
    ∃ results, runCalls calls empty = some results ∧
      Forall₂ OddCall.Answered calls results := by
  refine runCalls_answered calls DijkstraScratch.empty_tidy ?_
  show 0 + calls.length < 2 ^ 64
  omega

/-- Each edge has the weight `1 / 10`. -/
def triangle : OddGraph where
  localAdj := [[2, 1], [2, 0], [1, 0]]
  weights := [2 / 5, 2 / 5, 2 / 5]
  lt := forall_mem_getD (by decide)
  symm := forall_mem_getD (by decide)
  weights_length := rfl

def triangleCall (source : ℤ) (cutoff : ℚ) (maxWorkEstimate : WithTop ℚ) : OddCall :=
  ⟨triangle, source, cutoff, some 0, maxWorkEstimate⟩

def lone : OddGraph where
  localAdj := [[]]
  weights := [0]
  lt := forall_mem_getD (by decide)
  symm := forall_mem_getD (by decide)
  weights_length := rfl

/-- The second call cuts off what the first has found from another vertex, the third has no edge. -/
def reusedCalls : List OddCall :=
  [triangleCall 0 (1 / 2) ⊤, triangleCall 1 (1 / 4) ⊤, ⟨lone, 0, 1 / 2, some 0, ⊤⟩]

theorem runCalls_exact_reused :
    ∃ results, runCalls reusedCalls empty = some results ∧
      (results.map fun result => (result.limitMet, result.found.map Prod.snd)) =
        [(false, some (3 / 10)), (false, none), (false, none)] ∧
      Forall₂ (fun call result => OddCall.Exact call result.found) reusedCalls results := by
  obtain ⟨results, hrun, hall⟩ := runCalls_exact reusedCalls (by decide)
  have hvalues : (runCalls reusedCalls empty).map (fun results =>
      results.map fun result => (result.limitMet, result.found.map Prod.snd)) =
        some [(false, some (3 / 10)), (false, none), (false, none)] := by
    decide +kernel
  rw [hrun] at hvalues
  refine ⟨results, hrun, Option.some.inj hvalues, ?_⟩
  obtain _ | ⟨h₁, _ | ⟨h₂, _ | ⟨h₃, _ | _⟩⟩⟩ := hall
  exact .cons (h₁.2 (h₁.1 (.inl rfl)))
    (.cons (h₂.2 (h₂.1 (.inl rfl))) (.cons (h₃.2 (h₃.1 (.inl rfl))) .nil))

def loneCall : OddCall := ⟨lone, 0, 1, none, ⊤⟩

def loneScratch (k : ℕ) : DijkstraScratch :=
  ⟨2, fun _ => 0, Function.update (fun _ => 0) 0 (-1), Function.update (fun _ => 0) 0 k, k⟩

lemma loneScratch_next (k : ℕ) :
    (((loneScratch k).ensureSize 2).nextGen).write 0 0 (-1) = loneScratch ((k + 1) % 2 ^ 64) := by
  unfold loneScratch ensureSize DijkstraScratch.nextGen DijkstraScratch.write
  simp [update_idem]

lemma loneScratch_first :
    ((empty.ensureSize 2).nextGen).write 0 0 (-1) = loneScratch 1 := by
  unfold loneScratch empty ensureSize DijkstraScratch.nextGen
    DijkstraScratch.write
  simp

/-- The call finds a walk when the generation is zero: the target's entry, which was never written,
then counts. -/
lemma lone_run {scratch : DijkstraScratch} {k : ℕ}
    (hstart : ((scratch.ensureSize 2).nextGen).write 0 0 (-1) = loneScratch k) :
    loneCall.run scratch =
      some ⟨if k = 0 then some ([0, 1], 0) else none, loneScratch k, none, false⟩ := by
  have hself : (loneScratch k).curDist 0 = some 0 := by simp [DijkstraScratch.curDist, loneScratch]
  have htrace : tracePath (loneScratch k).prev 0 3 1 = some [1, 0] := by
    simp [tracePath, loneScratch]
  unfold OddCall.run dijkstraOddCycle
  by_cases hk : k = 0
  · subst hk
    have htarget : (loneScratch 0).curDist 1 = some 0 := by
      simp [DijkstraScratch.curDist, loneScratch]
    simp [loneCall, lone, hstart, dijkstraFuel, dijkstraLoop, addWorkEstimate, hself, htarget,
      htrace]
  · have htarget : (loneScratch k).curDist 1 = none := by
      simp [DijkstraScratch.curDist, loneScratch, Ne.symm hk]
    simp [loneCall, lone, hstart, dijkstraFuel, dijkstraLoop, addWorkEstimate, hself, htarget, hk]

/-- The call after which the counter has gone round once finds a walk. -/
lemma lone_runCalls (m : ℕ) {scratch : DijkstraScratch} {k : ℕ}
    (hstart : ((scratch.ensureSize 2).nextGen).write 0 0 (-1) = loneScratch k)
    (hk : k + m + 1 = 2 ^ 64) :
    ∃ results, runCalls (replicate (m + 2) loneCall) scratch = some results ∧
      results.getLast? = some ⟨some ([0, 1], 0), loneScratch 0, none, false⟩ := by
  have hnext := loneScratch_next k
  induction m generalizing scratch k with
  | zero =>
    rw [← hk, Nat.add_zero, Nat.mod_self] at hnext
    refine ⟨[⟨if k = 0 then some ([0, 1], 0) else none, loneScratch k, none, false⟩,
      ⟨some ([0, 1], 0), loneScratch 0, none, false⟩], ?_, rfl⟩
    rw [replicate_succ, runCalls, lone_run hstart, bind_some, replicate_succ,
      runCalls, lone_run hnext]
    rfl
  | succ m ih =>
    rw [mod_eq_of_lt (by omega : k + 1 < 2 ^ 64)] at hnext
    obtain ⟨results, hrun, hlast⟩ := ih hnext (by omega) (loneScratch_next (k + 1))
    refine ⟨⟨if k = 0 then some ([0, 1], 0) else none, loneScratch k, none, false⟩ :: results, ?_, ?_⟩
    · rw [replicate_succ, runCalls, lone_run hstart, bind_some, hrun]
      rfl
    · rw [getLast?_cons, hlast]
      rfl

/-- With a cutoff that is not positive a walk is found although none is below it; a call that the work
limit ends finds none although there is one; and the last of `2 ^ 64` calls finds a walk in a graph
that has none, whatever the cutoff. -/
theorem search_not_exact :
    (∃ result, (triangleCall 0 0 ⊤).run empty = some result ∧
      result.found.isSome = true ∧ ¬ ∃ p, triangle.IsOddClosedWalk 0 p ∧
        walkWeight triangle.weights p < 0) ∧
    (∃ result, (triangleCall 0 (1 / 2) 0).run empty = some result ∧
      result.found = none ∧ ∃ p, triangle.IsOddClosedWalk 0 p ∧
        walkWeight triangle.weights p < 1 / 2) ∧
    ∃ results result, runCalls (replicate (2 ^ 64) loneCall) empty =
        some results ∧ results.getLast? = some result ∧ result.limitMet = false ∧
      result.found.isSome = true ∧ ¬ ∃ p, lone.IsOddClosedWalk 0 p := by
  refine ⟨?_, ?_, ?_⟩
  · have hfound : ((triangleCall 0 0 ⊤).run empty).map
        (fun result => result.found.isSome) = some true := by
      decide +kernel
    obtain ⟨result, hrun, heq⟩ := Option.map_eq_some_iff.mp hfound
    refine ⟨result, hrun, heq, ?_⟩
    rintro ⟨p, -, hlt⟩
    have hnonneg : ∀ p, 0 ≤ walkWeight triangle.weights p := by
      intro p
      induction p with
      | nil => exact le_rfl
      | cons a p ih =>
        cases p with
        | nil => exact le_rfl
        | cons b p => exact add_nonneg (OddGraph.edgeWeight_nonneg _ a b) ih
    exact absurd hlt (not_lt.mpr (hnonneg p))
  · have hfound : ((triangleCall 0 (1 / 2) 0).run empty).map
        (fun result => result.found) = some none := by
      decide +kernel
    obtain ⟨result, hrun, heq⟩ := Option.map_eq_some_iff.mp hfound
    refine ⟨result, hrun, heq, [0, 1, 2, 0], ⟨⟨0, rfl, rfl, rfl⟩, by decide, by decide⟩, ?_⟩
    decide +kernel
  · obtain ⟨results, hrun, hlast⟩ := lone_runCalls (2 ^ 64 - 2) loneScratch_first (by norm_num)
    have hlength : 2 ^ 64 - 2 + 2 = 2 ^ 64 := by norm_num
    rw [hlength] at hrun
    refine ⟨results, _, hrun, hlast, rfl, rfl, ?_⟩
    rintro ⟨p, ⟨s, hs, hhead, -⟩, hchain, heven⟩
    cases Int.ofNat.inj hs
    cases p with
    | nil => cases hhead
    | cons a p =>
      cases hhead
      cases p with
      | nil => exact absurd heven Nat.not_even_one
      | cons b p =>
        have hedge : b ∈ lone.localAdj.getD 0 [] := (List.isChain_cons_cons.mp hchain).1
        cases hedge

end Calls

end CuOpt.Cuts
