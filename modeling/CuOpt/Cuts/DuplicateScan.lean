import CuOpt.Cuts.SetGroupsSound

/-! The search for duplicates through the groups of a column finds the partners that a scan of all later
entries finds: within a column a set id that was there before it is never given out. -/

namespace CuOpt.Cuts

open List Function

variable {tolerance : ℚ} {rows : List (List (ℕ × ℚ))} {n : ℕ}

structure InColumn (start : ℕ → SetId) (newSet0 : ℕ) (st : ColumnState) : Prop where
  moved : ∀ r, st.sets r = start r ∨ newSet0 ≤ st.sets r
  below : ∀ r, st.sets r = ⊤ ∨ st.sets r < st.newSet
  newSet : newSet0 < st.newSet

lemma InColumn.refineEntry {G : Type} (scan : EntryScan G) {start : ℕ → SetId} {newSet0 : ℕ}
    {st : ColumnState} (h : InColumn start newSet0 st) (g : G) (p : ℕ) :
    InColumn start newSet0 (refineEntry scan tolerance rows n g newSet0 st p) := by
  have hbelow : (newSet0 : SetId) < st.newSet := WithTop.coe_lt_coe.mpr h.newSet
  rw [CuOpt.Cuts.refineEntry]
  dsimp only
  generalize ((cscEntries rows n).getD p (0, 0)).1 = r
  split_ifs with hstopped hzero hold
  · exact h
  · refine ⟨fun i => ?_, fun i => ?_, h.newSet⟩
    · rcases eq_or_ne i r with rfl | hne
      · dsimp only
        rw [update_self]
        exact .inr le_rfl
      · dsimp only
        rw [update_of_ne hne]
        exact h.moved i
    · rcases eq_or_ne i r with rfl | hne
      · dsimp only
        rw [update_self]
        exact .inr hbelow
      · dsimp only
        rw [update_of_ne hne]
        exact h.below i
  · split
    case h_1 e _ =>
      have hnew : (st.newSet : SetId) < (st.newSet + 1 : ℕ) :=
        WithTop.coe_lt_coe.mpr (Nat.lt_succ_self _)
      refine ⟨fun i => ?_, fun i => ?_, h.newSet.trans (Nat.lt_succ_self _)⟩
      · dsimp only
        rcases eq_or_ne i e.1 with rfl | hne
        · rw [update_self]
          exact .inr hbelow.le
        · rw [update_of_ne hne]
          rcases eq_or_ne i r with rfl | hne'
          · rw [update_self]
            exact .inr hbelow.le
          · rw [update_of_ne hne']
            exact h.moved i
      · dsimp only
        rcases eq_or_ne i e.1 with rfl | hne
        · rw [update_self]
          exact .inr hnew
        · rw [update_of_ne hne]
          rcases eq_or_ne i r with rfl | hne'
          · rw [update_self]
            exact .inr hnew
          · rw [update_of_ne hne']
            exact (h.below i).imp_right fun hlt => hlt.trans hnew
    case h_2 =>
      refine ⟨fun i => ?_, fun i => ?_, h.newSet⟩
      · dsimp only
        rcases eq_or_ne i r with rfl | hne
        · rw [update_self]
          exact .inr le_top
        · rw [update_of_ne hne]
          exact h.moved i
      · dsimp only
        rcases eq_or_ne i r with rfl | hne
        · rw [update_self]
          exact .inl rfl
        · rw [update_of_ne hne]
          exact h.below i
  · exact h

/-- The groups of a column give an entry the partner that the plain scan gives it. -/
lemma refineEntry_compressed {start : ℕ → SetId} {newSet0 : ℕ} {st : ColumnState}
    (h : InColumn start newSet0 st) {groups : SetGroups} (hgroups : groups.Valid) {first last p : ℕ}
    (hfirst : first ≤ p) (hlast : p < last) :
    refineEntry compressedScan tolerance rows n
        (groups.build first last newSet0 fun q => start ((cscEntries rows n).getD q (0, 0)).1)
        newSet0 st p = refineEntry plainScan tolerance rows n last newSet0 st p := by
  rw [refineEntry, refineEntry]
  dsimp only
  generalize hr : ((cscEntries rows n).getD p (0, 0)).1 = r
  split_ifs with hstopped hzero hold
  · rfl
  · rfl
  · -- the old set is the one that the column started with
    have hstart : st.sets r = start r := (h.moved r).resolve_right (not_le.mpr hold)
    obtain ⟨s, hs⟩ := WithTop.ne_top_iff_exists.mp hold.ne_top
    have hpos : 0 < s := by
      refine Nat.pos_of_ne_zero ?_
      rintro rfl
      exact hzero hs.symm
    have hlimit : s < newSet0 := WithTop.coe_lt_coe.mp (hs ▸ hold)
    have hgroup : compressedScan.entriesAfter
        (groups.build first last newSet0 fun q => start ((cscEntries rows n).getD q (0, 0)).1)
        (fun q => st.sets ((cscEntries rows n).getD q (0, 0)).1) (st.sets r) p =
        (range' (p + 1) (last - p - 1)).filter
          fun q => decide (start ((cscEntries rows n).getD q (0, 0)).1 = st.sets r) := by
      rw [← hs]
      refine hgroups.entriesAfter_build hfirst hlast ?_ hpos hlimit
      rw [hr, ← hstart]
      exact hs.symm
    have hplain : plainScan.entriesAfter last
        (fun q => st.sets ((cscEntries rows n).getD q (0, 0)).1) (st.sets r) p =
        (range' (p + 1) (last - p - 1)).filter
          fun q => decide (st.sets ((cscEntries rows n).getD q (0, 0)).1 = st.sets r) := rfl
    rw [hgroup, hplain]
    have hfind : ∀ (f : ℕ → ℕ × ℚ) (b : ℕ × ℚ → Bool) (l : List ℕ),
        (((l.filter fun q => decide (start (f q).1 = st.sets r)).map f).find?
            fun e => decide (st.sets e.1 = st.sets r) && b e) =
          ((l.filter fun q => decide (st.sets (f q).1 = st.sets r)).map f).find?
            fun e => decide (st.sets e.1 = st.sets r) && b e := by
      intro f b l
      rw [find?_map, find?_map, find?_filter, find?_filter]
      congr 2
      funext q
      rw [decide_eq_decide]
      simp only [comp_apply, Bool.and_eq_true, decide_eq_true_eq]
      constructor
      · rintro ⟨-, hcurrent, hb⟩
        exact ⟨hcurrent, hcurrent, hb⟩
      · rintro ⟨hcurrent, -, hb⟩
        refine ⟨?_, hcurrent, hb⟩
        rw [← hcurrent]
        refine ((h.moved _).resolve_right ?_).symm
        rw [hcurrent]
        exact not_le.mpr hold
    rw [hfind]
  · rfl

def RefineState.Below (st : RefineState) : Prop := ∀ r, st.sets r = ⊤ ∨ st.sets r < st.newSet

lemma InColumn.start {st : RefineState} (h : st.Below) :
    InColumn st.sets st.newSet ⟨{ st with newSet := st.newSet + 1 }, 0, 0, false⟩ where
  moved _ := .inl rfl
  below r := (h r).imp_right fun hlt =>
    hlt.trans (WithTop.coe_lt_coe.mpr (Nat.lt_succ_self st.newSet))
  newSet := Nat.lt_succ_self st.newSet

lemma InColumn.foldl {G : Type} (scan : EntryScan G) {start : ℕ → SetId} {newSet0 : ℕ}
    {st : ColumnState} (h : InColumn start newSet0 st) (g : G) (l : List ℕ) :
    InColumn start newSet0 (l.foldl (CuOpt.Cuts.refineEntry scan tolerance rows n g newSet0) st) := by
  induction l generalizing st with
  | nil => exact h
  | cons p l ih => exact ih (h.refineEntry scan g p)

lemma foldl_refineEntry_compressed {start : ℕ → SetId} {newSet0 : ℕ} {st : ColumnState}
    (h : InColumn start newSet0 st) {groups : SetGroups} (hgroups : groups.Valid) {first last : ℕ}
    {l : List ℕ} (hl : ∀ p ∈ l, first ≤ p ∧ p < last) :
    l.foldl (refineEntry compressedScan tolerance rows n
        (groups.build first last newSet0 fun q => start ((cscEntries rows n).getD q (0, 0)).1)
        newSet0) st = l.foldl (refineEntry plainScan tolerance rows n last newSet0) st := by
  induction l generalizing st with
  | nil => rfl
  | cons p l ih =>
    obtain ⟨hfirst, hlast⟩ := hl p mem_cons_self
    rw [foldl_cons, foldl_cons, refineEntry_compressed h hgroups hfirst hlast]
    exact ih (h.refineEntry plainScan last p) fun q hq => hl q (mem_cons_of_mem p hq)

structure SameColumns (c : SetGroups × RefineState × Bool) (s : ℕ × RefineState × Bool) : Prop where
  groups : c.1.Valid
  below : s.2.1.Below
  same : c.2 = s.2

lemma SameColumns.refineColumn {c : SetGroups × RefineState × Bool} {s : ℕ × RefineState × Bool}
    (h : SameColumns c s) (j : ℕ) :
    SameColumns (refineColumn compressedScan tolerance rows n c j)
      (refineColumn plainScan tolerance rows n s j) := by
  obtain ⟨groups, st, stopped⟩ := c
  obtain ⟨last, st', stopped'⟩ := s
  obtain ⟨hgroups, hbelow, hsame⟩ := h
  cases hsame
  rw [CuOpt.Cuts.refineColumn, CuOpt.Cuts.refineColumn]
  dsimp only at hgroups hbelow ⊢
  by_cases hstopped : stopped = true
  · rw [if_pos hstopped, if_pos hstopped]
    exact ⟨hgroups, hbelow, rfl⟩
  · have hstart := InColumn.start hbelow
    generalize hrange : range' (colStart rows j) (colStart rows (j + 1) - colStart rows j) = range
    have hmem : ∀ p ∈ range, colStart rows j ≤ p ∧ p < colStart rows (j + 1) := by
      intro p hp
      have hp' := mem_range'_1.mp (hrange ▸ hp)
      omega
    have hcolumn : InColumn st.sets st.newSet (range.foldl
        (refineEntry plainScan tolerance rows n (colStart rows (j + 1)) st.newSet)
        ⟨{ st with newSet := st.newSet + 1 }, 0, 0, false⟩) := hstart.foldl plainScan _ range
    have hfold : range.foldl (refineEntry compressedScan tolerance rows n
          (groups.build (colStart rows j) (colStart rows (j + 1)) st.newSet
            fun q => st.sets ((cscEntries rows n).getD q (0, 0)).1) st.newSet)
          ⟨{ st with newSet := st.newSet + 1 }, 0, 0, false⟩ =
        range.foldl (refineEntry plainScan tolerance rows n (colStart rows (j + 1)) st.newSet)
          ⟨{ st with newSet := st.newSet + 1 }, 0, 0, false⟩ :=
      foldl_refineEntry_compressed hstart hgroups hmem
    have hbuild : compressedScan.build groups (colStart rows j) (colStart rows (j + 1)) st.newSet
        (fun q => st.sets ((cscEntries rows n).getD q (0, 0)).1) =
        groups.build (colStart rows j) (colStart rows (j + 1)) st.newSet
          fun q => st.sets ((cscEntries rows n).getD q (0, 0)).1 := rfl
    have hplain : plainScan.build last (colStart rows j) (colStart rows (j + 1)) st.newSet
        (fun q => st.sets ((cscEntries rows n).getD q (0, 0)).1) = colStart rows (j + 1) := rfl
    rw [if_neg hstopped, if_neg hstopped, hbuild, hplain, hfold]
    generalize foldl (refineEntry plainScan tolerance rows n (colStart rows (j + 1)) st.newSet) _ _ =
      column at hcolumn
    have hvalid : (groups.build (colStart rows j) (colStart rows (j + 1)) st.newSet
        fun q => st.sets ((cscEntries rows n).getD q (0, 0)).1).Valid := hgroups.build
    split_ifs
    · exact ⟨hvalid, hcolumn.below, rfl⟩
    · refine ⟨hvalid, fun r => ?_, rfl⟩
      dsimp only
      rcases eq_or_ne r column.r0 with rfl | hne
      · rw [update_self]
        exact .inl rfl
      · rw [update_of_ne hne]
        exact hcolumn.below r
    · exact ⟨hvalid, hcolumn.below, rfl⟩

lemma sameColumns_refineColumns : SameColumns (refineColumns compressedScan tolerance rows n)
    (refineColumns plainScan tolerance rows n) := by
  have hstart : SameColumns
      (compressedScan.start, (⟨fun _ => 0, fun _ => 0, 1, rows.length⟩ : RefineState), false)
      (plainScan.start, (⟨fun _ => 0, fun _ => 0, 1, rows.length⟩ : RefineState), false) :=
    ⟨SetGroups.empty_valid, fun _ => .inr (WithTop.coe_lt_coe.mpr Nat.zero_lt_one), rfl⟩
  rw [refineColumns, refineColumns]
  generalize range n = l
  generalize compressedScan.start = groups at hstart ⊢
  generalize plainScan.start = last at hstart ⊢
  generalize (⟨fun _ => 0, fun _ => 0, 1, rows.length⟩ : RefineState) = st at hstart ⊢
  generalize false = stopped at hstart ⊢
  generalize (groups, st, stopped) = c at hstart ⊢
  generalize (last, st, stopped) = s at hstart ⊢
  induction l generalizing c s with
  | nil => exact hstart
  | cons j l ih => exact ih _ _ (hstart.refineColumn j)

/-- In the last pass the groups of the cuts give all later cuts of a set. -/
lemma foldl_removed_compressed {groups : SetGroups} {st : RefineState} (hgroups : groups.Valid)
    (hbelow : st.Below) (last m : ℕ) (rhs : ℕ → ℚ) :
    (range m).foldl (fun removed r =>
        if st.sets r = 0 ∨ st.sets r = ⊤ ∨ removed r = true then removed
        else (compressedScan.entriesAfter (compressedScan.build groups 0 m st.newSet st.sets) st.sets
          (st.sets r) r).foldl (compareCuts rhs st.divisors r) removed) (fun _ => false) =
      (range m).foldl (fun removed r =>
        if st.sets r = 0 ∨ st.sets r = ⊤ ∨ removed r = true then removed
        else (plainScan.entriesAfter (plainScan.build last 0 m st.newSet st.sets) st.sets
          (st.sets r) r).foldl (compareCuts rhs st.divisors r) removed) fun _ => false := by
  have hentries : ∀ r < m, st.sets r ≠ 0 → st.sets r ≠ ⊤ →
      compressedScan.entriesAfter (compressedScan.build groups 0 m st.newSet st.sets)
          st.sets (st.sets r) r =
        plainScan.entriesAfter (plainScan.build last 0 m st.newSet st.sets)
          st.sets (st.sets r) r := by
    intro r hr hzero htop
    obtain ⟨s, hs⟩ := WithTop.ne_top_iff_exists.mp htop
    have hpos : 0 < s := by
      refine Nat.pos_of_ne_zero ?_
      rintro rfl
      exact hzero hs.symm
    have hlimit : s < st.newSet := by
      have hlt := (hbelow r).resolve_left htop
      exact WithTop.coe_lt_coe.mp (hs ▸ hlt)
    have hgroup : (groups.build 0 m st.newSet st.sets).entriesAfter s r =
        (range' (r + 1) (m - r - 1)).filter fun q => decide (st.sets q = s) :=
      hgroups.entriesAfter_build (Nat.zero_le r) hr hs.symm hpos hlimit
    rw [← hs]
    exact hgroup
  apply foldl_ext
  intro removed r hr
  by_cases hskip : st.sets r = 0 ∨ st.sets r = ⊤ ∨ removed r = true
  · rw [if_pos hskip, if_pos hskip]
  · rw [if_neg hskip, if_neg hskip, hentries r (mem_range.mp hr) (fun h => hskip (.inl h))
      fun h => hskip (.inr (.inl h))]

/-- The sets, the divisors and the removed cuts are those of the scan of all later entries, and in the
last pass of all later cuts. -/
theorem duplicateCuts_compressed (tolerance : ℚ) (rows : List (List (ℕ × ℚ))) (n : ℕ)
    (rhs : ℕ → ℚ) :
    duplicateCuts compressedScan tolerance rows n rhs =
      duplicateCuts plainScan tolerance rows n rhs := by
  have hsame : SameColumns (refineColumns compressedScan tolerance rows n)
    (refineColumns plainScan tolerance rows n) := sameColumns_refineColumns
  rw [duplicateCuts, duplicateCuts]
  generalize refineColumns compressedScan tolerance rows n = c at hsame ⊢
  generalize refineColumns plainScan tolerance rows n = s at hsame ⊢
  obtain ⟨groups, st, stopped⟩ := c
  obtain ⟨last, st', stopped'⟩ := s
  obtain ⟨hgroups, hbelow, heq⟩ := hsame
  cases heq
  dsimp only at hgroups hbelow ⊢
  rw [foldl_removed_compressed hgroups hbelow last rows.length rhs]

end CuOpt.Cuts
