import CuOpt.Cuts.DuplicateClasses

/-! The cuts that the last pass removes: of the cuts of a set whose divisors have one sign all but the
tightest. -/

namespace CuOpt.Cuts

open SparseList List Function Finset

variable {rows : List (List (ℕ × ℚ))} {n : ℕ}

lemma entryOf_of_le {r : ℕ} (h : rows.length ≤ r) (c : ℕ) : entryOf rows c r = 0 := by
  rw [entryOf, getD_eq_default _ _ h]
  rfl

lemma refined_start : Refined (entryOf rows) rows.length n 0 ⟨fun _ => 0, fun _ => 0, 1, rows.length⟩ := by
  constructor
  case newSet => exact Nat.zero_lt_one
  case below => exact fun _ => .inr (WithTop.coe_lt_coe.mpr Nat.zero_lt_one)
  case zero => exact fun r _ => iff_of_true rfl fun c hc => absurd hc (Nat.not_lt_zero c)
  case divisor => exact fun r _ h => absurd rfl h
  case same => exact fun r _ i _ _ => iff_of_false (fun h => h.2.1 rfl) fun h => h.1 rfl
  case remaining =>
    have hall : liveRows rows.length (fun _ => (0 : SetId)) = Finset.range rows.length :=
      filter_true_of_mem fun _ _ => WithTop.zero_ne_top
    dsimp only
    rw [hall, card_range]

lemma Refined.of_top {A : ℕ → ℕ → ℚ} {m j : ℕ} {st : RefineState} (h : Refined A m n j st)
    (htop : ∀ r < m, st.sets r = ⊤) : Refined A m n (j + 1) st := by
  have hne0 : ∀ r < m, st.sets r ≠ 0 := fun r hr => htop r hr ▸ WithTop.top_ne_zero
  constructor
  case newSet => exact h.newSet
  case below => exact h.below
  case zero =>
    intro r hr
    refine iff_of_false (hne0 r hr) fun hall => hne0 r hr ((h.zero r hr).mpr fun c hc => ?_)
    exact hall c (hc.trans (Nat.lt_succ_self j))
  case divisor =>
    intro r hr hne
    obtain ⟨c, hcj, hc⟩ := h.divisor r hr hne
    exact ⟨c, hcj.trans (Nat.lt_succ_self j), hc⟩
  case same =>
    intro r hr i hi hne
    refine iff_of_false (fun hand => hand.2.2 (htop r hr)) ?_
    rintro ⟨hr0, hprop, hslot⟩
    exact ((h.same r hr i hi hne).mpr ⟨hr0, hprop.mono (Nat.le_succ j),
      fun h2 => hslot (h2.mono (Nat.le_succ j))⟩).2.2 (htop r hr)
  case remaining => exact h.remaining

section

variable (hnodup : ∀ row ∈ rows, (keys row).Nodup) (hne : ∀ row ∈ rows, ∀ q ∈ row, q.2 ≠ 0)
include hnodup hne

lemma foldl_refineEntry_eq_passRow {j : ℕ} (hj : j < n) (newSet0 : ℕ) (st : ColumnState) :
    (List.range' (colStart rows j) (colStart rows (j + 1) - colStart rows j)).foldl
        (refineEntry plainScan 0 rows n (colStart rows (j + 1)) newSet0) st =
      (List.range' 0 rows.length).foldl (passRow 0 newSet0 rows.length (entryOf rows j)) st := by
  have hlen : colStart rows (j + 1) - colStart rows j = (cscColumn rows j).length := by
    rw [colStart_succ, Nat.add_sub_cancel_left]
  rw [hlen, foldl_refineEntry_plain (cscColumn rows j) (colStart_succ j) (map_range_colStart hj),
    cscColumn_eq hnodup hne]
  exact passEntries_eq_foldl newSet0 rows.length (entryOf rows j) (Nat.zero_le _) st

/-- What holds after the columns below `j`, also when the rest of them is skipped. -/
lemma Refined.refineColumn {j : ℕ} (hj : j < n) {s : ℕ × RefineState × Bool}
    (h : Refined (entryOf rows) rows.length n j s.2.1)
    (hstop : s.2.2 = true → ∀ r < rows.length, s.2.1.sets r = ⊤) :
    Refined (entryOf rows) rows.length n (j + 1) (refineColumn plainScan 0 rows n s j).2.1 ∧
      ((refineColumn plainScan 0 rows n s j).2.2 = true →
        ∀ r < rows.length, (refineColumn plainScan 0 rows n s j).2.1.sets r = ⊤) := by
  obtain ⟨last, st, stopped⟩ := s
  rw [CuOpt.Cuts.refineColumn]
  dsimp only at h hstop ⊢
  by_cases hstopped : stopped = true
  · rw [if_pos hstopped]
    exact ⟨h.of_top (hstop hstopped), hstop⟩
  have hplain : plainScan.build last (colStart rows j) (colStart rows (j + 1)) st.newSet
      (fun q => st.sets ((cscEntries rows n).getD q (0, 0)).1) = colStart rows (j + 1) := rfl
  rw [if_neg hstopped, hplain, foldl_refineEntry_eq_passRow hnodup hne hj]
  have hpassed := Passed.foldl h.starts (Passed.start (a := entryOf rows j) h.remaining)
  generalize (List.range' 0 rows.length).foldl _ _ = column at hpassed ⊢
  have hout : ∀ k, rows.length ≤ k → ∀ c, entryOf rows c k = 0 := fun k hk c => entryOf_of_le hk c
  by_cases hnone : column.remaining = 0
  · rw [if_pos hnone]
    have htop : ∀ r < rows.length, column.sets r = ⊤ :=
      top_of_liveRows_eq_zero (hpassed.remaining.symm.trans hnone)
    refine ⟨h.step ⟨hpassed, fun r => ?_, rfl, rfl, hpassed.remaining⟩ hout hj, fun _ => htop⟩
    rw [if_neg]
    rintro ⟨hone, rfl⟩
    obtain ⟨hnew, hlt⟩ := hpassed.r0 (by omega)
    have hF : (st.newSet : SetId) ≠ ⊤ := WithTop.coe_ne_top
    have hfresh := hpassed.fresh _ hnew
    rw [htop _ hnew.1, if_pos hlt] at hfresh
    exact hF hfresh.symm
  rw [if_neg hnone]
  by_cases hone : column.newRows = 1
  · rw [if_pos hone]
    obtain ⟨hnew, hlt⟩ := hpassed.r0 (by omega)
    have hlive : column.sets column.r0 ≠ ⊤ := by
      rw [hpassed.fresh _ hnew, if_pos hlt]
      exact WithTop.coe_ne_top
    have hremaining : column.remaining - 1 =
        (liveRows rows.length (Function.update column.sets column.r0 ⊤)).card := by
      rw [card_liveRows_update_top hnew.1 hlive, hpassed.remaining]
    refine ⟨h.step ⟨hpassed, fun r => ?_, rfl, rfl, hremaining⟩ hout hj, fun hzero => ?_⟩
    · dsimp only
      by_cases hr : r = column.r0
      · rw [hr, update_self, if_pos ⟨hone, rfl⟩]
      · rw [update_of_ne hr, if_neg fun hand => hr hand.2]
    · exact top_of_liveRows_eq_zero (hremaining.symm.trans (of_decide_eq_true hzero))
  · rw [if_neg hone]
    refine ⟨h.step ⟨hpassed, fun r => ?_, rfl, rfl, hpassed.remaining⟩ hout hj, fun hfalse => ?_⟩
    · rw [if_neg fun hand => hone hand.1]
    · cases hfalse

lemma refined_refineColumns (n : ℕ) :
    Refined (entryOf rows) rows.length n n (refineColumns plainScan 0 rows n).2.1 := by
  have hrun : ∀ j ≤ n, ∀ s : ℕ × RefineState × Bool, s = (List.range j).foldl
        (refineColumn plainScan 0 rows n)
        (plainScan.start, ⟨fun _ => 0, fun _ => 0, 1, rows.length⟩, false) →
      Refined (entryOf rows) rows.length n j s.2.1 ∧
        (s.2.2 = true → ∀ r < rows.length, s.2.1.sets r = ⊤) := by
    intro j
    induction j with
    | zero =>
      rintro - s rfl
      exact ⟨refined_start, nofun⟩
    | succ j ih =>
      rintro hj s rfl
      rw [range_succ, foldl_concat]
      obtain ⟨h, hstop⟩ := ih (by omega) _ rfl
      exact h.refineColumn hnodup hne hj hstop
  exact (hrun n le_rfl _ rfl).1

end

section LastPass

def strength (rhs divisors : ℕ → ℚ) (r : ℕ) : ℚ := rhs r / |divisors r|

/-- The cut `y` is a candidate for a duplicate of `x`, and stronger or later and as strong. -/
def Beats (sets : ℕ → SetId) (divisors rhs : ℕ → ℚ) (m : ℕ) (y x : ℕ) : Prop :=
  x < m ∧ y < m ∧ (sets y = sets x ∧ sets x ≠ 0 ∧ sets x ≠ ⊤) ∧ 0 < divisors y * divisors x ∧
    toLex (strength rhs divisors x, x) < toLex (strength rhs divisors y, y)

def compareLater (sets : ℕ → SetId) (divisors rhs : ℕ → ℚ) (m : ℕ) (removed : ℕ → Bool) (r : ℕ) :
    ℕ → Bool :=
  if sets r = 0 ∨ sets r = ⊤ ∨ removed r = true then removed
  else ((List.range' (r + 1) (m - r - 1)).filter fun q => decide (sets q = sets r)).foldl
    (compareCuts rhs divisors r) removed

variable {sets : ℕ → SetId} {divisors rhs : ℕ → ℚ} {m : ℕ} {removed : ℕ → Bool} {r i x y : ℕ}

lemma compareCuts_eq : compareCuts rhs divisors r removed i =
    if 0 < divisors r * divisors i then
      if strength rhs divisors r ≤ strength rhs divisors i then Function.update removed r true
      else Function.update removed i true
    else removed := by
  rw [compareCuts]
  by_cases hpos : 0 < divisors r ∧ 0 < divisors i
  · rw [if_pos hpos, if_pos (mul_pos hpos.1 hpos.2), strength, strength, abs_of_pos hpos.1,
      abs_of_pos hpos.2]
  by_cases hneg : divisors r < 0 ∧ divisors i < 0
  · rw [if_neg hpos, if_pos hneg, if_pos (mul_pos_of_neg_of_neg hneg.1 hneg.2), strength, strength,
      abs_of_neg hneg.1, abs_of_neg hneg.2, div_neg, div_neg]
    simp only [neg_le_neg_iff]
  · rw [if_neg hpos, if_neg hneg, if_neg]
    rw [mul_pos_iff]
    exact not_or.mpr ⟨hpos, hneg⟩

lemma compareCuts_mono (h : removed x = true) : compareCuts rhs divisors r removed i x = true := by
  have hupdate : ∀ k, Function.update removed k true x = true := by
    intro k
    rcases eq_or_ne x k with rfl | hne
    · exact update_self _ _ _
    · rw [update_of_ne hne]
      exact h
  rw [compareCuts_eq]
  split_ifs
  · exact hupdate r
  · exact hupdate i
  · exact h

lemma foldl_compareCuts_mono (l : List ℕ) (h : removed x = true) :
    l.foldl (compareCuts rhs divisors r) removed x = true := by
  induction l generalizing removed with
  | nil => exact h
  | cons i l ih => exact ih (compareCuts_mono h)

lemma compareLater_mono (h : removed x = true) :
    compareLater sets divisors rhs m removed r x = true := by
  rw [compareLater]
  split_ifs
  · exact h
  · exact foldl_compareCuts_mono _ h

lemma foldl_compareLater_mono (l : List ℕ) (h : removed x = true) :
    l.foldl (compareLater sets divisors rhs m) removed x = true := by
  induction l generalizing removed with
  | nil => exact h
  | cons r l ih => exact ih (compareLater_mono h)

lemma mem_later : i ∈ (List.range' (r + 1) (m - r - 1)).filter (fun q => decide (sets q = sets r)) ↔
    r < i ∧ i < m ∧ sets i = sets r := by
  rw [List.mem_filter, mem_range'_1, decide_eq_true_eq]
  constructor
  · rintro ⟨⟨hlt, hm⟩, hsame⟩
    exact ⟨hlt, by omega, hsame⟩
  · rintro ⟨hlt, hm, hsame⟩
    exact ⟨⟨hlt, by omega⟩, hsame⟩

lemma exists_beats_of_compareCuts (h : ∀ x, removed x = true → ∃ y, Beats sets divisors rhs m y x)
    (hr0 : sets r ≠ 0) (hrtop : sets r ≠ ⊤) (hri : r < i) (him : i < m) (hsame : sets i = sets r)
    (hx : compareCuts rhs divisors r removed i x = true) : ∃ y, Beats sets divisors rhs m y x := by
  rw [compareCuts_eq] at hx
  split_ifs at hx with hsign hle
  · rcases eq_or_ne x r with rfl | hne
    · refine ⟨i, hri.trans him, him, ⟨hsame, hr0, hrtop⟩, by rwa [mul_comm], ?_⟩
      rw [Prod.Lex.toLex_lt_toLex]
      rcases hle.lt_or_eq with hlt | heq
      · exact .inl hlt
      · exact .inr ⟨heq, hri⟩
    · rw [update_of_ne hne] at hx
      exact h x hx
  · rcases eq_or_ne x i with rfl | hne
    · refine ⟨r, him, hri.trans him, ⟨hsame.symm, hsame ▸ hr0, hsame ▸ hrtop⟩, hsign, ?_⟩
      rw [Prod.Lex.toLex_lt_toLex]
      exact .inl (not_le.mp hle)
    · rw [update_of_ne hne] at hx
      exact h x hx
  · exact h x hx

lemma exists_beats_of_compareLater
    (h : ∀ x, removed x = true → ∃ y, Beats sets divisors rhs m y x)
    (hx : compareLater sets divisors rhs m removed r x = true) :
    ∃ y, Beats sets divisors rhs m y x := by
  rw [compareLater] at hx
  by_cases hskip : sets r = 0 ∨ sets r = ⊤ ∨ removed r = true
  · rw [if_pos hskip] at hx
    exact h x hx
  rw [if_neg hskip] at hx
  obtain ⟨hr0, hrtop⟩ : sets r ≠ 0 ∧ sets r ≠ ⊤ :=
    ⟨fun h0 => hskip (.inl h0), fun htop => hskip (.inr (.inl htop))⟩
  clear hskip
  have hmem : ∀ i ∈ (List.range' (r + 1) (m - r - 1)).filter (fun q => decide (sets q = sets r)),
      r < i ∧ i < m ∧ sets i = sets r := fun i hi => mem_later.mp hi
  generalize (List.range' (r + 1) (m - r - 1)).filter (fun q => decide (sets q = sets r)) = l at hx hmem
  induction l generalizing removed with
  | nil => exact h x hx
  | cons i l ih =>
    obtain ⟨hri, him, hsame⟩ := hmem i List.mem_cons_self
    have hstep : ∀ x, compareCuts rhs divisors r removed i x = true →
        ∃ y, Beats sets divisors rhs m y x :=
      fun x hx => exists_beats_of_compareCuts h hr0 hrtop hri him hsame hx
    exact ih hstep hx fun k hk => hmem k (List.mem_cons_of_mem i hk)

lemma exists_beats_of_foldl (l : List ℕ)
    (h : ∀ x, removed x = true → ∃ y, Beats sets divisors rhs m y x)
    (hx : l.foldl (compareLater sets divisors rhs m) removed x = true) :
    ∃ y, Beats sets divisors rhs m y x := by
  induction l generalizing removed with
  | nil => exact h x hx
  | cons r l ih => exact ih (fun x hx => exists_beats_of_compareLater h hx) hx

lemma compareCuts_of_beats_of_lt (h : Beats sets divisors rhs m y x) (hlt : y < x) :
    compareCuts rhs divisors y removed x x = true := by
  obtain ⟨-, -, -, hsign, hkey⟩ := h
  rw [Prod.Lex.toLex_lt_toLex] at hkey
  have hstrength : ¬strength rhs divisors y ≤ strength rhs divisors x := by
    rcases hkey with hkey | ⟨-, hindex⟩
    · exact not_le.mpr hkey
    · exact absurd hindex hlt.asymm
  rw [compareCuts_eq, if_pos hsign, if_neg hstrength, update_self]

lemma compareCuts_of_beats_of_gt (h : Beats sets divisors rhs m y x) :
    compareCuts rhs divisors x removed y x = true := by
  obtain ⟨-, -, -, hsign, hkey⟩ := h
  rw [Prod.Lex.toLex_lt_toLex] at hkey
  have hstrength : strength rhs divisors x ≤ strength rhs divisors y := by
    rcases hkey with hkey | ⟨heq, -⟩
    · exact hkey.le
    · exact heq.le
  rw [compareCuts_eq, if_pos (mul_comm (divisors y) (divisors x) ▸ hsign), if_pos hstrength,
    update_self]

/-- A cut that is not marked at its turn marks what it is found to beat, or itself. -/
lemma compareLater_marks (hr : removed r = false) (hr0 : sets r ≠ 0) (hrtop : sets r ≠ ⊤)
    (hri : r < i) (him : i < m) (hsame : sets i = sets r)
    (h : ∀ removed, compareCuts rhs divisors r removed i x = true) :
    compareLater sets divisors rhs m removed r x = true := by
  have hskip : ¬(sets r = 0 ∨ sets r = ⊤ ∨ removed r = true) := by
    rw [not_or, not_or, hr]
    exact ⟨hr0, hrtop, Bool.false_ne_true⟩
  obtain ⟨before, after, hsplit⟩ := mem_iff_append.mp (mem_later.mpr ⟨hri, him, hsame⟩)
  rw [compareLater, if_neg hskip, hsplit, foldl_append, foldl_cons]
  exact foldl_compareCuts_mono after (h _)

lemma Beats.trans {z : ℕ} (h : Beats sets divisors rhs m z y) (h' : Beats sets divisors rhs m y x) :
    Beats sets divisors rhs m z x := by
  obtain ⟨-, hz, ⟨hzy, -, -⟩, hsign, hkey⟩ := h
  obtain ⟨hx, -, ⟨hyx, hx0, hxtop⟩, hsign', hkey'⟩ := h'
  refine ⟨hx, hz, ⟨hzy.trans hyx, hx0, hxtop⟩, ?_, hkey'.trans hkey⟩
  have hprod : 0 < divisors z * divisors x * (divisors y * divisors y) := by
    calc (0 : ℚ) < divisors z * divisors y * (divisors y * divisors x) := mul_pos hsign hsign'
      _ = divisors z * divisors x * (divisors y * divisors y) := by ring
  exact pos_of_mul_pos_left hprod (mul_self_nonneg _)

lemma exists_unbeaten (hx : x < m) : ∃ y < m, (y = x ∨ Beats sets divisors rhs m y x) ∧
    ¬∃ z, Beats sets divisors rhs m z y := by
  classical
  obtain ⟨y, hy, hmax⟩ := exists_max_image
    ((Finset.range m).filter fun y => y = x ∨ Beats sets divisors rhs m y x)
    (fun y => toLex (strength rhs divisors y, y))
    ⟨x, Finset.mem_filter.mpr ⟨Finset.mem_range.mpr hx, .inl rfl⟩⟩
  obtain ⟨hym, hyx⟩ := Finset.mem_filter.mp hy
  refine ⟨y, Finset.mem_range.mp hym, hyx, ?_⟩
  rintro ⟨z, hzy⟩
  have hzx : Beats sets divisors rhs m z x := by
    rcases hyx with rfl | hyx
    · exact hzy
    · exact hzy.trans hyx
  have hle := hmax z (Finset.mem_filter.mpr ⟨Finset.mem_range.mpr hzy.2.1, .inr hzx⟩)
  exact absurd hzy.2.2.2.2 (not_lt.mpr hle)

lemma foldl_compareLater_iff :
    (List.range m).foldl (compareLater sets divisors rhs m) (fun _ => false) x = true ↔
      ∃ y, Beats sets divisors rhs m y x := by
  have hnone : ∀ x, (fun _ : ℕ => false) x = true → ∃ y, Beats sets divisors rhs m y x :=
    nofun
  refine ⟨exists_beats_of_foldl _ hnone, ?_⟩
  rintro ⟨z, hzx⟩
  -- the strongest of the candidates is never marked
  obtain ⟨y, hym, hyx, hunbeaten⟩ := @exists_unbeaten sets divisors rhs m x hzx.1
  have hbeats : Beats sets divisors rhs m y x := by
    refine hyx.resolve_left ?_
    rintro rfl
    exact hunbeaten ⟨z, hzx⟩
  have hx : x < m := hbeats.1
  obtain ⟨hysets, hx0, hxtop⟩ := hbeats.2.2.1
  have hunmarked : ∀ l : List ℕ,
      l.foldl (compareLater sets divisors rhs m) (fun _ => false) y = false := by
    intro l
    by_contra hmark
    exact hunbeaten (exists_beats_of_foldl l hnone (Bool.not_eq_false _ ▸ hmark))
  have hne : y ≠ x := by
    rintro rfl
    exact hunbeaten ⟨y, hbeats⟩
  rcases lt_or_gt_of_ne hne with hlt | hlt
  · obtain ⟨before, after, hsplit⟩ := mem_iff_append.mp (List.mem_range.mpr hym)
    rw [hsplit, foldl_append, foldl_cons]
    refine foldl_compareLater_mono after (compareLater_marks (hunmarked before) (hysets ▸ hx0)
      (hysets ▸ hxtop) hlt hx hysets.symm fun removed => compareCuts_of_beats_of_lt hbeats hlt)
  · obtain ⟨before, after, hsplit⟩ := mem_iff_append.mp (List.mem_range.mpr hx)
    rw [hsplit, foldl_append, foldl_cons]
    refine foldl_compareLater_mono after ?_
    generalize before.foldl (compareLater sets divisors rhs m) (fun _ => false) = removed
    by_cases hmarked : removed x = true
    · exact compareLater_mono hmarked
    · exact compareLater_marks (Bool.eq_false_of_not_eq_true hmarked) hx0 hxtop hlt hym hysets
        fun removed => compareCuts_of_beats_of_gt hbeats

end LastPass

end CuOpt.Cuts
