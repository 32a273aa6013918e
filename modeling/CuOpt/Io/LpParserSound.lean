import CuOpt.Io.LpDenotation

/-! Whole files: every objective and constraint of an accepted file is stored as it is written, exactly
where all of them start clean. -/

namespace CuOpt.Io.LpParser

open Activities Extended SparseList List
open Except (ok)
open Prod (mk)

variable {stod : String → Option ℚ} {role : BracketRole} {toks rest : List LpToken}
  {s s' s'' : LpState}

section Coefficients

variable {names : List String} {terms : List LinearTerm}

variable {ws : List Written}

lemma coeff_termsOf (hknown : ∀ t ∈ ws, ∀ name ∈ t.name?, name ∈ names) (name : String) :
    coeff (termsOf names ws) (names.idxOf name) = linearCoeff ws name := by
  induction ws with
  | nil => rfl
  | cons t ws ih =>
    have ih := ih fun t' ht' => hknown t' (mem_cons_of_mem t ht')
    have hsum : linearCoeff (t :: ws) name = t.coeffOf name + linearCoeff ws name :=
      (congrArg sum (map_cons)).trans sum_cons
    rw [hsum, ← ih]
    cases t with
    | named name' v =>
      have hname' := hknown _ mem_cons_self name' rfl
      have hcons : termsOf names (.named name' v :: ws) = (names.idxOf name', v) :: termsOf names ws :=
        rfl
      rw [hcons, coeff_cons, Written.coeffOf]
      by_cases heq : name' = name
      · rw [if_pos heq, if_pos (congrArg names.idxOf heq)]
      · rw [if_neg heq, if_neg fun hidx => heq ((idxOf_inj hname').mp hidx)]
    | constant v => exact (zero_add _).symm

variable {t : LinearTerm}

lemma keys_termsOf (hknown : ∀ t ∈ ws, ∀ name ∈ t.name?, name ∈ names)
    (ht : t ∈ termsOf names ws) : t.1 < names.length := by
  obtain ⟨w, hw, hterm⟩ := mem_filterMap.mp ht
  cases w with
  | named name v =>
    cases hterm
    exact idxOf_lt_length_of_mem (hknown _ hw name rfl)
  | constant v => exact nomatch hterm

lemma linearCoeff_eq_zero {name : String} (hknown : ∀ t ∈ ws, ∀ name ∈ t.name?, name ∈ names)
    (hname : name ∉ names) : linearCoeff ws name = 0 := by
  apply sum_eq_zero
  intro c hc
  obtain ⟨t, ht, rfl⟩ := mem_map.mp hc
  cases t with
  | named name' v =>
    have hne : ¬ name' = name := fun heq => hname (heq ▸ hknown _ ht name' rfl)
    exact if_neg hne
  | constant v => rfl

def gathered (terms : List LinearTerm) (m : SortedMap ℕ ℚ) : SortedMap ℕ ℚ :=
  terms.foldl (fun (m : SortedMap ℕ ℚ) t => m.insert t.1 ((m.get? t.1).getD 0 + t.2)) m

lemma gathered_get? (terms : List LinearTerm) (m : SortedMap ℕ ℚ) (i : ℕ) :
    ((gathered terms m).get? i).getD 0 = (m.get? i).getD 0 + coeff terms i := by
  induction terms generalizing m with
  | nil => exact (add_zero _).symm
  | cons t terms ih =>
    rw [gathered, foldl_cons, ← gathered, ih, SortedMap.get?_insert, coeff_cons]
    by_cases heq : i = t.1
    · subst heq
      rw [if_pos rfl, if_pos rfl, Option.getD_some, add_assoc]
    · rw [if_neg heq, if_neg (Ne.symm heq), zero_add]

lemma gathered_keys {bound : ℕ} (hterms : ∀ t ∈ terms, t.1 < bound) {m : SortedMap ℕ ℚ}
    (hm : ∀ e ∈ m.toList, e.1 < bound) : ∀ e ∈ (gathered terms m).toList, e.1 < bound := by
  induction terms generalizing m with
  | nil => exact hm
  | cons t terms ih =>
    rw [gathered, foldl_cons, ← gathered]
    apply ih fun t' ht' => hterms t' (mem_cons_of_mem t ht')
    rintro ⟨i, v⟩ he
    have hget := SortedMap.mem_toList.mp he
    rw [SortedMap.get?_insert] at hget
    by_cases heq : i = t.1
    · rw [heq]
      exact hterms t mem_cons_self
    · rw [if_neg heq] at hget
      exact hm _ (SortedMap.mem_toList.mpr hget)

lemma coeff_toList (m : SortedMap ℕ ℚ) (i : ℕ) : coeff m.toList i = (m.get? i).getD 0 := by
  cases hget : m.get? i with
  | none =>
    apply coeff_eq_zero
    intro hmem
    obtain ⟨⟨j, v⟩, he, rfl⟩ := mem_map.mp hmem
    rw [SortedMap.mem_toList.mp he] at hget
    exact nomatch hget
  | some v => exact coeff_of_mem m.nodup_keys (SortedMap.mem_toList.mpr hget)

lemma coeff_filter_ne (l : List (ℕ × ℚ)) (i : ℕ) : coeff (l.filter fun e => e.2 ≠ 0) i = coeff l i := by
  induction l with
  | nil => rfl
  | cons e l ih =>
    by_cases hzero : e.2 = 0
    · rw [filter_cons_of_neg (by simpa using hzero), ih, coeff_cons, hzero, ite_self, zero_add]
    · rw [filter_cons_of_pos (by simpa using hzero), coeff_cons, coeff_cons, ih]

lemma coeff_rowEntries (terms : List LinearTerm) (i : ℕ) : coeff (rowEntries terms) i = coeff terms i := by
  have hget := gathered_get? terms SortedMap.empty i
  rw [SortedMap.get?_empty, Option.getD_none, zero_add] at hget
  exact (coeff_filter_ne _ i).trans ((coeff_toList _ i).trans hget)

variable {c : List ℚ}

lemma addLinear_length (ht : t.1 < c.length) : (addLinear c t).length = c.length := by
  rw [addLinear, if_neg (not_le.mpr ht), length_set]

lemma addLinear_getD (ht : t.1 < c.length) (i : ℕ) :
    (addLinear c t).getD i 0 = c.getD i 0 + if t.1 = i then t.2 else 0 := by
  rw [addLinear, if_neg (not_le.mpr ht)]
  by_cases heq : t.1 = i
  · subst heq
    rw [if_pos rfl, getD_eq_getElem _ _ (by rwa [length_set]), getElem_set_self]
  · rw [if_neg heq, add_zero, getD_eq_getElem?_getD, getElem?_set_ne heq, ← getD_eq_getElem?_getD]

lemma foldl_addLinear (hterms : ∀ t ∈ terms, t.1 < c.length) :
    (terms.foldl addLinear c).length = c.length ∧
      ∀ i, (terms.foldl addLinear c).getD i 0 = c.getD i 0 + coeff terms i := by
  induction terms generalizing c with
  | nil => exact ⟨rfl, fun i => (add_zero _).symm⟩
  | cons t terms ih =>
    have ht := hterms t mem_cons_self
    have hlength := addLinear_length ht
    obtain ⟨hlen, hget⟩ := ih (c := addLinear c t) fun t' ht' =>
      hlength ▸ hterms t' (mem_cons_of_mem t ht')
    refine ⟨hlen.trans hlength, fun i => ?_⟩
    rw [foldl_cons, hget, addLinear_getD ht, coeff_cons, add_assoc]

end Coefficients

section Storing

variable {w : WrittenExpression} {c : WrittenConstraint} {cs : List WrittenConstraint}

lemma Known.grows (h : Known s.varNames w) (hgrows : Grows s s') : Known s'.varNames w where
  linear := fun t ht name hname => hgrows.mem (h.linear t ht name hname)
  quad := fun q hq => ⟨hgrows.mem (h.quad q hq).1, hgrows.mem (h.quad q hq).2⟩

lemma map_quadEntry_grows {qs : List WrittenQuad}
    (hknown : ∀ q ∈ qs, q.first ∈ s.varNames ∧ q.second ∈ s.varNames) (hgrows : Grows s s') (factor : ℚ) :
    qs.map (quadEntry s'.varNames factor) = qs.map (quadEntry s.varNames factor) :=
  map_congr_left fun q hq => quadEntry_grow hgrows.names factor (hknown q hq)

lemma StoresObjective.grows (h : StoresObjective s w) (hgrows : Grows s s') :
    StoresObjective s' w := by
  obtain ⟨fresh, hnames, hcosts⟩ := hgrows.fresh
  refine ⟨h.known.grows hgrows, ?_, fun name hname => ?_, hgrows.offset.trans h.offset, ?_⟩
  · rw [hnames, hcosts, length_append, length_append, length_replicate, h.length_eq]
  · by_cases hold : name ∈ s.varNames
    · have hlt : s.varNames.idxOf name < s.cValues.length :=
        h.length_eq ▸ idxOf_lt_length_of_mem hold
      rw [← hgrows.names.idxOf_eq_of_mem hold, hcosts, getD_append _ _ _ _ hlt]
      exact h.cost name hold
    · rw [linearCoeff_eq_zero h.known.linear hold, hnames, idxOf_append_of_notMem hold, hcosts,
        getD_append_right _ _ _ _ (h.length_eq ▸ Nat.le_add_right _ _)]
      exact (getD_eq_getElem?_getD).trans (getElem?_getD_replicate_default_eq _ _ _)
  · rw [hgrows.quadobj, h.quad, map_quadEntry_grows h.known.quad hgrows]

lemma StoresObjective.frame (h : StoresObjective s w) (hnames : s'.varNames = s.varNames)
    (hcosts : s'.cValues = s.cValues) (hoffset : s'.objectiveOffset = s.objectiveOffset)
    (hquad : s'.quadobjEntries = s.quadobjEntries) : StoresObjective s' w where
  known := hnames ▸ h.known
  length_eq := by rw [hnames, hcosts, h.length_eq]
  cost := by
    rw [hnames, hcosts]
    exact h.cost
  offset := hoffset.trans h.offset
  quad := by rw [hquad, hnames, h.quad]

lemma StoresRow.grows {row : LpRow} (h : StoresRow s.varNames c row) (hgrows : Grows s s') :
    StoresRow s'.varNames c row where
  __ := h
  known := h.known.grows hgrows
  within := fun e he => (h.within e he).trans_le hgrows.names.length_le
  sums := by
    intro name hname
    by_cases hold : name ∈ s.varNames
    · rw [← hgrows.names.idxOf_eq_of_mem hold]
      exact h.sums name hold
    · obtain ⟨fresh, hnames, -⟩ := hgrows.fresh
      rw [linearCoeff_eq_zero h.known.linear hold]
      apply coeff_eq_zero
      intro hmem
      obtain ⟨e, he, hkey⟩ := mem_map.mp hmem
      have hlt := h.within e he
      rw [hkey, hnames, idxOf_append_of_notMem hold] at hlt
      exact absurd hlt (Nat.not_lt.mpr (Nat.le_add_right _ _))

lemma StoresBlock.grows {block : QuadraticConstraintBlock} (h : StoresBlock s.varNames c block)
    (hgrows : Grows s s') : StoresBlock s'.varNames c block where
  row := h.row.grows hgrows
  quad := h.quad.trans (map_quadEntry_grows h.row.known.quad hgrows 1).symm

lemma StoresConstraints.grows (h : StoresConstraints s cs) (hgrows : Grows s s') :
    StoresConstraints s' cs where
  rows := hgrows.rows ▸ h.rows.imp fun _ _ hrow => hrow.grows hgrows
  blocks := hgrows.blocks ▸ h.blocks.imp fun _ _ hblock => hblock.grows hgrows

lemma filter_snoc_of_pos {α : Type*} {p : α → Bool} {a : α} (l : List α) (h : p a = true) :
    (l ++ [a]).filter p = l.filter p ++ [a] := by
  rw [filter_append, filter_cons_of_pos h, filter_nil]

lemma filter_snoc_of_neg {α : Type*} {p : α → Bool} {a : α} (l : List α) (h : p a = false) :
    (l ++ [a]).filter p = l.filter p := by
  rw [filter_append, filter_cons_of_neg (Bool.eq_false_iff.mp h), filter_nil, append_nil]

lemma StoresConstraints.row (h : StoresConstraints s cs) (hquad : c.expression.quad = none)
    {row : LpRow} (hrow : StoresRow s.varNames c row) (hnames : s'.varNames = s.varNames)
    (hrows : s'.rows = s.rows ++ [row])
    (hblocks : s'.quadraticConstraintBlocks = s.quadraticConstraintBlocks) :
    StoresConstraints s' (cs ++ [c]) where
  rows := by
    rw [hnames, hrows, filter_snoc_of_pos cs (Option.isNone_iff_eq_none.mpr hquad)]
    exact rel_append h.rows (.cons hrow .nil)
  blocks := by
    rw [hnames, hblocks, filter_snoc_of_neg cs (Option.isSome_eq_false_iff.mpr
      (Option.isNone_iff_eq_none.mpr hquad))]
    exact h.blocks

lemma StoresConstraints.block (h : StoresConstraints s cs) (hquad : c.expression.quad.isSome = true)
    {block : QuadraticConstraintBlock} (hblock : StoresBlock s.varNames c block)
    (hnames : s'.varNames = s.varNames) (hrows : s'.rows = s.rows)
    (hblocks : s'.quadraticConstraintBlocks = s.quadraticConstraintBlocks ++ [block]) :
    StoresConstraints s' (cs ++ [c]) where
  rows := by
    rw [hnames, hrows, filter_snoc_of_neg cs (Option.isNone_eq_false_iff.mpr hquad)]
    exact h.rows
  blocks := by
    rw [hnames, hblocks, filter_snoc_of_pos cs hquad]
    exact rel_append h.blocks (.cons hblock .nil)

structure Stores (s : LpState) (w : WrittenExpression) (cs : List WrittenConstraint) : Prop where
  distinct : s.varNames.Nodup
  objective : StoresObjective s w
  constraints : StoresConstraints s cs

lemma Stores.grows (h : Stores s w cs) (hgrows : Grows s s') : Stores s' w cs :=
  ⟨hgrows.distinct h.distinct, h.objective.grows hgrows, h.constraints.grows hgrows⟩

lemma stores_initialState : Stores initialState ⟨[], none⟩ [] where
  distinct := nodup_nil
  objective :=
    ⟨⟨nofun, nofun⟩, rfl,
      nofun, rfl, rfl⟩
  constraints := ⟨.nil, .nil⟩

end Storing

section Steps

variable {w : WrittenExpression} {cs : List WrittenConstraint}

lemma parseObjectiveSection_stores {r : List LpToken × LpState}
    (h : parseObjectiveSection stod toks s = .ok r) (hends : Ends .objective r.1)
    (hclean : Clean .objective (objectiveBody toks)) (hstores : Stores s ⟨[], none⟩ cs) :
    ∃ w, ObjectiveAt stod toks w ∧ Stores r.2 w cs := by
  obtain ⟨e, he, h⟩ := bind_eq_ok h
  cases h
  generalize hlabelled : (kindOf toks == .name && kindOf toks.tail == .colon &&
    !atSectionBoundary toks) = labelled at he
  have hbody : (if labelled then toks.tail.tail else toks) = objectiveBody toks := by
    rw [objectiveBody, hasLabel, hlabelled]
  rw [hbody] at he
  obtain ⟨w, hw, hreads⟩ := parseExpression_ok he hends hclean
  have hgrows : Grows s e.2.2 := by
    refine Grows.trans ?_ hreads.grows
    cases labelled with
    | true => exact ⟨(Grows.refl s).fresh, id, rfl, rfl, rfl, rfl⟩
    | false => exact Grows.refl s
  have hstored := hstores.grows hgrows
  have hterms : ∀ t ∈ e.1.linear, t.1 < e.2.2.cValues.length := by
    rw [hreads.linear, hstored.objective.length_eq]
    exact fun t ht => keys_termsOf hreads.known.linear ht
  obtain ⟨hlength, hget⟩ := foldl_addLinear hterms
  refine ⟨w, ⟨e.2.1, hw, hends⟩, hstored.distinct, ⟨hreads.known, ?_, fun name hname => ?_, ?_, ?_⟩,
    ⟨hstored.constraints.rows, hstored.constraints.blocks⟩⟩
  · exact hlength.trans hstored.objective.length_eq
  · have hzero := hstored.objective.cost name hname
    have hsum := coeff_termsOf hreads.known.linear name
    rw [← hreads.linear] at hsum
    show (e.1.linear.foldl addLinear e.2.2.cValues).getD (e.2.2.varNames.idxOf name) 0 = _
    rw [hget, hzero, hsum]
    exact zero_add _
  · show e.2.2.objectiveOffset + e.1.constant = _
    rw [hstored.objective.offset, hreads.constant]
    exact zero_add _
  · show e.2.2.quadobjEntries ++ e.1.quad.getD [] = _
    rw [hstored.objective.quad, hreads.quad]
    cases w.quad with
    | none | some qs => rfl

lemma rowEntries_stores {names : List String} {c : WrittenConstraint} {terms : List LinearTerm}
    {name : String} {rhs : Extended ℚ} (hknown : Known names c.expression)
    (hterms : terms = termsOf names c.expression.linear) (hname : ∀ label ∈ c.label, name = label)
    (hrhs : rhs = sub c.rhs (finite (constantOf c.expression.linear))) :
    StoresRow names c ⟨name, c.type, rowEntries terms, rhs⟩ where
  known := hknown
  name := hname
  type := rfl
  rhs := hrhs
  sorted := by
    have hsub : (rowEntries terms).Sublist (gathered terms SortedMap.empty).toList := filter_sublist
    exact (gathered terms SortedMap.empty).sorted.sublist (hsub.map Prod.fst)
  nonzero := fun e he => of_decide_eq_true (mem_filter.mp he).2
  within := by
    intro e he
    have hbound : ∀ t ∈ terms, t.1 < names.length := by
      rw [hterms]
      exact fun t ht => keys_termsOf hknown.linear ht
    exact gathered_keys hbound (fun _ hm => absurd hm not_mem_nil) e (mem_filter.mp he).1
  sums := by
    intro name' _
    rw [coeff_rowEntries, hterms, coeff_termsOf hknown.linear]

lemma parseSignedNumber_ok {r : Extended ℚ × List LpToken} (h : parseSignedNumber stod toks = .ok r) :
    NumberAt stod toks r.1 r.2 := by
  unfold parseSignedNumber at h
  dsimp only at h
  rw [← afterSign, ← signValue] at h
  by_cases hinf : isInfinityKeyword (peek (afterSign toks)) = true
  · rw [if_pos hinf] at h
    cases h
    exact .infinite hinf
  · rw [if_neg hinf] at h
    obtain ⟨u, hnumber, h⟩ := bind_eq_ok h
    obtain ⟨v, hval, h⟩ := bind_eq_ok h
    cases h
    exact .finite (beq_iff_eq.mp (of_expects hnumber)) (numberFromText_ok hval)

lemma parseConstraint_stores {r : List LpToken × LpState} (h : parseConstraint stod toks s = .ok r)
    (hclean : Clean .constraint (behindLabel toks)) (hstores : Stores s w cs) :
    ∃ c, ConstraintAt stod toks c ∧ Stores r.2 w (cs ++ [c]) := by
  obtain ⟨e, he, h⟩ := bind_eq_ok h
  rw [← behindLabel] at he
  generalize hname : (if hasLabel toks = true then (peek toks).text else
    "R" ++ toString s.anonRowCounter) = rowName at h
  have hlabel : ∀ label ∈ labelOf toks, rowName = label := by
    intro label hmem
    unfold labelOf at hmem
    by_cases hlabelled : hasLabel toks = true
    · rw [if_pos hlabelled] at hmem hname
      exact hname.symm.trans (Option.some.inj hmem)
    · rw [if_neg hlabelled] at hmem
      exact nomatch hmem
  cases hrelation : relationOf (kindOf e.2.1) with
  | none =>
    rw [hrelation] at h
    exact nomatch h
  | some rowType =>
    rw [hrelation] at h
    obtain ⟨u, -, h⟩ := bind_eq_ok h
    obtain ⟨rhs, hrhs, h⟩ := bind_eq_ok h
    obtain ⟨u', -, h⟩ := bind_eq_ok h
    have hends : Ends .constraint e.2.1 := Option.isSome_of_eq_some hrelation
    obtain ⟨w', hw', hreads⟩ := parseExpression_ok he hends hclean
    have hgrows : Grows s e.2.2 := by
      refine Grows.trans ?_ hreads.grows
      by_cases hlabelled : hasLabel toks = true
      · rw [if_pos hlabelled]
        exact Grows.refl s
      · rw [if_neg hlabelled]
        exact ⟨(Grows.refl s).fresh, id, rfl, rfl, rfl, rfl⟩
    have hstored := hstores.grows hgrows
    have hrow : StoresRow e.2.2.varNames ⟨labelOf toks, w', rowType, rhs.1⟩ ⟨rowName, rowType,
        rowEntries e.1.linear, sub rhs.1 (finite e.1.constant)⟩ :=
      rowEntries_stores hreads.known hreads.linear hlabel (by rw [hreads.constant])
    refine ⟨⟨labelOf toks, w', rowType, rhs.1⟩, ⟨rfl, e.2.1, rhs.2, hw', hrelation,
      parseSignedNumber_ok hrhs⟩, ?_⟩
    have hquad := hreads.quad
    cases hwritten : w'.quad with
    | none =>
      rw [hwritten] at hquad
      rw [hquad] at h
      cases h
      exact ⟨hstored.distinct, hstored.objective.frame rfl rfl rfl rfl,
        hstored.constraints.row hwritten hrow rfl rfl rfl⟩
    | some qs =>
      rw [hwritten] at hquad
      rw [hquad] at h
      cases h
      refine ⟨hstored.distinct, hstored.objective.frame rfl rfl rfl rfl,
        hstored.constraints.block (Option.isSome_of_eq_some hwritten) ⟨hrow, ?_⟩ rfl rfl rfl⟩
      rw [hwritten]
      rfl

end Steps

section Growing

lemma Grows.of_eq (hnames : s'.varNames = s.varNames) (hcosts : s'.cValues = s.cValues)
    (hrows : s'.rows = s.rows) (hblocks : s'.quadraticConstraintBlocks = s.quadraticConstraintBlocks)
    (hoffset : s'.objectiveOffset = s.objectiveOffset) (hquad : s'.quadobjEntries = s.quadobjEntries) :
    Grows s s' :=
  ⟨⟨[], by rw [hnames, append_nil], by rw [hcosts]; exact (append_nil _).symm⟩,
    fun hnodup => hnames ▸ hnodup, hrows, hblocks, hoffset, hquad⟩

lemma setBounds_grows (s : LpState) (vid : ℕ) (lower upper : Option (Extended ℚ)) :
    Grows s (setBounds s vid lower upper) :=
  Grows.of_eq rfl rfl rfl rfl rfl rfl

variable {r : List LpToken × LpState}

lemma parseBound_grows (h : parseBound stod toks s = .ok r) : Grows s r.2 := by
  have hvar : ∀ name, Grows s { (getOrAddVar s name).2 with
      boundsDefined := (getOrAddVar s name).2.boundsDefined ++ [(getOrAddVar s name).1] } := fun name =>
    (getOrAddVar_grows s name).trans (Grows.of_eq rfl rfl rfl rfl rfl rfl)
  unfold parseBound at h
  by_cases hname : kindOf toks = .name ∧ isInfinityKeyword (peek toks) = false
  · rw [if_pos hname] at h
    dsimp only at h
    split_ifs at h
    · cases h
      exact (hvar _).trans (setBounds_grows _ _ _ _)
    · obtain ⟨b, -, h⟩ := bind_eq_ok h
      cases h
      exact (hvar _).trans (setBounds_grows _ _ _ _)
    · obtain ⟨b, -, h⟩ := bind_eq_ok h
      cases h
      exact (hvar _).trans (setBounds_grows _ _ _ _)
    · obtain ⟨b, -, h⟩ := bind_eq_ok h
      cases h
      exact (hvar _).trans (setBounds_grows _ _ _ _)
    · exact nomatch h
  · rw [if_neg hname] at h
    obtain ⟨lower, -, h⟩ := bind_eq_ok h
    obtain ⟨start, -, h⟩ := bind_eq_ok h
    obtain ⟨u, -, h⟩ := bind_eq_ok h
    dsimp only at h
    split_ifs at h
    · obtain ⟨b, -, h⟩ := bind_eq_ok h
      cases h
      exact ((hvar _).trans (setBounds_grows _ _ _ _)).trans (setBounds_grows _ _ _ _)
    · cases h
      exact (hvar _).trans (setBounds_grows _ _ _ _)

lemma parseIntegerVariable_grows {isBinary : Bool}
    (h : parseIntegerVariable isBinary toks s = .ok r) : Grows s r.2 := by
  obtain ⟨u, -, h⟩ := bind_eq_ok h
  obtain ⟨u', -, h⟩ := bind_eq_ok h
  cases h
  refine (getOrAddVar_grows s (peek toks).text).trans ?_
  cases isBinary with
  | true | false => exact Grows.of_eq rfl rfl rfl rfl rfl rfl

lemma parseSemiContinuousVariable_grows (h : parseSemiContinuousVariable toks s = .ok r) :
    Grows s r.2 := by
  obtain ⟨u, -, h⟩ := bind_eq_ok h
  obtain ⟨u', -, h⟩ := bind_eq_ok h
  cases h
  exact (getOrAddVar_grows s (peek toks).text).trans (Grows.of_eq rfl rfl rfl rfl rfl rfl)

lemma SectionPass.Run.grows {pass : SectionPass} {starts : List (List LpToken)}
    (h : pass.Run toks s starts rest s')
    (hpass : ∀ {toks s r}, pass.run toks s = .ok r → Grows s r.2) : Grows s s' := by
  induction h with
  | stop => exact Grows.refl _
  | pass _ hrun _ ih => exact (hpass hrun).trans ih

lemma tryConsumeSectionHeader_grows {r : SectionKind × List LpToken × LpState}
    (h : tryConsumeSectionHeader toks s = .ok r) : Grows s r.2.2 := by
  obtain ⟨-, maximize, hstate⟩ := tryConsumeSectionHeader_ok h
  rw [hstate]
  exact Grows.of_eq rfl rfl rfl rfl rfl rfl

end Growing

section Boundaries

lemma isSectionWord_of_header (h : (sectionHeader toks).isSome = true) :
    isSectionWord (lowercase (peek toks).text) (peek toks.tail) = true := by
  by_contra hword
  rw [Bool.not_eq_true] at hword
  simp only [isSectionWord, isConstraintsHeader, Bool.or_eq_false_iff] at hword
  simp [sectionHeader, hword] at h

lemma boundary_of_header {r : SectionKind × List LpToken × LpState}
    (h : tryConsumeSectionHeader toks s = .ok r) : atSectionBoundary toks = true := by
  obtain ⟨u, hstart, h⟩ := bind_eq_ok h
  have hstart := Bool.and_eq_true_iff.mp (of_expects hstart)
  have hkind : (peek toks).kind = .name := beq_iff_eq.mp hstart.2
  have hword : isSectionWord (lowercase (peek toks).text) (peek toks.tail) = true := by
    apply isSectionWord_of_header
    cases hheader : sectionHeader toks with
    | none =>
      rw [hheader] at h
      exact nomatch h
    | some header => rfl
  unfold atSectionBoundary
  rw [hstart.1, hkind, hword]
  by_cases heof : atEof toks = true
  · rw [if_pos heof]
  · rw [if_neg heof]
    rfl

lemma EngineRun.boundary {e e' : EngineState} {objectives constraints : List (List LpToken)}
    (h : EngineRun stod e objectives constraints e') : atSectionBoundary e.toks = true := by
  cases h with
  | stop _ hend =>
    rcases hend with heof | hfinish
    · unfold atSectionBoundary
      rw [if_pos heof]
    · obtain ⟨header, hheader, -⟩ := bind_eq_ok hfinish
      exact boundary_of_header hheader
  | step hstep _ =>
    cases hstep with
    | objective start rest s s' hheader => exact boundary_of_header hheader
    | constraints start rest s s' starts hheader => exact boundary_of_header hheader
    | bounds start rest s s' starts hheader => exact boundary_of_header hheader
    | integers isBinary start rest s s' starts hheader => exact boundary_of_header hheader
    | semiContinuous start rest s s' starts hheader => exact boundary_of_header hheader

end Boundaries

section Files

variable {w : WrittenExpression} {cs : List WrittenConstraint}
  {objectives constraints starts : List (List LpToken)} {e e' : EngineState}

lemma constraintPass_stores (h : (constraintPass stod).Run toks s starts rest s')
    (hclean : ∀ start ∈ starts, Clean .constraint (behindLabel start)) (hstores : Stores s w cs) :
    ∃ cs', Forall₂ (ConstraintAt stod) starts cs' ∧ Stores s' w (cs ++ cs') := by
  induction h generalizing cs with
  | stop => exact ⟨[], .nil, by rwa [append_nil]⟩
  | pass _ hpass _ ih =>
    obtain ⟨c, hc, hstores'⟩ := parseConstraint_stores hpass (hclean _ mem_cons_self) hstores
    obtain ⟨cs', hcs', hstores''⟩ := ih (fun start hstart =>
      hclean start (mem_cons_of_mem _ hstart)) hstores'
    refine ⟨c :: cs', .cons hc hcs', ?_⟩
    rwa [append_assoc] at hstores''

def Pending (e : EngineState) (w : WrittenExpression) : Prop :=
  e.sawObjective = false → w = ⟨[], none⟩

lemma EngineSteps.stores (h : EngineSteps stod e objectives constraints e')
    (hboundary : atSectionBoundary e'.toks = true)
    (hobjectives : ∀ start ∈ objectives, Clean .objective (objectiveBody start))
    (hconstraints : ∀ start ∈ constraints, Clean .constraint (behindLabel start))
    (hpending : Pending e w) (hstores : Stores e.state w cs) :
    ∃ w' cs', Forall₂ (ConstraintAt stod) constraints cs' ∧ Stores e'.state w' (cs ++ cs') ∧
      Pending e' w' ∧ ((objectives = [] ∧ w' = w ∧ e'.sawObjective = e.sawObjective) ∨
        ∃ start, objectives = [start] ∧ e.sawObjective = false ∧ e'.sawObjective = true ∧
          ObjectiveAt stod start w') := by
  cases h with
  | objective start rest s s' hheader hsaw hparse =>
    have hgrown := hstores.grows (tryConsumeSectionHeader_grows hheader)
    rw [hpending hsaw] at hgrown
    obtain ⟨w', hw', hstores'⟩ := parseObjectiveSection_stores hparse hboundary
      (hobjectives start mem_cons_self) hgrown
    refine ⟨w', [], .nil, ?_, nofun, .inr ⟨start, rfl, hsaw, rfl, hw'⟩⟩
    rwa [append_nil]
  | constraints start rest s s' starts hheader hrun =>
    have hgrown := hstores.grows (tryConsumeSectionHeader_grows hheader)
    obtain ⟨cs', hcs', hstores'⟩ := constraintPass_stores hrun hconstraints hgrown
    exact ⟨w, cs', hcs', hstores', hpending, .inl ⟨rfl, rfl, rfl⟩⟩
  | bounds start rest s s' starts hheader hrun =>
    refine ⟨w, [], .nil, ?_, hpending, .inl ⟨rfl, rfl, rfl⟩⟩
    rw [append_nil]
    exact hstores.grows ((tryConsumeSectionHeader_grows hheader).trans (hrun.grows parseBound_grows))
  | integers isBinary start rest s s' starts hheader hrun =>
    refine ⟨w, [], .nil, ?_, hpending, .inl ⟨rfl, rfl, rfl⟩⟩
    rw [append_nil]
    exact hstores.grows ((tryConsumeSectionHeader_grows hheader).trans
      (hrun.grows parseIntegerVariable_grows))
  | semiContinuous start rest s s' starts hheader hrun =>
    refine ⟨w, [], .nil, ?_, hpending, .inl ⟨rfl, rfl, rfl⟩⟩
    rw [append_nil]
    exact hstores.grows ((tryConsumeSectionHeader_grows hheader).trans
      (hrun.grows parseSemiContinuousVariable_grows))

lemma EngineRun.objectives_eq_nil (h : EngineRun stod e objectives constraints e')
    (hsaw : e.sawObjective = true) : objectives = [] := by
  induction h with
  | stop => rfl
  | step hstep _ ih =>
    cases hstep with
    | objective start rest s s' hheader hfalse =>
      rw [hsaw] at hfalse
      exact nomatch hfalse
    | constraints => exact ih hsaw
    | bounds => exact ih hsaw
    | integers => exact ih hsaw
    | semiContinuous => exact ih hsaw

lemma EngineRun.stores (h : EngineRun stod e objectives constraints e')
    (hobjectives : ∀ start ∈ objectives, Clean .objective (objectiveBody start))
    (hconstraints : ∀ start ∈ constraints, Clean .constraint (behindLabel start))
    (hpending : Pending e w) (hstores : Stores e.state w cs) :
    ∃ w' cs', Forall₂ (ConstraintAt stod) constraints cs' ∧ Stores e'.state w' (cs ++ cs') ∧
      ((objectives = [] ∧ w' = w ∧ e'.sawObjective = e.sawObjective) ∨
        ∃ start, objectives = [start] ∧ ObjectiveAt stod start w') := by
  induction h generalizing w cs with
  | stop => exact ⟨w, [], .nil, by rwa [append_nil], .inl ⟨rfl, rfl, rfl⟩⟩
  | step hstep hrun ih =>
    obtain ⟨w₁, cs₁, hcs₁, hstores₁, hpending₁, hobjective⟩ := hstep.stores hrun.boundary
      (fun start hstart => hobjectives start (mem_append_left _ hstart))
      (fun start hstart => hconstraints start (mem_append_left _ hstart)) hpending hstores
    obtain ⟨w₂, cs₂, hcs₂, hstores₂, hlater⟩ := ih
      (fun start hstart => hobjectives start (mem_append_right _ hstart))
      (fun start hstart => hconstraints start (mem_append_right _ hstart)) hpending₁ hstores₁
    refine ⟨w₂, cs₁ ++ cs₂, rel_append hcs₁ hcs₂, append_assoc cs cs₁ cs₂ ▸ hstores₂, ?_⟩
    rcases hobjective with ⟨rfl, rfl, hsaw⟩ | ⟨start, rfl, -, hsaw, hw₁⟩
    · rcases hlater with ⟨rfl, rfl, hsaw'⟩ | ⟨start, rfl, hw₂⟩
      · exact .inl ⟨rfl, rfl, hsaw'.trans hsaw⟩
      · exact .inr ⟨start, rfl, hw₂⟩
    · obtain rfl := hrun.objectives_eq_nil hsaw
      rcases hlater with ⟨-, rfl, -⟩ | ⟨start', hnil, -⟩
      · exact .inr ⟨start, rfl, hw₁⟩
      · exact nomatch hnil

/-- The objectives and constraints that the engine finds in the tokens, with what it has read in the end. -/
def AcceptingRun (stod : String → Option ℚ) (tokens : List LpToken)
    (objectives constraints : List (List LpToken)) (out : LpState) : Prop :=
  ∃ e, EngineRun stod ⟨false, tokens, initialState⟩ objectives constraints e ∧
    e.sawObjective = true ∧ e.state = out

/-- Every objective and constraint of an accepted file is an expression of the grammar with nothing left
over, and the numbers that are stored are those of the expression. -/
def AccountsForTokens (stod : String → Option ℚ) (tokens : List LpToken) : Prop :=
  ∀ out, parseAll stod tokens = .ok out → ∃ objectives constraints w cs,
    AcceptingRun stod tokens objectives constraints out ∧
    (∃ start, objectives = [start] ∧ ObjectiveAt stod start w) ∧
    Forall₂ (ConstraintAt stod) constraints cs ∧ Stores out w cs

/-- Every objective and constraint of an accepted file starts clean. -/
def StartsClean (stod : String → Option ℚ) (tokens : List LpToken) : Prop :=
  ∀ out, parseAll stod tokens = .ok out → ∃ objectives constraints,
    AcceptingRun stod tokens objectives constraints out ∧
    (∀ start ∈ objectives, Clean .objective (objectiveBody start)) ∧
    ∀ start ∈ constraints, Clean .constraint (behindLabel start)

lemma AcceptingRun.stores {tokens : List LpToken} {out : LpState}
    (h : AcceptingRun stod tokens objectives constraints out)
    (hobjectives : ∀ start ∈ objectives, Clean .objective (objectiveBody start))
    (hconstraints : ∀ start ∈ constraints, Clean .constraint (behindLabel start)) :
    ∃ w cs, (∃ start, objectives = [start] ∧ ObjectiveAt stod start w) ∧
      Forall₂ (ConstraintAt stod) constraints cs ∧ Stores out w cs := by
  obtain ⟨e, hrun, hsaw, rfl⟩ := h
  obtain ⟨w, cs, hcs, hstores, hobjective⟩ := hrun.stores hobjectives hconstraints (fun _ => rfl)
    stores_initialState
  rcases hobjective with ⟨-, -, hsaw'⟩ | hobjective
  · rw [hsaw] at hsaw'
    exact nomatch hsaw'
  · exact ⟨w, cs, hobjective, hcs, hstores⟩

lemma ObjectiveAt.clean {start : List LpToken} (h : ObjectiveAt stod start w) :
    Clean .objective (objectiveBody start) := by
  obtain ⟨rest, hexpression, hends⟩ := h
  exact hexpression.clean hends

lemma ConstraintAt.clean {start : List LpToken} {c : WrittenConstraint}
    (h : ConstraintAt stod start c) : Clean .constraint (behindLabel start) := by
  obtain ⟨relation, rest, hexpression, hrelation, -⟩ := h.parts
  exact hexpression.clean (Option.isSome_of_eq_some hrelation)

lemma ConstraintAt.clean_of_forall₂ (h : Forall₂ (ConstraintAt stod) constraints cs) :
    ∀ start ∈ constraints, Clean .constraint (behindLabel start) := by
  induction h with
  | nil => exact nofun
  | cons hc _ ih => exact forall_mem_cons.mpr ⟨hc.clean, ih⟩

/-- A file is accounted for exactly if all its objectives and constraints start clean. -/
theorem accountsForTokens_iff (stod : String → Option ℚ) (tokens : List LpToken) :
    AccountsForTokens stod tokens ↔ StartsClean stod tokens := by
  constructor
  · intro haccounts out hout
    obtain ⟨objectives, constraints, w, cs, hrun, ⟨start, rfl, hw⟩, hcs, -⟩ := haccounts out hout
    refine ⟨_, constraints, hrun, fun start' hstart' => ?_, ConstraintAt.clean_of_forall₂ hcs⟩
    obtain rfl := List.mem_singleton.mp hstart'
    exact hw.clean
  · intro hclean out hout
    obtain ⟨objectives, constraints, hrun, hobjectives, hconstraints⟩ := hclean out hout
    obtain ⟨w, cs, hobjective, hcs, hstores⟩ := hrun.stores hobjectives hconstraints
    exact ⟨objectives, constraints, w, cs, hrun, hobjective, hcs, hstores⟩

end Files

section StrayMinus

variable {constraints : List (List LpToken)}

def strayMinus : List LpToken :=
  [⟨.name, "min", 1, true⟩, ⟨.minus, "-", 2, true⟩, ⟨.name, "end", 3, true⟩]

lemma strayMinus_header (s : LpState) :
    tryConsumeSectionHeader strayMinus s = .ok (.objective, strayMinus.tail, { s with maximize := false }) := by
  have hmin : lowercase "min" = "min" := by decide +kernel
  simp [tryConsumeSectionHeader, strayMinus, sectionHeader, peek, kindOf, hmin, isObjectiveMinKeyword,
    expectsAt, expects, bind, Except.bind]

lemma strayMinus_finish (s : LpState) :
    tryConsumeSectionHeader strayMinus.tail.tail s = .ok (.finish, [], s) := by
  have hend : lowercase "end" = "end" := by decide +kernel
  simp [tryConsumeSectionHeader, strayMinus, sectionHeader, peek, kindOf, hend, isObjectiveMinKeyword,
    isObjectiveMaxKeyword, isBoundsKeyword, isGeneralsKeyword, isBinariesKeyword, isEndKeyword,
    expectsAt, expects, bind, Except.bind]

lemma strayMinus_atVariable : atVariable strayMinus.tail.tail = false := by decide +kernel

lemma strayMinus_linear (s : LpState) :
    parseLinearExpression (fun _ => none) strayMinus.tail s = .ok (([], 0), strayMinus.tail.tail, s) := by
  have hpass : linearPass (fun _ => none) true strayMinus.tail s = .ok (.stop strayMinus.tail.tail) := by
    have hread : readTerm (fun _ => none) (-1) strayMinus.tail.tail s = .ok (.stop strayMinus.tail.tail) := by
      rw [readTerm, if_neg (by decide), strayMinus_atVariable, if_neg Bool.false_ne_true]
    have hbracket : bracketAhead strayMinus.tail = false := by decide
    have hsign : signOf (peek strayMinus.tail) = some (-1) := rfl
    rw [linearPass, hbracket, if_neg Bool.false_ne_true, hsign]
    show (readTerm (fun _ => none) (-1) strayMinus.tail.tail s >>= _) = _
    rw [hread]
    rfl
  rw [parseLinearExpression, linearLoop_eq, hpass]

lemma strayMinus_expression (s : LpState) :
    parseExpression (fun _ => none) .objective strayMinus.tail s =
      .ok (⟨[], 0, none⟩, strayMinus.tail.tail, s) := by
  unfold parseExpression
  rw [strayMinus_linear]
  rfl

lemma strayMinus_objective (s : LpState) : ∃ s',
    parseObjectiveSection (fun _ => none) strayMinus.tail s = .ok (strayMinus.tail.tail, s') := by
  have hlabel : (kindOf strayMinus.tail == .name && kindOf strayMinus.tail.tail == .colon &&
      !atSectionBoundary strayMinus.tail) = false := rfl
  refine ⟨{ s with
    quadobjEntries := s.quadobjEntries ++ []
    cValues := s.cValues
    objectiveOffset := s.objectiveOffset + 0 }, ?_⟩
  unfold parseObjectiveSection
  rw [hlabel]
  show (parseExpression (fun _ => none) .objective strayMinus.tail s >>= _) = _
  rw [strayMinus_expression]
  rfl

lemma strayMinus_accepted : ∃ out, parseAll (fun _ => none) strayMinus = .ok out := by
  obtain ⟨s', hobjective⟩ := strayMinus_objective { initialState with maximize := false }
  have hfirst : engineStep (fun _ => none) ⟨false, strayMinus, initialState⟩ =
      .ok (some ⟨true, strayMinus.tail.tail, s'⟩) := by
    unfold engineStep
    rw [strayMinus_header]
    show (parseObjectiveSection (fun _ => none) strayMinus.tail _ >>= _) = _
    rw [hobjective]
    rfl
  have hsecond : engineStep (fun _ => none) ⟨true, strayMinus.tail.tail, s'⟩ = .ok none := by
    unfold engineStep
    rw [strayMinus_finish]
    rfl
  refine ⟨s', ?_⟩
  unfold parseAll
  rw [engineLoop_eq, if_neg (by decide), hfirst]
  dsimp only
  rw [engineLoop_eq, if_neg (show ¬ atEof strayMinus.tail.tail = true by decide), hsecond]
  rfl

lemma strayMinus_start {start : List LpToken} {e : EngineState}
    (h : EngineRun (fun _ => none) ⟨false, strayMinus, initialState⟩ [start] constraints e) :
    start = strayMinus.tail := by
  have hheader := strayMinus_header initialState
  generalize hobjectives : [start] = objectives at h
  cases h with
  | stop => exact nomatch hobjectives
  | step hstep _ =>
    cases hstep with
    | objective start' rest s s' hheader' =>
      have hsame := ok.inj (hheader.symm.trans hheader')
      rw [(mk.inj (mk.inj hsame).2).1]
      exact (List.cons.inj hobjectives).1
    | constraints _ _ _ _ _ hheader' =>
      exact nomatch (mk.inj (ok.inj (hheader.symm.trans hheader'))).1
    | bounds _ _ _ _ _ hheader' =>
      exact nomatch (mk.inj (ok.inj (hheader.symm.trans hheader'))).1
    | integers isBinary _ _ _ _ _ hheader' =>
      have hkind := (mk.inj (ok.inj (hheader.symm.trans hheader'))).1
      cases isBinary with
      | false => exact nomatch hkind
      | true => exact nomatch hkind
    | semiContinuous _ _ _ _ _ hheader' =>
      exact nomatch (mk.inj (ok.inj (hheader.symm.trans hheader'))).1

/-- The sign is read and dropped. -/
theorem strayMinus_not_accounted : ¬ AccountsForTokens (fun _ => none) strayMinus := by
  intro haccounts
  obtain ⟨out, hout⟩ := strayMinus_accepted
  obtain ⟨objectives, constraints, w, cs, ⟨e, hrun, -, -⟩, ⟨start, rfl, hw⟩, -, -⟩ := haccounts out hout
  obtain rfl := strayMinus_start hrun
  rcases hw.clean.lead rfl with hopen | hterm
  · exact absurd hopen (by decide)
  · have hstarts : startsTerm strayMinus.tail.tail = false :=
      startsTerm_eq_false (by decide) strayMinus_atVariable
    exact Bool.false_ne_true (hstarts.symm.trans hterm)

end StrayMinus

end CuOpt.Io.LpParser
