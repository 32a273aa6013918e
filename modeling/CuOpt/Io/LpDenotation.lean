import CuOpt.Io.LpClean

/-! The descent reads expressions that start clean as they are written. The state only grows on the
way: names are appended, and their costs are zero. -/

namespace CuOpt.Io.LpParser

open Activities Extended SparseList List
open Prod (ext)

variable {stod : String → Option ℚ} {role : BracketRole} {toks rest : List LpToken}
  {s s' s'' : LpState}

section Growing

structure Grows (s s' : LpState) : Prop where
  fresh : ∃ fresh : List String, s'.varNames = s.varNames ++ fresh ∧
    s'.cValues = s.cValues ++ replicate fresh.length 0
  distinct : s.varNames.Nodup → s'.varNames.Nodup
  rows : s'.rows = s.rows
  blocks : s'.quadraticConstraintBlocks = s.quadraticConstraintBlocks
  offset : s'.objectiveOffset = s.objectiveOffset
  quadobj : s'.quadobjEntries = s.quadobjEntries

lemma Grows.refl (s : LpState) : Grows s s where
  fresh := ⟨[], (append_nil _).symm, (append_nil _).symm⟩
  distinct := id
  rows := rfl
  blocks := rfl
  offset := rfl
  quadobj := rfl

lemma Grows.trans (h : Grows s s') (h' : Grows s' s'') : Grows s s'' where
  fresh := by
    obtain ⟨fresh, hnames, hcosts⟩ := h.fresh
    obtain ⟨fresh', hnames', hcosts'⟩ := h'.fresh
    refine ⟨fresh ++ fresh', ?_, ?_⟩
    · rw [hnames', hnames, append_assoc]
    · rw [hcosts', hcosts, append_assoc, length_append, replicate_add]
  distinct := h'.distinct ∘ h.distinct
  rows := h'.rows.trans h.rows
  blocks := h'.blocks.trans h.blocks
  offset := h'.offset.trans h.offset
  quadobj := h'.quadobj.trans h.quadobj

lemma Grows.names (h : Grows s s') : s.varNames <+: s'.varNames := by
  obtain ⟨fresh, hnames, -⟩ := h.fresh
  exact ⟨fresh, hnames.symm⟩

lemma Grows.mem (h : Grows s s') {name : String} (hname : name ∈ s.varNames) : name ∈ s'.varNames :=
  h.names.subset hname

lemma getOrAddVar_grows (s : LpState) (name : String) : Grows s (getOrAddVar s name).2 := by
  unfold getOrAddVar
  by_cases hname : name ∈ s.varNames
  · rw [if_pos hname]
    exact Grows.refl s
  · rw [if_neg hname]
    refine ⟨⟨[name], rfl, rfl⟩, fun hnodup => ?_, rfl, rfl, rfl, rfl⟩
    exact nodup_append.mpr ⟨hnodup, nodup_singleton name, fun a ha b hb hab =>
      hname (mem_singleton.mp hb ▸ hab ▸ ha)⟩

lemma getOrAddVar_mem (s : LpState) (name : String) : name ∈ (getOrAddVar s name).2.varNames := by
  unfold getOrAddVar
  by_cases hname : name ∈ s.varNames
  · rw [if_pos hname]
    exact hname
  · rw [if_neg hname]
    exact mem_append_right _ (mem_singleton_self name)

lemma getOrAddVar_fst (s : LpState) (name : String) :
    (getOrAddVar s name).1 = (getOrAddVar s name).2.varNames.idxOf name := by
  unfold getOrAddVar
  by_cases hname : name ∈ s.varNames
  · rw [if_pos hname]
  · rw [if_neg hname]
    show s.varNames.length = (s.varNames ++ [name]).idxOf name
    rw [idxOf_append_of_notMem hname, idxOf_cons_self, Nat.add_zero]

end Growing

section Linear

variable {first : Bool} {sign : ℚ} {names names' : List String}

def Written.term (names : List String) : Written → Option LinearTerm
  | .named name coeff => some (names.idxOf name, coeff)
  | .constant _ => none

def termsOf (names : List String) (ws : List Written) : List LinearTerm :=
  ws.filterMap (Written.term names)

structure Sums (s s' : LpState) (ws : List Written) (terms : List LinearTerm) (constant : ℚ) : Prop where
  grows : Grows s s'
  known : ∀ t ∈ ws, ∀ name ∈ t.name?, name ∈ s'.varNames
  terms_eq : terms = termsOf s'.varNames ws
  constant_eq : constant = constantOf ws

lemma Sums.nil (s : LpState) : Sums s s [] [] 0 :=
  ⟨Grows.refl s, nofun, rfl, rfl⟩

variable {ws : List Written} {terms : List LinearTerm} {constant : ℚ}

lemma Sums.cons_named {coeff : ℚ} {name : String} (hgrows : Grows s s')
    (hname : name ∈ s'.varNames) (h : Sums s' s'' ws terms constant) :
    Sums s s'' (.named name coeff :: ws) ((s'.varNames.idxOf name, coeff) :: terms) constant where
  grows := hgrows.trans h.grows
  known := by
    intro t ht name' hname'
    rcases mem_cons.mp ht with rfl | ht
    · cases hname'
      exact h.grows.mem hname
    · exact h.known t ht name' hname'
  terms_eq := by
    rw [h.terms_eq, h.grows.names.idxOf_eq_of_mem hname]
    rfl
  constant_eq := by
    rw [h.constant_eq, constantOf, constantOf, map_cons, sum_cons]
    exact (zero_add _).symm

lemma Sums.cons_constant {v : ℚ} (h : Sums s s' ws terms constant) :
    Sums s s' (.constant v :: ws) terms (v + constant) where
  __ := h
  known := by
    intro t ht name' hname'
    rcases mem_cons.mp ht with rfl | ht
    · exact nomatch hname'
    · exact h.known t ht name' hname'
  constant_eq := by
    rw [h.constant_eq, constantOf, constantOf, map_cons, sum_cons]
    rfl

lemma Sums.append {ws' : List Written} {terms' : List LinearTerm} {constant' : ℚ}
    {s₁ s₂ : LpState} (h : Sums s s₁ ws terms constant) (hgrows : Grows s₁ s₂)
    (h' : Sums s₂ s' ws' terms' constant') :
    Sums s s' (ws ++ ws') (terms ++ terms') (constant + constant') where
  grows := (h.grows.trans hgrows).trans h'.grows
  known := by
    intro t ht name hname
    rcases mem_append.mp ht with ht | ht
    · exact (hgrows.trans h'.grows).mem (h.known t ht name hname)
    · exact h'.known t ht name hname
  terms_eq := by
    have hsame : termsOf s₁.varNames ws = termsOf s'.varNames ws := by
      apply filterMap_congr
      intro t ht
      cases t with
      | named name coeff =>
        have hname := h.known _ ht name rfl
        show some _ = some _
        rw [(hgrows.trans h'.grows).names.idxOf_eq_of_mem hname]
      | constant v => rfl
    rw [h.terms_eq, h'.terms_eq, hsame]
    exact (filterMap_append).symm
  constant_eq := by
    rw [h.constant_eq, h'.constant_eq, constantOf, constantOf, constantOf, map_append, sum_append]

lemma ReadsTerm.named_item {t : LinearTerm} (h : ReadsTerm stod sign toks s (.term t rest s')) :
    ∃ name v, TermAt stod toks (.named name v) rest ∧ Grows s s' ∧ name ∈ s'.varNames ∧
      t = (s'.varNames.idxOf name, sign * v) := by
  cases h with
  | scaled v hkind hval _ hvar =>
    exact ⟨_, v, .scaled hkind hval hvar, getOrAddVar_grows s _, getOrAddVar_mem s _,
      ext (getOrAddVar_fst s _) rfl⟩
  | starred v hkind hval hstar hvar =>
    exact ⟨_, v, .starred hkind hval hstar hvar, getOrAddVar_grows s _, getOrAddVar_mem s _,
      ext (getOrAddVar_fst s _) rfl⟩
  | bare hvar =>
    exact ⟨_, 1, .bare hvar, getOrAddVar_grows s _, getOrAddVar_mem s _,
      ext (getOrAddVar_fst s _) (mul_one sign).symm⟩

/-- A constant is one as it is written, or its star is followed by the word `free`. -/
lemma ReadsTerm.constant_item {v : ℚ} (h : ReadsTerm stod sign toks s (.constant v rest)) :
    (∃ w, TermAt stod toks (.constant w) rest ∧ v = sign * w) ∨
      (kindOf rest = .name ∧ atSectionBoundary rest = false) := by
  cases h with
  | constant w hkind hval => exact .inl ⟨w, .constant hkind hval, rfl⟩
  | dangling w _ _ _ hname hboundary => exact .inr ⟨hname, hboundary⟩

lemma linearLoop_name (stod : String → Option ℚ) (s : LpState) (hname : kindOf toks = .name)
    (terms : List LinearTerm) (constant : ℚ) :
    linearLoop stod false toks s terms constant = .ok ((terms, constant), toks, s) := by
  have hsign := signOf_of_name hname
  have hbracket : bracketAhead toks = false := by
    rw [bracketAhead, hname, hsign]
    rfl
  have hpass : linearPass stod false toks s = .ok (.stop toks) := by
    rw [linearPass, hbracket, if_neg Bool.false_ne_true, hsign]
    rfl
  rw [linearLoop_eq, hpass]

/-- Behind the first term the loop reads terms with signs, unless it stops at a word inside a line. -/
lemma linearLoop_signed (hfirst : first = false)
    {r : (List LinearTerm × ℚ) × List LpToken × LpState}
    (h : linearLoop stod first toks s terms constant = .ok r)
    (hend : kindOf r.2.1 = .name → atSectionBoundary r.2.1 = true) :
    ∃ ws terms' constant', SignedItems (TermAt stod) Written.scale toks ws r.2.1 ∧
      Sums s r.2.2 ws terms' constant' ∧ r.1 = (terms ++ terms', constant + constant') := by
  induction first, toks, s, terms, constant using linearLoop.induct stod with
  | case1 first toks s terms constant e hpass =>
    rw [linearLoop_eq, hpass] at h
    cases h
  | case2 first toks s terms constant rest hpass =>
    subst hfirst
    rw [linearLoop_eq, hpass] at h
    cases h
    have hrest : rest = toks := by
      cases linearPass_ok hpass with
      | bracket => rfl
      | signed _ _ _ _ _ hcont => (rcases hcont with ⟨⟨⟩⟩ | ⟨⟨⟩⟩)
      | unsigned _ _ _ _ hfirst => cases hfirst
      | ends => rfl
    subst hrest
    exact ⟨[], [], 0, .nil _, Sums.nil s, by rw [append_nil, add_zero]⟩
  | case3 first toks s terms constant t rest s' hpass ih =>
    subst hfirst
    rw [linearLoop_eq, hpass] at h
    cases linearPass_ok hpass with
    | signed sign _ _ hsign hread _ =>
      obtain ⟨name, v, hitem, hgrows, hname, rfl⟩ := hread.named_item
      obtain ⟨ws, terms', constant', hitems, hsums, hr⟩ := ih rfl h
      refine ⟨_, _, constant', .cons hsign hitem hitems, hsums.cons_named hgrows hname, ?_⟩
      rw [hr, append_assoc]
      rfl
    | unsigned _ _ _ _ hfirst => cases hfirst
  | case4 first toks s terms constant v rest hpass ih =>
    subst hfirst
    rw [linearLoop_eq, hpass] at h
    cases linearPass_ok hpass with
    | signed sign _ _ hsign hread _ =>
      rcases hread.constant_item with ⟨w, hitem, rfl⟩ | ⟨hname, hboundary⟩
      · obtain ⟨ws, terms', constant', hitems, hsums, hr⟩ := ih rfl h
        refine ⟨_, terms', _, .cons hsign hitem hitems, hsums.cons_constant, ?_⟩
        rw [hr, add_assoc]
      · have hstop := linearLoop_name stod s hname terms (constant + v)
        obtain rfl := Except.ok.inj (hstop.symm.trans h)
        rw [hend hname] at hboundary
        cases hboundary
    | unsigned _ _ _ _ hfirst => cases hfirst

lemma ReadsTerm.stop_startsTerm (h : ReadsTerm stod sign toks s (.stop rest)) :
    rest = toks ∧ startsTerm toks = false := by
  cases h with
  | nothing hkind hvar => exact ⟨rfl, startsTerm_eq_false hkind hvar⟩

/-- What is read is a sum, unless a sign is dropped that neither a term nor a bracket follows. -/
lemma parseLinearExpression_ok {r : (List LinearTerm × ℚ) × List LpToken × LpState}
    (h : parseLinearExpression stod toks s = .ok r)
    (hend : kindOf r.2.1 = .name → atSectionBoundary r.2.1 = true) :
    (∃ ws, SumOf (TermAt stod) Written.scale toks ws r.2.1 ∧ Sums s r.2.2 ws r.1.1 r.1.2) ∨
      ((signOf (peek toks)).isSome = true ∧ bracketAhead toks = false ∧
        startsTerm toks.tail = false) := by
  unfold parseLinearExpression at h
  rw [linearLoop_eq] at h
  cases hpass : linearPass stod true toks s with
  | error e =>
    rw [hpass] at h
    exact nomatch h
  | ok pass =>
    rw [hpass] at h
    cases pass with
    | stop rest =>
      cases h
      cases linearPass_ok hpass with
      | bracket => exact .inl ⟨[], .signed (.nil _), Sums.nil s⟩
      | signed sign _ hbracket hsign hread _ =>
        exact .inr ⟨Option.isSome_of_eq_some hsign, hbracket, hread.stop_startsTerm.2⟩
      | unsigned _ _ _ hread _ =>
        obtain ⟨rfl, -⟩ := hread.stop_startsTerm
        exact .inl ⟨[], .signed (.nil _), Sums.nil s⟩
      | ends _ _ hfirst => exact nomatch hfirst
    | term t rest s' =>
      obtain ⟨ws, terms, constant, hitems, hsums, hr⟩ := linearLoop_signed rfl h hend
      left
      cases linearPass_ok hpass with
      | signed sign _ _ hsign hread _ =>
        obtain ⟨name, v, hitem, hgrows, hname, rfl⟩ := hread.named_item
        refine ⟨_, .signed (.cons hsign hitem hitems), ?_⟩
        rw [hr, zero_add]
        exact hsums.cons_named hgrows hname
      | unsigned _ _ hsign hread _ =>
        obtain ⟨name, v, hitem, hgrows, hname, rfl⟩ := hread.named_item
        refine ⟨_, .unsigned hsign hitem hitems, ?_⟩
        rw [hr, zero_add, one_mul]
        exact hsums.cons_named hgrows hname
    | constant v rest =>
      left
      -- the word behind a dangling star ends the loop, and nothing else starts there
      have hstop : ¬ (kindOf rest = .name ∧ atSectionBoundary rest = false) := by
        rintro ⟨hname, hboundary⟩
        obtain rfl := Except.ok.inj ((linearLoop_name stod s hname [] (0 + v)).symm.trans h)
        rw [hend hname] at hboundary
        exact nomatch hboundary
      obtain ⟨ws, terms, constant, hitems, hsums, hr⟩ := linearLoop_signed rfl h hend
      cases linearPass_ok hpass with
      | signed sign _ _ hsign hread _ =>
        obtain ⟨w, hitem, rfl⟩ := hread.constant_item.resolve_right hstop
        refine ⟨_, .signed (.cons hsign hitem hitems), ?_⟩
        rw [hr, zero_add]
        exact hsums.cons_constant
      | unsigned _ _ hsign hread _ =>
        obtain ⟨w, hitem, rfl⟩ := hread.constant_item.resolve_right hstop
        refine ⟨_, .unsigned hsign hitem hitems, ?_⟩
        rw [hr, zero_add, one_mul]
        exact hsums.cons_constant

end Linear

section Brackets

variable {first : Bool} {sign : ℚ} {names names' : List String}

lemma quadEntry_grow (hnames : names <+: names') (factor : ℚ) {q : WrittenQuad}
    (hq : q.first ∈ names ∧ q.second ∈ names) :
    quadEntry names' factor q = quadEntry names factor q := by
  rw [quadEntry, quadEntry, hnames.idxOf_eq_of_mem hq.1, hnames.idxOf_eq_of_mem hq.2]

structure Products (s s' : LpState) (qs : List WrittenQuad) (entries : List QuadEntry) : Prop where
  grows : Grows s s'
  known : ∀ q ∈ qs, q.first ∈ s'.varNames ∧ q.second ∈ s'.varNames
  entries_eq : entries = qs.map (quadEntry s'.varNames 1)

lemma Products.nil (s : LpState) : Products s s [] [] :=
  ⟨Grows.refl s, nofun, rfl⟩

lemma Products.cons {qs : List WrittenQuad} {entries : List QuadEntry} {q : WrittenQuad}
    (hgrows : Grows s s') (hq : q.first ∈ s'.varNames ∧ q.second ∈ s'.varNames)
    (h : Products s' s'' qs entries) :
    Products s s'' (q :: qs) (quadEntry s'.varNames 1 q :: entries) where
  grows := hgrows.trans h.grows
  known := by
    intro q' hq'
    rcases mem_cons.mp hq' with rfl | hq'
    · exact ⟨h.grows.mem hq.1, h.grows.mem hq.2⟩
    · exact h.known q' hq'
  entries_eq := by rw [h.entries_eq, map_cons, quadEntry_grow h.grows.names 1 hq]

lemma ReadsQuadTerm.item {entry : QuadEntry} (h : ReadsQuadTerm stod sign toks s entry rest s') :
    ∃ q, QuadTermAt stod toks q rest ∧ Grows s s' ∧
      (q.first ∈ s'.varNames ∧ q.second ∈ s'.varNames) ∧
      entry = quadEntry s'.varNames 1 (q.scale sign) := by
  cases h with
  | square v rest hcoeff hname hcaret htwo =>
    have hmem := getOrAddVar_mem s (peek rest).text
    refine ⟨_, .square hcoeff hname hcaret htwo, getOrAddVar_grows s _, ⟨hmem, hmem⟩, ?_⟩
    rw [quadEntry, WrittenQuad.scale, one_mul, min_self, max_self, getOrAddVar_fst]
  | product v rest s₁ i j hcoeff hname hstar hname' hi hj =>
    have hs : s₁ = (getOrAddVar s (peek rest).text).2 := congrArg Prod.snd hi
    have hplace : i = (getOrAddVar s (peek rest).text).1 := congrArg Prod.fst hi
    subst hs
    have hgrows := getOrAddVar_grows (getOrAddVar s (peek rest).text).2 (peek rest.tail.tail).text
    have hmem := getOrAddVar_mem s (peek rest).text
    refine ⟨_, .product hcoeff hname hstar hname', (getOrAddVar_grows s _).trans hgrows,
      ⟨hgrows.mem hmem, getOrAddVar_mem _ _⟩, ?_⟩
    rw [quadEntry, WrittenQuad.scale, one_mul, hplace, hj, getOrAddVar_fst, getOrAddVar_fst,
      hgrows.names.idxOf_eq_of_mem hmem]

lemma quadLoop_ok {entries : List QuadEntry} {r : List QuadEntry × List LpToken × LpState}
    (h : quadLoop stod first toks s entries = .ok r) :
    kindOf r.2.1 = .rBracket ∧ ∃ qs entries',
      (SignedItems (QuadTermAt stod) WrittenQuad.scale toks qs r.2.1 ∨
        (first = true ∧ SumOf (QuadTermAt stod) WrittenQuad.scale toks qs r.2.1)) ∧
      Products s r.2.2 qs entries' ∧ r.1 = entries ++ entries' := by
  induction first, toks, s, entries using quadLoop.induct stod with
  | case1 first toks s entries hclose =>
    rw [quadLoop_eq, if_pos hclose] at h
    cases h
    exact ⟨hclose, [], [], .inl (.nil _), Products.nil s, (append_nil entries).symm⟩
  | case2 first toks s entries hclose e hpass =>
    rw [quadLoop_eq, if_neg hclose, hpass] at h
    cases h
  | case3 first toks s entries hclose r' hpass ih =>
    rw [quadLoop_eq, if_neg hclose, hpass] at h
    obtain ⟨hend, qs, entries', hitems, hproducts, hr⟩ := ih h
    have hitems := hitems.resolve_right fun hfirst => Bool.noConfusion hfirst.1
    refine ⟨hend, ?_⟩
    rcases quadPass_ok hpass with ⟨sign, hsign, hread⟩ | ⟨hsign, hfirst, hread⟩
    · obtain ⟨q, hitem, hgrows, hq, hentry⟩ := hread.item
      refine ⟨_, _, .inl (.cons hsign hitem hitems), hproducts.cons hgrows hq, ?_⟩
      rw [hr, hentry, append_assoc]
      rfl
    · obtain ⟨q, hitem, hgrows, hq, hentry⟩ := hread.item
      refine ⟨_, _, .inr ⟨hfirst, .unsigned hsign hitem hitems⟩, hproducts.cons hgrows hq, ?_⟩
      rw [hr, hentry, WrittenQuad.scale, one_mul, append_assoc]
      rfl

def roleFactor : BracketRole → ℚ
  | .objective => 1 / 2
  | .constraint => 1

lemma parseQuadraticBracket_ok {outerSign : ℚ} {r : List QuadEntry × List LpToken × LpState}
    (h : parseQuadraticBracket stod outerSign role toks s = .ok r) :
    ∃ qs, BracketAt stod role toks qs r.2.1 ∧ Grows s r.2.2 ∧
      (∀ q ∈ qs, q.first ∈ r.2.2.varNames ∧ q.second ∈ r.2.2.varNames) ∧
      r.1 = (qs.map (WrittenQuad.scale outerSign)).map (quadEntry r.2.2.varNames (roleFactor role)) := by
  obtain ⟨inside, hopen, h⟩ := bind_eq_ok h
  obtain ⟨raw, hraw, h⟩ := bind_eq_ok h
  obtain ⟨behind, hclose, h⟩ := bind_eq_ok h
  obtain ⟨hlBracket, rfl⟩ := of_expect hopen
  obtain ⟨hrBracket, rfl⟩ := of_expect hclose
  obtain ⟨-, qs, entries, hitems, hproducts, hr⟩ := quadLoop_ok hraw
  have hsum : SumOf (QuadTermAt stod) WrittenQuad.scale toks.tail qs raw.2.1 := by
    rcases hitems with hitems | ⟨-, hitems⟩
    · exact .signed hitems
    · exact hitems
  rw [nil_append, hproducts.entries_eq] at hr
  refine ⟨qs, ?_⟩
  cases role with
  | objective =>
    obtain ⟨u, hhalved, h⟩ := bind_eq_ok h
    cases h
    refine ⟨⟨hlBracket, raw.2.1, hsum, hrBracket, rfl, iff_of_true (of_expects hhalved) rfl⟩, hproducts.grows,
      hproducts.known, ?_⟩
    rw [hr, map_map, map_map]
    refine map_congr_left fun q _ => ?_
    simp only [Function.comp_apply, quadEntry, WrittenQuad.scale, roleFactor]
    ring_nf
  | constraint =>
    obtain ⟨u, hhalved, h⟩ := bind_eq_ok h
    obtain ⟨u', -, h⟩ := bind_eq_ok h
    cases h
    have hhalved : ¬ halved raw.2.1.tail = true := by
      rw [Bool.not_eq_true]
      exact Bool.not_eq_true' _ ▸ of_expects hhalved
    refine ⟨⟨hlBracket, raw.2.1, hsum, hrBracket, rfl, iff_of_false hhalved nofun⟩, hproducts.grows,
      hproducts.known, ?_⟩
    rw [hr, map_map, map_map]
    refine map_congr_left fun q _ => ?_
    simp only [Function.comp_apply, quadEntry, WrittenQuad.scale, roleFactor]
    ring_nf

end Brackets

section Expressions

structure Reads (role : BracketRole) (s s' : LpState) (w : WrittenExpression) (e : Expression) :
    Prop where
  grows : Grows s s'
  known : Known s'.varNames w
  linear : e.linear = termsOf s'.varNames w.linear
  constant : e.constant = constantOf w.linear
  quad : e.quad = w.quad.map (List.map (quadEntry s'.varNames (roleFactor role)))

variable {ws : List Written}

lemma Sums.reads {r : List LinearTerm × ℚ} (h : Sums s s' ws r.1 r.2) :
    Reads role s s' ⟨ws, none⟩ ⟨r.1, r.2, none⟩ where
  grows := h.grows
  known := ⟨h.known, nofun⟩
  linear := h.terms_eq
  constant := h.constant_eq
  quad := rfl

lemma Sums.reads_bracket {ws' : List Written} {qs : List WrittenQuad}
    {r r' : List LinearTerm × ℚ} {entries : List QuadEntry} {s₁ s₂ : LpState}
    (h : Sums s s₁ ws r.1 r.2) (hgrows : Grows s₁ s₂)
    (hknown : ∀ q ∈ qs, q.first ∈ s₂.varNames ∧ q.second ∈ s₂.varNames)
    (hentries : entries = qs.map (quadEntry s₂.varNames (roleFactor role)))
    (h' : Sums s₂ s' ws' r'.1 r'.2) :
    Reads role s s' ⟨ws ++ ws', some qs⟩ ⟨r.1 ++ r'.1, r.2 + r'.2, some entries⟩ where
  grows := (h.append hgrows h').grows
  known := ⟨(h.append hgrows h').known, fun q hq =>
    ⟨h'.grows.mem (hknown q hq).1, h'.grows.mem (hknown q hq).2⟩⟩
  linear := (h.append hgrows h').terms_eq
  constant := (h.append hgrows h').constant_eq
  quad := by
    rw [hentries]
    refine congrArg some (map_congr_left fun q hq => ?_)
    exact (quadEntry_grow h'.grows.names _ (hknown q hq)).symm

/-- Before the bracket of an expression that starts clean stands a sign or nothing. -/
lemma Clean.bracket_sign (hclean : Clean role toks) {mid : List LpToken}
    (hsum : SumOf (TermAt stod) Written.scale toks ws mid)
    (hopen : kindOf (afterSign mid) = .lBracket) : (signOf (peek mid)).isSome = true ∨ ws = [] := by
  by_cases hsign : (signOf (peek mid)).isSome = true
  · exact .inl hsign
  · right
    have hafter : afterSign mid = mid := if_neg hsign
    rw [hafter] at hopen
    rcases hsum.bracketOf_eq none with ⟨hws, -⟩ | ⟨tok, htok, hfind⟩
    · exact hws
    · have hsome := hclean.signed _ _ (hfind.trans (bracketOf_open hopen)) tok rfl
      rw [htok] at hsome
      exact nomatch hsome

/-- Behind a bracket followed by a sign with a term, or by neither, only terms with signs are read. -/
lemma ContinuesClean.signed_of_sum (hclean : ContinuesClean toks)
    (hsum : SumOf (TermAt stod) Written.scale toks ws rest) :
    SignedItems (TermAt stod) Written.scale toks ws rest := by
  cases hsum with
  | signed h => exact h
  | unsigned hsign hitem hrest =>
    unfold ContinuesClean at hclean
    rw [hsign, Option.isSome_none, if_neg Bool.false_ne_true, hitem.startsTerm] at hclean
    exact nomatch hclean

lemma bracketStart_eq (mid : List LpToken) :
    (if ((signOf (peek mid)).isSome && kindOf mid.tail == .lBracket) = true then mid.tail else mid) =
      if kindOf (afterSign mid) = .lBracket then afterSign mid else mid := by
  unfold afterSign
  by_cases hsign : (signOf (peek mid)).isSome = true
  · rw [hsign, Bool.true_and, if_pos rfl]
    by_cases hopen : kindOf mid.tail = .lBracket
    · rw [if_pos hopen, if_pos (beq_iff_eq.mpr hopen)]
    · rw [if_neg hopen, if_neg (fun h => hopen (beq_iff_eq.mp h))]
  · rw [Bool.not_eq_true] at hsign
    rw [hsign, Bool.false_and, if_neg Bool.false_ne_true]
    exact (ite_self mid).symm

lemma bracketSign_eq {mid : List LpToken} (hopen : kindOf (afterSign mid) = .lBracket) :
    (if ((signOf (peek mid)).isSome && kindOf mid.tail == .lBracket) = true then
      (signOf (peek mid)).getD 1 else 1) = signValue mid := by
  unfold signValue
  by_cases hsign : (signOf (peek mid)).isSome = true
  · rw [afterSign, if_pos hsign] at hopen
    rw [hsign, hopen]
    rfl
  · rw [Option.not_isSome_iff_eq_none] at hsign
    rw [hsign]
    rfl

lemma parseExpression_ok {r : Expression × List LpToken × LpState}
    (h : parseExpression stod role toks s = .ok r) (hends : Ends role r.2.1)
    (hclean : Clean role toks) :
    ∃ w, ExpressionAt stod role toks w r.2.1 ∧ Reads role s r.2.2 w r.1 := by
  obtain ⟨lead, hlead, h⟩ := bind_eq_ok h
  dsimp only at h
  rw [bracketStart_eq] at h
  obtain ⟨-, -, -, -, hname⟩ := hends.kinds
  have hfirst : (kindOf lead.2.1 = .name → atSectionBoundary lead.2.1 = true) →
      ∃ ws, SumOf (TermAt stod) Written.scale toks ws lead.2.1 ∧
        Sums s lead.2.2 ws lead.1.1 lead.1.2 := by
    intro hend
    rcases parseLinearExpression_ok hlead hend with hsum | ⟨hsign, hbracket, hterm⟩
    · exact hsum
    · exfalso
      rcases hclean.lead hsign with hopen | hstarts
      · rw [bracketAhead, hsign, beq_iff_eq.mpr hopen, Bool.and_true, Bool.or_true] at hbracket
        cases hbracket
      · rw [hterm] at hstarts
        cases hstarts
  by_cases hopen : kindOf (afterSign lead.2.1) = .lBracket
  · rw [if_pos hopen, if_pos hopen] at h
    obtain ⟨quad, hquad, h⟩ := bind_eq_ok h
    obtain ⟨more, hmore, h⟩ := bind_eq_ok h
    cases h
    obtain ⟨ws, hsum, hsums⟩ := hfirst fun hname' => by
      rw [afterSign, signOf_of_name hname', Option.isSome_none, if_neg Bool.false_ne_true,
        hname'] at hopen
      cases hopen
    obtain ⟨qs, hbracket, hgrows, hknown, hentries⟩ := parseQuadraticBracket_ok hquad
    have hsign := hclean.bracket_sign hsum hopen
    obtain ⟨last, hfind, -⟩ := hsum.bracketOf_bracket hsign hopen
    have hbehind := hclean.behind last _ hfind
    rw [← hbracket.rest_eq] at hbehind
    rcases parseLinearExpression_ok hmore hname with ⟨ws', hsum', hsums'⟩ | ⟨hsome, -, hterm⟩
    · refine ⟨_, .bracket hsum hsign hbracket (hbehind.signed_of_sum hsum'), ?_⟩
      rw [bracketSign_eq hopen] at hentries
      refine hsums.reads_bracket hgrows ?_ hentries hsums'
      intro q hq
      obtain ⟨q', hq', rfl⟩ := mem_map.mp hq
      exact hknown q' hq'
    · unfold ContinuesClean at hbehind
      rw [if_pos hsome, hterm] at hbehind
      cases hbehind
  · rw [if_neg hopen] at h
    by_cases hopen' : kindOf lead.2.1 = .lBracket
    · have hafter : afterSign lead.2.1 = lead.2.1 :=
        if_neg fun hsign => kind_ne_of_sign hsign (by decide) (by decide) hopen'
      rw [hafter] at hopen
      exact absurd hopen' hopen
    · rw [if_neg hopen'] at h
      cases h
      obtain ⟨ws, hsum, hsums⟩ := hfirst hname
      exact ⟨_, .linear hsum, hsums.reads⟩

end Expressions

end CuOpt.Io.LpParser
