import CuOpt.Io.LpGrammar

/-! What is written as an expression starts clean. -/

namespace CuOpt.Io.LpParser

open Activities Extended SparseList

variable {stod : String → Option ℚ} {role : BracketRole} {toks mid rest : List LpToken}

section Kinds

lemma signOf_eq_none (hplus : kindOf toks ≠ .plus) (hminus : kindOf toks ≠ .minus) :
    signOf (peek toks) = none := by
  unfold signOf
  rw [if_neg (show (peek toks).kind ≠ .plus from hplus),
    if_neg (show (peek toks).kind ≠ .minus from hminus)]

lemma signOf_isSome (h : (signOf (peek toks)).isSome = true) :
    kindOf toks = .plus ∨ kindOf toks = .minus := by
  obtain ⟨sign, hsign⟩ := Option.isSome_iff_exists.mp h
  exact kindOf_of_signOf hsign

lemma kind_ne_of_sign {kind : LpTokenKind} (h : (signOf (peek toks)).isSome = true)
    (hplus : kind ≠ .plus) (hminus : kind ≠ .minus) : kindOf toks ≠ kind := by
  rcases signOf_isSome h with hkind | hkind
  · rw [hkind]
    exact hplus.symm
  · rw [hkind]
    exact hminus.symm

lemma startsTerm_of_number (h : kindOf toks = .number) : startsTerm toks = true := by
  rw [startsTerm, h]
  rfl

lemma startsTerm_of_variable (h : atVariable toks = true) : startsTerm toks = true := by
  rw [startsTerm, h, Bool.or_true]

lemma startsTerm_eq_false (hkind : kindOf toks ≠ .number) (hvar : atVariable toks = false) :
    startsTerm toks = false := by
  rw [startsTerm, hvar, Bool.or_false]
  exact beq_eq_false_iff_ne.mpr hkind

lemma boundary_of_atVariable (h : atVariable toks = true) : atSectionBoundary toks = false := by
  unfold atVariable at h
  rw [Bool.and_eq_true, Bool.and_eq_true, Bool.and_eq_true, Bool.not_eq_true'] at h
  exact h.1.1.2

lemma kindOf_of_boundary (h : atSectionBoundary toks = true) :
    kindOf toks = .eof ∨ kindOf toks = .name := by
  unfold atSectionBoundary at h
  by_cases heof : atEof toks = true
  · exact .inl (beq_iff_eq.mp heof)
  · right
    rw [if_neg heof] at h
    by_contra hname
    have hne : ((peek toks).kind != .name) = true := bne_iff_ne.mpr hname
    rw [hne, Bool.or_true, if_pos rfl] at h
    exact Bool.false_ne_true h

lemma kindOf_of_relation (h : (relationOf (kindOf toks)).isSome = true) :
    kindOf toks = .lessEq ∨ kindOf toks = .greaterEq ∨ kindOf toks = .equal := by
  cases hkind : kindOf toks with
  | lessEq => exact .inl rfl
  | greaterEq => exact .inr (.inl rfl)
  | equal => exact .inr (.inr rfl)
  | _ =>
    rw [hkind] at h
    exact nomatch h

lemma Ends.kinds (h : Ends role toks) : signOf (peek toks) = none ∧ startsTerm toks = false ∧
    kindOf toks ≠ .lBracket ∧ isLeadToken toks = false ∧
    (kindOf toks = .name → atSectionBoundary toks = true) := by
  cases role with
  | objective =>
    have hname : atVariable toks = false := by
      cases hvar : atVariable toks with
      | false => rfl
      | true =>
        have hboundary : atSectionBoundary toks = true := h
        rw [boundary_of_atVariable hvar] at hboundary
        exact nomatch hboundary
    have hkind := kindOf_of_boundary h
    have hne : ∀ kind : LpTokenKind, kind ≠ .eof → kind ≠ .name → kindOf toks ≠ kind := by
      intro kind heof hname heq
      rcases hkind with hkind | hkind
      · exact heof (heq.symm.trans hkind)
      · exact hname (heq.symm.trans hkind)
    have hsign := signOf_eq_none (hne .plus (by decide) (by decide)) (hne .minus (by decide) (by decide))
    refine ⟨hsign, startsTerm_eq_false (hne .number (by decide) (by decide)) hname,
      hne .lBracket (by decide) (by decide), ?_, fun _ => h⟩
    rw [isLeadToken, hsign, beq_eq_false_iff_ne.mpr (hne .number (by decide) (by decide)),
      beq_eq_false_iff_ne.mpr (hne .star (by decide) (by decide)), h, Bool.not_true, Bool.and_false]
    rfl
  | constraint =>
    have hkind := kindOf_of_relation h
    have hne : ∀ kind : LpTokenKind, kind ≠ .lessEq → kind ≠ .greaterEq → kind ≠ .equal →
        kindOf toks ≠ kind := by
      intro kind hless hgreater hequal heq
      rcases hkind with hkind | hkind | hkind
      · exact hless (heq.symm.trans hkind)
      · exact hgreater (heq.symm.trans hkind)
      · exact hequal (heq.symm.trans hkind)
    have hname : kindOf toks ≠ .name := hne .name (by decide) (by decide) (by decide)
    have hvar : atVariable toks = false := by
      cases hvar : atVariable toks with
      | false => rfl
      | true => exact absurd (kindOf_of_atVariable hvar) hname
    have hnumber : kindOf toks ≠ .number := hne .number (by decide) (by decide) (by decide)
    have hsign := signOf_eq_none (hne .plus (by decide) (by decide) (by decide))
      (hne .minus (by decide) (by decide) (by decide))
    refine ⟨hsign, startsTerm_eq_false hnumber hvar,
      hne .lBracket (by decide) (by decide) (by decide), ?_, fun heq => absurd heq hname⟩
    rw [isLeadToken, hsign, beq_eq_false_iff_ne.mpr hnumber,
      beq_eq_false_iff_ne.mpr (hne .star (by decide) (by decide) (by decide)),
      beq_eq_false_iff_ne.mpr hname]
    rfl

end Kinds

section Finding

variable {last : Option LpToken} {ws : List Written} {w : Written} {qs : List WrittenQuad}
  {q : WrittenQuad}

lemma bracketOf_tail (hlead : isLeadToken toks = true) (hkind : kindOf toks ≠ .eof)
    (hbracket : kindOf toks ≠ .lBracket) :
    bracketOf last toks = bracketOf (some (peek toks)) toks.tail := by
  cases toks with
  | nil => exact absurd rfl hkind
  | cons tok toks =>
    rw [bracketOf, if_neg (show tok.kind ≠ .lBracket from hbracket), if_pos hlead]
    rfl

lemma bracketOf_number (h : kindOf toks = .number) :
    bracketOf last toks = bracketOf (some (peek toks)) toks.tail := by
  apply bracketOf_tail
  · rw [isLeadToken, h, beq_self_eq_true, Bool.or_true, Bool.true_or, Bool.true_or]
  · rw [h]
    decide
  · rw [h]
    decide

lemma bracketOf_star (h : kindOf toks = .star) :
    bracketOf last toks = bracketOf (some (peek toks)) toks.tail := by
  apply bracketOf_tail
  · rw [isLeadToken, h, beq_self_eq_true, Bool.or_true, Bool.true_or]
  · rw [h]
    decide
  · rw [h]
    decide

lemma bracketOf_variable (h : atVariable toks = true) :
    bracketOf last toks = bracketOf (some (peek toks)) toks.tail := by
  have hname := kindOf_of_atVariable h
  apply bracketOf_tail
  · rw [isLeadToken, boundary_of_atVariable h, hname, beq_self_eq_true, Bool.not_false,
      Bool.and_true, Bool.or_true]
  · rw [hname]
    decide
  · rw [hname]
    decide

lemma bracketOf_sign (h : (signOf (peek toks)).isSome = true) :
    bracketOf last toks = bracketOf (some (peek toks)) toks.tail := by
  apply bracketOf_tail
  · rw [isLeadToken, h, Bool.true_or, Bool.true_or, Bool.true_or]
  · exact kind_ne_of_sign h (by decide) (by decide)
  · exact kind_ne_of_sign h (by decide) (by decide)

lemma bracketOf_open (h : kindOf toks = .lBracket) : bracketOf last toks = some (last, toks) := by
  cases toks with
  | nil => exact nomatch h
  | cons tok toks => rw [bracketOf, if_pos (show tok.kind = .lBracket from h)]

lemma bracketOf_ends (h : Ends role toks) : bracketOf last toks = none := by
  obtain ⟨-, -, hbracket, hlead, -⟩ := h.kinds
  cases toks with
  | nil => rfl
  | cons tok toks =>
    rw [bracketOf, if_neg (show tok.kind ≠ .lBracket from hbracket), hlead,
      if_neg Bool.false_ne_true]

lemma signOf_of_number (h : kindOf toks = .number) : signOf (peek toks) = none :=
  signOf_eq_none (by rw [h]; decide) (by rw [h]; decide)

lemma signOf_of_name (h : kindOf toks = .name) : signOf (peek toks) = none :=
  signOf_eq_none (by rw [h]; decide) (by rw [h]; decide)

/-- Behind a term the bracket is looked for with a token before it that is no sign. -/
lemma TermAt.bracketOf_eq (h : TermAt stod toks w rest) (last : Option LpToken) :
    ∃ tok, signOf tok = none ∧ bracketOf last toks = bracketOf (some tok) rest := by
  cases h with
  | constant hkind => exact ⟨_, signOf_of_number hkind, bracketOf_number hkind⟩
  | scaled hkind _ hvar =>
    exact ⟨_, signOf_of_name (kindOf_of_atVariable hvar),
      (bracketOf_number hkind).trans (bracketOf_variable hvar)⟩
  | starred hkind _ hstar hvar =>
    exact ⟨_, signOf_of_name (kindOf_of_atVariable hvar),
      ((bracketOf_number hkind).trans (bracketOf_star hstar)).trans (bracketOf_variable hvar)⟩
  | bare hvar => exact ⟨_, signOf_of_name (kindOf_of_atVariable hvar), bracketOf_variable hvar⟩

lemma SignedItems.bracketOf_eq (h : SignedItems (TermAt stod) Written.scale toks ws rest)
    (last : Option LpToken) :
    (ws = [] ∧ toks = rest) ∨
      ∃ tok, signOf tok = none ∧ bracketOf last toks = bracketOf (some tok) rest := by
  induction h generalizing last with
  | nil toks => exact .inl ⟨rfl, rfl⟩
  | cons hsign hitem hrest ih =>
    right
    have hsome := Option.isSome_of_eq_some hsign
    obtain ⟨tok, htok, hterm⟩ := hitem.bracketOf_eq (some _)
    have hfirst : bracketOf last _ = _ := (bracketOf_sign hsome).trans hterm
    rcases ih (some tok) with ⟨-, rfl⟩ | ⟨tok', htok', hlater⟩
    · exact ⟨tok, htok, hfirst⟩
    · exact ⟨tok', htok', hfirst.trans hlater⟩

lemma SumOf.bracketOf_eq (h : SumOf (TermAt stod) Written.scale toks ws rest)
    (last : Option LpToken) :
    (ws = [] ∧ toks = rest) ∨
      ∃ tok, signOf tok = none ∧ bracketOf last toks = bracketOf (some tok) rest := by
  cases h with
  | signed h => exact h.bracketOf_eq last
  | unsigned hsign hitem hrest =>
    right
    obtain ⟨tok, htok, hterm⟩ := hitem.bracketOf_eq last
    rcases hrest.bracketOf_eq (some tok) with ⟨-, rfl⟩ | ⟨tok', htok', hlater⟩
    · exact ⟨tok, htok, hterm⟩
    · exact ⟨tok', htok', hterm.trans hlater⟩

lemma TermAt.startsTerm (h : TermAt stod toks w rest) : startsTerm toks = true := by
  cases h with
  | constant hkind | scaled hkind | starred hkind => exact startsTerm_of_number hkind
  | bare hvar => exact startsTerm_of_variable hvar

lemma toClose_tail (h : kindOf toks ≠ .rBracket) : toClose toks = toClose toks.tail := by
  cases toks with
  | nil => rfl
  | cons tok toks => exact List.dropWhile_cons_of_pos (decide_eq_true h)

lemma toClose_self (h : kindOf toks = .rBracket) : toClose toks = toks := by
  cases toks with
  | nil => rfl
  | cons tok toks => exact List.dropWhile_cons_of_neg fun hne => of_decide_eq_true hne h

lemma ReadsCoefficient.toClose_eq {v : ℚ} (h : ReadsCoefficient stod toks v rest) :
    toClose toks = toClose rest := by
  cases h with
  | plain _ hkind => exact toClose_tail (by rw [hkind]; decide)
  | starred _ hkind _ hstar =>
    exact (toClose_tail (by rw [hkind]; decide)).trans (toClose_tail (by rw [hstar]; decide))
  | absent => rfl

lemma isTwo_kind (h : isTwo toks = true) : kindOf toks = .number :=
  beq_iff_eq.mp (Bool.and_eq_true_iff.mp h).1

lemma QuadTermAt.toClose_eq (h : QuadTermAt stod toks q rest) : toClose toks = toClose rest := by
  cases h with
  | square hcoeff hname hcaret htwo =>
    rw [hcoeff.toClose_eq, toClose_tail (by rw [hname]; decide), toClose_tail (by rw [hcaret]; decide),
      toClose_tail (by rw [isTwo_kind htwo]; decide)]
  | product hcoeff hname hstar hname' =>
    rw [hcoeff.toClose_eq, toClose_tail (by rw [hname]; decide), toClose_tail (by rw [hstar]; decide),
      toClose_tail (by rw [hname']; decide)]

lemma SignedItems.toClose_eq (h : SignedItems (QuadTermAt stod) WrittenQuad.scale toks qs rest) :
    toClose toks = toClose rest := by
  induction h with
  | nil toks => rfl
  | cons hsign hitem hrest ih =>
    have hsome := Option.isSome_of_eq_some hsign
    rw [toClose_tail (kind_ne_of_sign hsome (by decide) (by decide)), hitem.toClose_eq, ih]

lemma SumOf.toClose_eq (h : SumOf (QuadTermAt stod) WrittenQuad.scale toks qs rest) :
    toClose toks = toClose rest := by
  cases h with
  | signed h => exact h.toClose_eq
  | unsigned hsign hitem hrest => rw [hitem.toClose_eq, hrest.toClose_eq]

lemma BracketAt.rest_eq (h : BracketAt stod role toks qs rest) :
    rest = behindClose role (toClose toks).tail := by
  obtain ⟨mid, hinside, hclose, hrest, -⟩ := h.inside
  have hopen : toClose toks = toClose toks.tail := toClose_tail (by rw [h.opens]; decide)
  rw [hrest, hopen, hinside.toClose_eq, toClose_self hclose]

end Finding

section Written

variable {ws : List Written} {w : WrittenExpression}

lemma SumOf.eq_of_nil (h : SumOf (TermAt stod) Written.scale toks [] rest) : toks = rest := by
  cases h with
  | signed h =>
    cases h with
    | nil => rfl

/-- A sum that starts with a sign is empty or goes on with a term. -/
lemma SumOf.lead (h : SumOf (TermAt stod) Written.scale toks ws rest)
    (hsign : (signOf (peek toks)).isSome = true) : toks = rest ∨ startsTerm toks.tail = true := by
  cases h with
  | signed h =>
    cases h with
    | nil => exact .inl rfl
    | cons _ hitem _ => exact .inr hitem.startsTerm
  | unsigned hnone _ _ =>
    rw [hnone] at hsign
    exact nomatch hsign

lemma SignedItems.continuesClean (h : SignedItems (TermAt stod) Written.scale toks ws rest)
    (hends : Ends role rest) : ContinuesClean toks := by
  unfold ContinuesClean
  cases h with
  | nil =>
    obtain ⟨hsign, hterm, -⟩ := hends.kinds
    rw [hsign, Option.isSome_none, if_neg Bool.false_ne_true]
    exact hterm
  | cons hsign hitem _ =>
    rw [if_pos (Option.isSome_of_eq_some hsign)]
    exact hitem.startsTerm

lemma SumOf.bracketOf_ends (h : SumOf (TermAt stod) Written.scale toks ws rest)
    (hends : Ends role rest) : bracketOf none toks = none := by
  rcases h.bracketOf_eq none with ⟨-, rfl⟩ | ⟨tok, -, hfind⟩
  · exact LpParser.bracketOf_ends hends
  · exact hfind.trans (LpParser.bracketOf_ends hends)

/-- The bracket behind a sum, found from the start of the sum. -/
lemma SumOf.bracketOf_bracket (h : SumOf (TermAt stod) Written.scale toks ws mid)
    (hsign : (signOf (peek mid)).isSome = true ∨ ws = []) (hopen : kindOf (afterSign mid) = .lBracket) :
    ∃ last, bracketOf none toks = some (last, afterSign mid) ∧ ∀ tok ∈ last, (signOf tok).isSome = true := by
  by_cases hmid : (signOf (peek mid)).isSome = true
  · have hafter : afterSign mid = mid.tail := if_pos hmid
    rw [hafter] at hopen ⊢
    have hfind : ∀ last, bracketOf last mid = some (some (peek mid), mid.tail) := fun last =>
      (bracketOf_sign hmid).trans (bracketOf_open hopen)
    refine ⟨some (peek mid), ?_, ?_⟩
    · rcases h.bracketOf_eq none with ⟨-, rfl⟩ | ⟨tok, -, hlead⟩
      · exact hfind none
      · exact hlead.trans (hfind _)
    · rintro tok ⟨⟩
      exact hmid
  · obtain rfl := hsign.resolve_left hmid
    obtain rfl := h.eq_of_nil
    have hafter : afterSign toks = toks := if_neg hmid
    rw [hafter] at hopen ⊢
    exact ⟨none, bracketOf_open hopen, nofun⟩

lemma ExpressionAt.clean (h : ExpressionAt stod role toks w rest) (hends : Ends role rest) :
    Clean role toks := by
  cases h with
  | linear hsum =>
    have hnone := hsum.bracketOf_ends hends
    constructor
    · intro hsign
      rcases hsum.lead hsign with rfl | hterm
      · rw [hends.kinds.1] at hsign
        exact nomatch hsign
      · exact .inr hterm
    · intro last at_ hfind
      rw [hnone] at hfind
      exact nomatch hfind
    · intro last at_ hfind
      rw [hnone] at hfind
      exact nomatch hfind
  | bracket hlead hsign hbracket hmore =>
    obtain ⟨last, hfind, hlast⟩ := hlead.bracketOf_bracket hsign hbracket.opens
    constructor
    · intro hfirst
      rcases hlead.lead hfirst with rfl | hterm
      · have hopen := hbracket.opens
        rw [afterSign, if_pos hfirst] at hopen
        exact .inl hopen
      · exact .inr hterm
    · intro last' at_ hfind'
      obtain ⟨rfl, -⟩ := Prod.mk.inj (Option.some.inj (hfind.symm.trans hfind'))
      exact hlast
    · intro last' at_ hfind'
      obtain ⟨-, rfl⟩ := Prod.mk.inj (Option.some.inj (hfind.symm.trans hfind'))
      rw [← hbracket.rest_eq]
      exact hmore.continuesClean hends

end Written

end CuOpt.Io.LpParser
