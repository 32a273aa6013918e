import CuOpt.Io.LpParser

/-! The loops over the sections of an LP file: every pass uses up tokens, so they come to an end. -/

namespace CuOpt.Io.LpParser

open Activities Extended

variable {stod : String → Option ℚ} {first : Bool} {toks : List LpToken} {s : LpState}

section Progress

lemma linearLoop_length_le (terms : List LinearTerm) (constant : ℚ)
    {r : (List LinearTerm × ℚ) × List LpToken × LpState}
    (h : linearLoop stod first toks s terms constant = .ok r) : r.2.1.length ≤ toks.length := by
  induction first, toks, s, terms, constant using linearLoop.induct stod with
  | case1 first toks s terms constant e hpass =>
    rw [linearLoop_eq, hpass] at h
    exact nomatch h
  | case2 first toks s terms constant rest hpass =>
    rw [linearLoop_eq, hpass] at h
    cases h
    cases linearPass_ok hpass with
    | bracket => exact le_rfl
    | signed sign _ _ hsign hread =>
      cases hread with
      | nothing => exact tail_le toks
    | unsigned _ _ _ hread =>
      cases hread with
      | nothing => exact le_rfl
    | ends => exact le_rfl
  | case3 first toks s terms constant t rest s' hpass ih
  | case4 first toks s terms constant v rest hpass ih =>
    rw [linearLoop_eq, hpass] at h
    exact (ih h).trans (linearPass_rest_lt hpass rfl).le

lemma quadLoop_length_le (entries : List QuadEntry) {r : List QuadEntry × List LpToken × LpState}
    (h : quadLoop stod first toks s entries = .ok r) : r.2.1.length ≤ toks.length := by
  induction first, toks, s, entries using quadLoop.induct stod with
  | case1 first toks s entries hclose =>
    rw [quadLoop_eq, if_pos hclose] at h
    cases h
    exact le_rfl
  | case2 first toks s entries hclose e hpass =>
    rw [quadLoop_eq, if_neg hclose, hpass] at h
    exact nomatch h
  | case3 first toks s entries hclose r hpass ih =>
    rw [quadLoop_eq, if_neg hclose, hpass] at h
    exact (ih h).trans (quadPass_length_lt hpass).le

lemma parseQuadraticBracket_length_le {outerSign : ℚ} {role : BracketRole}
    {r : List QuadEntry × List LpToken × LpState}
    (h : parseQuadraticBracket stod outerSign role toks s = .ok r) : r.2.1.length ≤ toks.length := by
  obtain ⟨inside, hopen, h⟩ := bind_eq_ok h
  obtain ⟨raw, hraw, h⟩ := bind_eq_ok h
  obtain ⟨behind, hclose, h⟩ := bind_eq_ok h
  obtain ⟨-, rfl⟩ := of_expect hopen
  obtain ⟨-, rfl⟩ := of_expect hclose
  have hlen := ((tail_le raw.2.1).trans (quadLoop_length_le [] hraw)).trans (tail_le toks)
  cases role with
  | objective =>
    obtain ⟨u, -, h⟩ := bind_eq_ok h
    cases h
    exact ((tail_le _).trans (tail_le _)).trans hlen
  | constraint =>
    obtain ⟨u, -, h⟩ := bind_eq_ok h
    obtain ⟨u', -, h⟩ := bind_eq_ok h
    cases h
    exact hlen

lemma parseExpression_length_le {role : BracketRole} {r : Expression × List LpToken × LpState}
    (h : parseExpression stod role toks s = .ok r) : r.2.1.length ≤ toks.length := by
  obtain ⟨lead, hlead, h⟩ := bind_eq_ok h
  have hlen := linearLoop_length_le [] 0 hlead
  dsimp only at h
  generalize hsigned : ((signOf (peek lead.2.1)).isSome && kindOf lead.2.1.tail == .lBracket) = signed
    at h
  have hstart : (if signed then lead.2.1.tail else lead.2.1).length ≤ toks.length := by
    cases signed with
    | true => exact (tail_le _).trans hlen
    | false => exact hlen
  generalize (if signed then lead.2.1.tail else lead.2.1) = start at h hstart
  by_cases hbracket : kindOf start = .lBracket
  · rw [if_pos hbracket] at h
    obtain ⟨quad, hquad, h⟩ := bind_eq_ok h
    obtain ⟨more, hmore, h⟩ := bind_eq_ok h
    cases h
    exact ((linearLoop_length_le [] 0 hmore).trans (parseQuadraticBracket_length_le hquad)).trans hstart
  · rw [if_neg hbracket] at h
    cases h
    exact hstart

lemma parseSignedNumber_length_lt {r : Extended ℚ × List LpToken}
    (h : parseSignedNumber stod toks = .ok r) : r.2.length < toks.length := by
  unfold parseSignedNumber at h
  dsimp only at h
  have hstart : (if (signOf (peek toks)).isSome then toks.tail else toks).length ≤ toks.length := by
    split_ifs
    · exact tail_le toks
    · exact le_rfl
  generalize (if (signOf (peek toks)).isSome then toks.tail else toks) = start at h hstart
  by_cases hinf : isInfinityKeyword (peek start) = true
  · rw [if_pos hinf] at h
    cases h
    have hname : kindOf start = .name := by
      unfold isInfinityKeyword at hinf
      exact beq_iff_eq.mp (Bool.and_eq_true_iff.mp hinf).1
    exact (tail_lt (by rw [hname]; decide)).trans_le hstart
  · rw [if_neg hinf] at h
    obtain ⟨u, hnumber, h⟩ := bind_eq_ok h
    obtain ⟨v, -, h⟩ := bind_eq_ok h
    cases h
    have hnumber : kindOf start = .number := beq_iff_eq.mp (of_expects hnumber)
    exact (tail_lt (by rw [hnumber]; decide)).trans_le hstart

variable {r : List LpToken × LpState}

lemma parseConstraint_length_lt (h : parseConstraint stod toks s = .ok r) :
    r.1.length < toks.length := by
  obtain ⟨e, he, h⟩ := bind_eq_ok h
  have hlen : e.2.1.length ≤ toks.length := by
    refine (parseExpression_length_le he).trans ?_
    split_ifs
    · exact (tail_le _).trans (tail_le toks)
    · exact le_rfl
  cases hrelation : relationOf (kindOf e.2.1) with
  | none =>
    rw [hrelation] at h
    exact nomatch h
  | some rowType =>
    rw [hrelation] at h
    obtain ⟨u, -, h⟩ := bind_eq_ok h
    obtain ⟨rhs, hrhs, h⟩ := bind_eq_ok h
    obtain ⟨u', -, h⟩ := bind_eq_ok h
    have hrest : r.1 = rhs.2 := by
      cases hquad : e.1.quad with
      | none =>
        rw [hquad] at h
        cases h
        rfl
      | some quad =>
        rw [hquad] at h
        cases h
        rfl
    rw [hrest]
    exact ((parseSignedNumber_length_lt hrhs).trans_le (tail_le _)).trans_le hlen

lemma parseBound_length_lt (h : parseBound stod toks s = .ok r) : r.1.length < toks.length := by
  unfold parseBound at h
  by_cases hname : kindOf toks = .name ∧ isInfinityKeyword (peek toks) = false
  · have htail : toks.tail.length < toks.length := tail_lt (by rw [hname.1]; decide)
    have hnumber : ∀ {b : Extended ℚ × List LpToken}, parseSignedNumber stod toks.tail.tail = .ok b →
        b.2.length < toks.length := fun hb =>
      ((parseSignedNumber_length_lt hb).trans_le (tail_le _)).trans htail
    rw [if_pos hname] at h
    dsimp only at h
    split_ifs at h
    · cases h
      exact (tail_le _).trans_lt htail
    · obtain ⟨b, hb, h⟩ := bind_eq_ok h
      cases h
      exact hnumber hb
    · obtain ⟨b, hb, h⟩ := bind_eq_ok h
      cases h
      exact hnumber hb
    · obtain ⟨b, hb, h⟩ := bind_eq_ok h
      cases h
      exact hnumber hb
    · exact nomatch h
  · rw [if_neg hname] at h
    obtain ⟨lower, hlower, h⟩ := bind_eq_ok h
    obtain ⟨start, hstart, h⟩ := bind_eq_ok h
    obtain ⟨-, rfl⟩ := of_expect hstart
    obtain ⟨u, -, h⟩ := bind_eq_ok h
    have hlen := (tail_le lower.2).trans_lt (parseSignedNumber_length_lt hlower)
    dsimp only at h
    split_ifs at h
    · obtain ⟨b, hb, h⟩ := bind_eq_ok h
      cases h
      exact ((parseSignedNumber_length_lt hb).trans_le ((tail_le _).trans (tail_le _))).trans hlen
    · cases h
      exact (tail_le _).trans_lt hlen

lemma parseIntegerVariable_length_lt {isBinary : Bool}
    (h : parseIntegerVariable isBinary toks s = .ok r) : r.1.length < toks.length := by
  obtain ⟨u, hname, h⟩ := bind_eq_ok h
  obtain ⟨u', -, h⟩ := bind_eq_ok h
  cases h
  have hname : kindOf toks = .name := beq_iff_eq.mp (of_expects hname)
  exact tail_lt (by rw [hname]; decide)

lemma parseSemiContinuousVariable_length_lt (h : parseSemiContinuousVariable toks s = .ok r) :
    r.1.length < toks.length := by
  obtain ⟨u, hname, h⟩ := bind_eq_ok h
  obtain ⟨u', -, h⟩ := bind_eq_ok h
  cases h
  have hname : kindOf toks = .name := beq_iff_eq.mp (of_expects hname)
  exact tail_lt (by rw [hname]; decide)

end Progress

structure SectionPass where
  run : List LpToken → LpState → Except LpError (List LpToken × LpState)
  advances : ∀ {toks s r}, run toks s = .ok r → r.1.length < toks.length

def SectionPass.loop (pass : SectionPass) (toks : List LpToken) (s : LpState) :
    Except LpError (List LpToken × LpState) :=
  if atSectionBoundary toks then .ok (toks, s)
  else
    match _hpass : pass.run toks s with
    | .error e => .error e
    | .ok r => pass.loop r.1 r.2
  termination_by toks.length
  decreasing_by exact pass.advances _hpass

lemma SectionPass.loop_eq (pass : SectionPass) (toks : List LpToken) (s : LpState) :
    pass.loop toks s = if atSectionBoundary toks then .ok (toks, s)
      else
        match pass.run toks s with
        | .error e => .error e
        | .ok r => pass.loop r.1 r.2 := by
  rw [SectionPass.loop]
  congr 1
  split
  next e h => rw [h]
  next r h => rw [h]

inductive SectionPass.Run (pass : SectionPass) :
    List LpToken → LpState → List (List LpToken) → List LpToken → LpState → Prop
  | stop (toks : List LpToken) (s : LpState) (hend : atSectionBoundary toks = true) :
    pass.Run toks s [] toks s
  | pass {toks mid rest : List LpToken} {s s' s'' : LpState} {starts : List (List LpToken)}
      (hend : atSectionBoundary toks = false) (hpass : pass.run toks s = .ok (mid, s'))
      (hrun : pass.Run mid s' starts rest s'') : pass.Run toks s (toks :: starts) rest s''

lemma SectionPass.loop_ok (pass : SectionPass) {r : List LpToken × LpState}
    (h : pass.loop toks s = .ok r) : ∃ starts, pass.Run toks s starts r.1 r.2 := by
  induction toks, s using SectionPass.loop.induct pass with
  | case1 toks s hend =>
    rw [loop_eq, if_pos hend] at h
    cases h
    exact ⟨[], .stop toks s hend⟩
  | case2 toks s hend e hpass =>
    rw [loop_eq, if_neg hend, hpass] at h
    exact nomatch h
  | case3 toks s hend r' hpass ih =>
    rw [loop_eq, if_neg hend, hpass] at h
    obtain ⟨starts, hrun⟩ := ih h
    exact ⟨toks :: starts, .pass (Bool.eq_false_iff.mpr hend) hpass hrun⟩

lemma SectionPass.Run.length_le {pass : SectionPass} {starts : List (List LpToken)}
    {rest : List LpToken} {s' : LpState} (h : pass.Run toks s starts rest s') :
    rest.length ≤ toks.length := by
  induction h with
  | stop => exact le_rfl
  | pass _ hpass _ ih => exact ih.trans (pass.advances hpass).le

section Engine

variable (stod)

def constraintPass : SectionPass := ⟨parseConstraint stod, parseConstraint_length_lt⟩

def boundPass : SectionPass := ⟨parseBound stod, parseBound_length_lt⟩

def integerPass (isBinary : Bool) : SectionPass :=
  ⟨parseIntegerVariable isBinary, parseIntegerVariable_length_lt⟩

def semiContinuousPass : SectionPass :=
  ⟨parseSemiContinuousVariable, parseSemiContinuousVariable_length_lt⟩

def parseConstraintsSection (toks : List LpToken) (s : LpState) :
    Except LpError (List LpToken × LpState) :=
  (constraintPass stod).loop toks s

def parseBoundsSection (toks : List LpToken) (s : LpState) :
    Except LpError (List LpToken × LpState) := do
  let r ← (boundPass stod).loop toks s
  checkNegativeUpper r.2
  .ok r

def parseIntegerListSection (isBinary : Bool) (toks : List LpToken) (s : LpState) :
    Except LpError (List LpToken × LpState) :=
  (integerPass isBinary).loop toks s

def parseSemiContinuousSection (toks : List LpToken) (s : LpState) :
    Except LpError (List LpToken × LpState) :=
  semiContinuousPass.loop toks s

inductive SectionKind
  | objective | constraints | bounds | generals | binaries | semiContinuous | finish

def unsupportedName (toks : List LpToken) : String :=
  let lower := lowercase (peek toks).text
  if lower == "user" && nameEqualsCi (peek toks.tail) "cuts" then "User Cuts"
  else if lower == "lazy" && nameEqualsCi (peek toks.tail) "constraints" then "Lazy Constraints"
  else if lower == "general" && nameEqualsCi (peek toks.tail) "constraints" then "General Constraints"
  else (peek toks).text

def rejectUnsupportedSection {α : Type} (toks : List LpToken) : Except LpError α :=
  .error ⟨"LP section '%s' is not supported (scope is LP/MIP/QP only)", none, [unsupportedName toks]⟩

/-- The section that a header opens and how many words the header has behind its first one; `none` for
sections that are refused. -/
def sectionHeader (toks : List LpToken) : Option (SectionKind × ℕ) :=
  let lower := lowercase (peek toks).text
  let next := peek toks.tail
  if isObjectiveMinKeyword lower || isObjectiveMaxKeyword lower then some (.objective, 0)
  else if lower == "subject" && nameEqualsCi next "to" then some (.constraints, 1)
  else if lower == "such" && nameEqualsCi next "that" then some (.constraints, 1)
  else if lower == "st" || lower == "st." || lower == "s.t." then some (.constraints, 0)
  else if isBoundsKeyword lower then some (.bounds, 0)
  else if isGeneralsKeyword lower then
    if lower == "general" && nameEqualsCi next "constraints" then none else some (.generals, 0)
  else if isBinariesKeyword lower then some (.binaries, 0)
  else if lower == "semi" && next.kind == .minus &&
    nameEqualsCi (peek toks.tail.tail) "continuous" then some (.semiContinuous, 2)
  else if lower == "semi" || lower == "semis" then some (.semiContinuous, 0)
  else if isEndKeyword lower then some (.finish, 0)
  else none

/-- The section, the tokens behind its header and the state: the objective's header says whether to
maximize. -/
def tryConsumeSectionHeader (toks : List LpToken) (s : LpState) :
    Except LpError (SectionKind × List LpToken × LpState) := do
  expectsAt ((peek toks).isLineStart && kindOf toks == .name)
    "LP parse error at line %d: expected section header, got '%s'" toks
  match sectionHeader toks with
  | some (.objective, words) => .ok (.objective, toks.tail.drop words,
      { s with maximize := !isObjectiveMinKeyword (lowercase (peek toks).text) })
  | some (kind, words) => .ok (kind, toks.tail.drop words, s)
  | none => rejectUnsupportedSection toks

structure EngineState where
  sawObjective : Bool
  toks : List LpToken
  state : LpState

/-- One section; `none` behind the header `End`. -/
def engineStep (e : EngineState) : Except LpError (Option EngineState) := do
  let header ← tryConsumeSectionHeader e.toks e.state
  match header.1 with
  | .objective => do
    expects (!e.sawObjective) ⟨"LP parse error: multiple objective sections", none, []⟩
    let r ← parseObjectiveSection stod header.2.1 header.2.2
    .ok (some ⟨true, r.1, r.2⟩)
  | .constraints => do
    let r ← parseConstraintsSection stod header.2.1 header.2.2
    .ok (some ⟨e.sawObjective, r.1, r.2⟩)
  | .bounds => do
    let r ← parseBoundsSection stod header.2.1 header.2.2
    .ok (some ⟨e.sawObjective, r.1, r.2⟩)
  | .generals => do
    let r ← parseIntegerListSection false header.2.1 header.2.2
    .ok (some ⟨e.sawObjective, r.1, r.2⟩)
  | .binaries => do
    let r ← parseIntegerListSection true header.2.1 header.2.2
    .ok (some ⟨e.sawObjective, r.1, r.2⟩)
  | .semiContinuous => do
    let r ← parseSemiContinuousSection header.2.1 header.2.2
    .ok (some ⟨e.sawObjective, r.1, r.2⟩)
  | .finish => .ok none

end Engine

section EngineProgress

lemma parseObjectiveSection_length_le {r : List LpToken × LpState}
    (h : parseObjectiveSection stod toks s = .ok r) : r.1.length ≤ toks.length := by
  obtain ⟨e, he, h⟩ := bind_eq_ok h
  cases h
  refine (parseExpression_length_le he).trans ?_
  split_ifs
  · exact (tail_le _).trans (tail_le toks)
  · exact le_rfl

lemma parseBoundsSection_ok {r : List LpToken × LpState}
    (h : parseBoundsSection stod toks s = .ok r) :
    ∃ starts, (boundPass stod).Run toks s starts r.1 r.2 := by
  obtain ⟨r', hr', h⟩ := bind_eq_ok h
  obtain ⟨u, -, h⟩ := bind_eq_ok h
  cases h
  exact (boundPass stod).loop_ok hr'

/-- A header leaves the state as it is but for the direction of the objective. -/
lemma tryConsumeSectionHeader_ok {r : SectionKind × List LpToken × LpState}
    (h : tryConsumeSectionHeader toks s = .ok r) :
    r.2.1.length < toks.length ∧ ∃ maximize, r.2.2 = { s with maximize := maximize } := by
  obtain ⟨u, hname, h⟩ := bind_eq_ok h
  have hname : kindOf toks = .name :=
    beq_iff_eq.mp (Bool.and_eq_true_iff.mp (of_expects hname)).2
  have htail : toks.tail.length < toks.length := tail_lt (by rw [hname]; decide)
  have hdrop : ∀ words, (toks.tail.drop words).length < toks.length := fun words =>
    (List.length_drop ▸ Nat.sub_le _ _ : (toks.tail.drop words).length ≤ toks.tail.length).trans_lt
      htail
  cases hheader : sectionHeader toks with
  | none =>
    rw [hheader] at h
    exact nomatch h
  | some header =>
    rw [hheader] at h
    obtain ⟨kind, words⟩ := header
    cases kind with
    | objective =>
      cases h
      exact ⟨hdrop words, _, rfl⟩
    | _ =>
      cases h
      exact ⟨hdrop words, s.maximize, rfl⟩

lemma tryConsumeSectionHeader_lt {r : SectionKind × List LpToken × LpState}
    (h : tryConsumeSectionHeader toks s = .ok r) : r.2.1.length < toks.length :=
  (tryConsumeSectionHeader_ok h).1

/-- A section that the engine has read: its header, the tokens at which objectives and constraints start
in it, and what its parser left. -/
inductive EngineSteps (stod : String → Option ℚ) (e : EngineState) :
    List (List LpToken) → List (List LpToken) → EngineState → Prop
  | objective (start rest : List LpToken) (s s' : LpState)
      (hheader : tryConsumeSectionHeader e.toks e.state = .ok (.objective, start, s))
      (hsaw : e.sawObjective = false) (hparse : parseObjectiveSection stod start s = .ok (rest, s')) :
    EngineSteps stod e [start] [] ⟨true, rest, s'⟩
  | constraints (start rest : List LpToken) (s s' : LpState) (starts : List (List LpToken))
      (hheader : tryConsumeSectionHeader e.toks e.state = .ok (.constraints, start, s))
      (hrun : (constraintPass stod).Run start s starts rest s') :
    EngineSteps stod e [] starts ⟨e.sawObjective, rest, s'⟩
  | bounds (start rest : List LpToken) (s s' : LpState) (starts : List (List LpToken))
      (hheader : tryConsumeSectionHeader e.toks e.state = .ok (.bounds, start, s))
      (hrun : (boundPass stod).Run start s starts rest s') :
    EngineSteps stod e [] [] ⟨e.sawObjective, rest, s'⟩
  | integers (isBinary : Bool) (start rest : List LpToken) (s s' : LpState)
      (starts : List (List LpToken))
      (hheader : tryConsumeSectionHeader e.toks e.state =
        .ok (if isBinary then .binaries else .generals, start, s))
      (hrun : (integerPass isBinary).Run start s starts rest s') :
    EngineSteps stod e [] [] ⟨e.sawObjective, rest, s'⟩
  | semiContinuous (start rest : List LpToken) (s s' : LpState) (starts : List (List LpToken))
      (hheader : tryConsumeSectionHeader e.toks e.state = .ok (.semiContinuous, start, s))
      (hrun : semiContinuousPass.Run start s starts rest s') :
    EngineSteps stod e [] [] ⟨e.sawObjective, rest, s'⟩

lemma engineStep_ok {e e' : EngineState} (h : engineStep stod e = .ok (some e')) :
    ∃ objectives constraints, EngineSteps stod e objectives constraints e' := by
  obtain ⟨⟨kind, start, s⟩, hheader, h⟩ := bind_eq_ok h
  cases kind with
  | objective =>
    obtain ⟨u, hsaw, h⟩ := bind_eq_ok h
    obtain ⟨r, hparse, h⟩ := bind_eq_ok h
    cases h
    have hsaw : e.sawObjective = false := Bool.not_eq_true' _ ▸ of_expects hsaw
    exact ⟨_, _, .objective start r.1 s r.2 hheader hsaw hparse⟩
  | constraints =>
    obtain ⟨r, hparse, h⟩ := bind_eq_ok h
    cases h
    obtain ⟨starts, hrun⟩ := (constraintPass stod).loop_ok hparse
    exact ⟨_, _, .constraints start r.1 s r.2 starts hheader hrun⟩
  | bounds =>
    obtain ⟨r, hparse, h⟩ := bind_eq_ok h
    cases h
    obtain ⟨starts, hrun⟩ := parseBoundsSection_ok hparse
    exact ⟨_, _, .bounds start r.1 s r.2 starts hheader hrun⟩
  | generals =>
    obtain ⟨r, hparse, h⟩ := bind_eq_ok h
    cases h
    obtain ⟨starts, hrun⟩ := (integerPass false).loop_ok hparse
    exact ⟨_, _, .integers false start r.1 s r.2 starts hheader hrun⟩
  | binaries =>
    obtain ⟨r, hparse, h⟩ := bind_eq_ok h
    cases h
    obtain ⟨starts, hrun⟩ := (integerPass true).loop_ok hparse
    exact ⟨_, _, .integers true start r.1 s r.2 starts hheader hrun⟩
  | semiContinuous =>
    obtain ⟨r, hparse, h⟩ := bind_eq_ok h
    cases h
    obtain ⟨starts, hrun⟩ := semiContinuousPass.loop_ok hparse
    exact ⟨_, _, .semiContinuous start r.1 s r.2 starts hheader hrun⟩
  | finish => exact nomatch Except.ok.inj h

lemma engineStep_length_lt {e e' : EngineState} (h : engineStep stod e = .ok (some e')) :
    e'.toks.length < e.toks.length := by
  obtain ⟨objectives, constraints, hstep⟩ := engineStep_ok h
  cases hstep with
  | objective start rest s s' hheader _ hparse =>
    exact (parseObjectiveSection_length_le hparse).trans_lt (tryConsumeSectionHeader_lt hheader)
  | constraints start rest s s' starts hheader hrun | bounds start rest s s' starts hheader hrun
  | integers isBinary start rest s s' starts hheader hrun
  | semiContinuous start rest s s' starts hheader hrun =>
    exact hrun.length_le.trans_lt (tryConsumeSectionHeader_lt hheader)

end EngineProgress

section ParseAll

variable (stod)

def engineLoop (e : EngineState) : Except LpError EngineState :=
  if atEof e.toks then .ok e
  else
    match _hstep : engineStep stod e with
    | .error err => .error err
    | .ok none => .ok e
    | .ok (some e') => engineLoop e'
  termination_by e.toks.length
  decreasing_by exact engineStep_length_lt _hstep

lemma engineLoop_eq (e : EngineState) : engineLoop stod e =
    if atEof e.toks then .ok e
    else
      match engineStep stod e with
      | .error err => .error err
      | .ok none => .ok e
      | .ok (some e') => engineLoop stod e' := by
  rw [engineLoop]
  congr 1
  split
  next err h => rw [h]
  next h => rw [h]
  next e' h => rw [h]

/-- The sections that the engine reads from a state on, with the tokens at which objectives and constraints
start. -/
inductive EngineRun : EngineState → List (List LpToken) → List (List LpToken) → EngineState → Prop
  | stop (e : EngineState) (hend : atEof e.toks = true ∨ engineStep stod e = .ok none) :
    EngineRun e [] [] e
  | step {e e' e'' : EngineState} {objectives objectives' constraints constraints' : List (List LpToken)}
      (hstep : EngineSteps stod e objectives constraints e')
      (hrun : EngineRun e' objectives' constraints' e'') :
    EngineRun e (objectives ++ objectives') (constraints ++ constraints') e''

def parseAll (tokens : List LpToken) : Except LpError LpState := do
  let e ← engineLoop stod ⟨false, tokens, initialState⟩
  expects e.sawObjective
    ⟨"LP parse error: no objective (Minimize/Maximize) section found", none, []⟩
  .ok e.state

end ParseAll

end CuOpt.Io.LpParser
