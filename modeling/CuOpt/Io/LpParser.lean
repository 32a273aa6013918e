import CuOpt.Library.Activities
import CuOpt.Library.SortedMap

/-! The reader of LP files behind its tokenizer: sections are found by their headers at the start of a
line, and expressions by recursive descent with one or two tokens of lookahead. The stream ends where
the list of the remaining tokens does. -/

namespace CuOpt.Io.LpParser

open Activities Extended

inductive LpTokenKind
  | number | name | plus | minus | star | caret | slash
  | lessEq | greaterEq | equal | lBracket | rBracket | colon | eof
  deriving DecidableEq

structure LpToken where
  kind : LpTokenKind
  text : String
  line : ℕ
  isLineStart : Bool

def eofToken : LpToken := ⟨.eof, "", 0, true⟩

def peek (toks : List LpToken) : LpToken := toks.headD eofToken

def kindOf (toks : List LpToken) : LpTokenKind := (peek toks).kind

/-- The arguments of an error are the line of a token, where the text names one, and words. -/
structure LpError where
  format : String
  line : Option ℕ
  args : List String

def failAt {α : Type} (format : String) (toks : List LpToken) : Except LpError α :=
  .error ⟨format, some (peek toks).line, [(peek toks).text]⟩

def expects (condition : Bool) (error : LpError) : Except LpError Unit :=
  if condition then .ok () else .error error

def expectsAt (condition : Bool) (format : String) (toks : List LpToken) : Except LpError Unit :=
  expects condition ⟨format, some (peek toks).line, [(peek toks).text]⟩

def lowercase (s : String) : String := s.map Char.toLower

def isObjectiveMinKeyword (lower : String) : Bool :=
  lower == "minimize" || lower == "minimum" || lower == "min"

def isObjectiveMaxKeyword (lower : String) : Bool :=
  lower == "maximize" || lower == "maximum" || lower == "max"

def isBoundsKeyword (lower : String) : Bool := lower == "bounds" || lower == "bound"

def isGeneralsKeyword (lower : String) : Bool :=
  lower == "generals" || lower == "general" || lower == "gen" || lower == "integer" ||
    lower == "integers"

def isBinariesKeyword (lower : String) : Bool :=
  lower == "binaries" || lower == "binary" || lower == "bin"

def isEndKeyword (lower : String) : Bool := lower == "end"

def isFreeKeyword (lower : String) : Bool := lower == "free"

def isInfinityText (lower : String) : Bool := lower == "inf" || lower == "infinity"

def nameEqualsCi (tok : LpToken) (lower : String) : Bool :=
  tok.kind == .name && lowercase tok.text == lower

def isInfinityKeyword (tok : LpToken) : Bool :=
  tok.kind == .name && isInfinityText (lowercase tok.text)

def isConstraintsHeader (lower : String) (next : LpToken) : Bool :=
  (lower == "subject" && nameEqualsCi next "to") || (lower == "such" && nameEqualsCi next "that") ||
    lower == "st" || lower == "st." || lower == "s.t."

def isSectionWord (lower : String) (next : LpToken) : Bool :=
  isObjectiveMinKeyword lower || isObjectiveMaxKeyword lower || isBoundsKeyword lower ||
    isGeneralsKeyword lower || isBinariesKeyword lower || isEndKeyword lower ||
    isConstraintsHeader lower next || (lower == "lazy" && nameEqualsCi next "constraints") ||
    (lower == "user" && nameEqualsCi next "cuts") ||
    (lower == "general" && nameEqualsCi next "constraints") ||
    lower == "semi" || lower == "semis" || lower == "sos" || lower == "pwlobj" ||
    lower == "scenarios" || lower == "scenario"

def atEof (toks : List LpToken) : Bool := kindOf toks == .eof

def atSectionBoundary (toks : List LpToken) : Bool :=
  if atEof toks then true
  else if !(peek toks).isLineStart || (peek toks).kind != .name then false
  else isSectionWord (lowercase (peek toks).text) (peek toks.tail)

inductive RowType
  | lesserThanOrEqual
  | greaterThanOrEqual
  | equality
  deriving DecidableEq

abbrev LinearTerm := ℕ × ℚ

structure QuadEntry where
  row : ℕ
  col : ℕ
  val : ℚ

structure LpRow where
  name : String
  type : RowType
  entries : List (ℕ × ℚ)
  rhs : Extended ℚ

structure QuadraticConstraintBlock extends LpRow where
  quad : List QuadEntry

structure LpState where
  maximize : Bool
  objectiveName : String
  varNames : List String
  varTypes : List Char
  cValues : List ℚ
  lowerBounds : List (Extended ℚ)
  upperBounds : List (Extended ℚ)
  objectiveOffset : ℚ
  quadobjEntries : List QuadEntry
  rows : List LpRow
  quadraticConstraintBlocks : List QuadraticConstraintBlock
  rowNamesMap : List String
  boundsDefined : List ℕ
  lowerExplicitlySet : List ℕ
  anonRowCounter : ℕ

def initialState : LpState where
  maximize := false
  objectiveName := ""
  varNames := []
  varTypes := []
  cValues := []
  lowerBounds := []
  upperBounds := []
  objectiveOffset := 0
  quadobjEntries := []
  rows := []
  quadraticConstraintBlocks := []
  rowNamesMap := []
  boundsDefined := []
  lowerExplicitlySet := []
  anonRowCounter := 0

def getOrAddVar (s : LpState) (name : String) : ℕ × LpState :=
  if name ∈ s.varNames then (s.varNames.idxOf name, s)
  else (s.varNames.length,
    { s with
      varNames := s.varNames ++ [name]
      varTypes := s.varTypes ++ ['C']
      cValues := s.cValues ++ [0]
      lowerBounds := s.lowerBounds ++ [finite 0]
      upperBounds := s.upperBounds ++ [posInf] })

section Expressions

variable (stod : String → Option ℚ)

/-- `stod` is `none` where the conversion throws. -/
def numberFromText (text : String) : Except LpError ℚ :=
  match stod text with
  | some v => .ok v
  | none => .error ⟨"LP parse error: could not parse number '%s'", none, [text]⟩

def signOf (tok : LpToken) : Option ℚ :=
  if tok.kind = .plus then some 1 else if tok.kind = .minus then some (-1) else none

def bracketAhead (toks : List LpToken) : Bool :=
  kindOf toks == .lBracket || ((signOf (peek toks)).isSome && kindOf toks.tail == .lBracket)

def atVariable (toks : List LpToken) : Bool :=
  kindOf toks == .name && !atSectionBoundary toks && !isFreeKeyword (lowercase (peek toks).text) &&
    !isInfinityKeyword (peek toks)

inductive LinearPass
  | stop (toks : List LpToken)
  | term (t : LinearTerm) (toks : List LpToken) (s : LpState)
  | constant (v : ℚ) (toks : List LpToken)

def readTerm (sign : ℚ) (toks : List LpToken) (s : LpState) : Except LpError LinearPass :=
  if kindOf toks = .number then do
    let coeff ← numberFromText stod (peek toks).text
    let hadStar := kindOf toks.tail == .star
    let toks := if hadStar then toks.tail.tail else toks.tail
    expectsAt (!hadStar || (kindOf toks == .name && !atSectionBoundary toks &&
        !isInfinityKeyword (peek toks)))
      "LP parse error at line %d: expected variable name after '*', got '%s'" toks
    expects (kindOf toks != .lBracket)
      ⟨"LP parse error at line %d: a numeric coefficient may not directly precede a quadratic " ++
        "bracket '['; place the coefficient inside the brackets", some (peek toks).line, []⟩
    if atVariable toks then
      .ok (.term ((getOrAddVar s (peek toks).text).1, sign * coeff) toks.tail
        (getOrAddVar s (peek toks).text).2)
    else .ok (.constant (sign * coeff) toks)
  else if atVariable toks then
    .ok (.term ((getOrAddVar s (peek toks).text).1, sign) toks.tail
      (getOrAddVar s (peek toks).text).2)
  else .ok (.stop toks)

/-- A sign without a term is refused, but not in the first pass. -/
def linearPass (first : Bool) (toks : List LpToken) (s : LpState) : Except LpError LinearPass :=
  if bracketAhead toks then .ok (.stop toks)
  else match signOf (peek toks) with
    | some sign => do
      match ← readTerm stod sign toks.tail s with
      | .stop rest =>
        if first then .ok (.stop rest)
        else .error ⟨"LP parse error at line %d: expected a term after '+' or '-'",
          some (peek rest).line, []⟩
      | pass => .ok pass
    | none => if first then readTerm stod 1 toks s else .ok (.stop toks)

end Expressions

section Passes

variable {stod : String → Option ℚ} {first : Bool} {sign v : ℚ} {toks : List LpToken}
  {s : LpState} {pass : LinearPass}

lemma bind_eq_ok {α β : Type} {x : Except LpError α} {f : α → Except LpError β} {b : β}
    (h : x >>= f = .ok b) : ∃ a, x = .ok a ∧ f a = .ok b := by
  cases x with
  | error e => exact nomatch h
  | ok a => exact ⟨a, rfl, h⟩

lemma of_expects {condition : Bool} {error : LpError} {u : Unit}
    (h : expects condition error = .ok u) : condition = true := by
  cases condition with
  | false => exact nomatch h
  | true => rfl

lemma numberFromText_ok {text : String} (h : numberFromText stod text = .ok v) :
    stod text = some v := by
  unfold numberFromText at h
  cases hval : stod text with
  | none =>
    rw [hval] at h
    exact nomatch h
  | some w =>
    rw [hval] at h
    exact congrArg some (Except.ok.inj h)

lemma tail_lt (h : kindOf toks ≠ .eof) : toks.tail.length < toks.length := by
  cases toks with
  | nil => exact absurd rfl h
  | cons tok toks => exact Nat.lt_succ_self _

lemma tail_le (toks : List LpToken) : toks.tail.length ≤ toks.length := by
  rw [List.length_tail]
  exact Nat.sub_le _ _

lemma kindOf_of_atVariable (h : atVariable toks = true) : kindOf toks = .name := by
  unfold atVariable at h
  rw [Bool.and_eq_true, Bool.and_eq_true, Bool.and_eq_true, beq_iff_eq] at h
  exact h.1.1.1

/-- What a term can be: the token lists on which `readTerm` succeeds, and what it reads there. -/
inductive ReadsTerm (stod : String → Option ℚ) (sign : ℚ) (toks : List LpToken) (s : LpState) :
    LinearPass → Prop
  | constant (v : ℚ) (hkind : kindOf toks = .number) (hval : stod (peek toks).text = some v)
      (hstar : kindOf toks.tail ≠ .star) (hvar : atVariable toks.tail = false) :
    ReadsTerm stod sign toks s (.constant (sign * v) toks.tail)
  | dangling (v : ℚ) (hkind : kindOf toks = .number) (hval : stod (peek toks).text = some v)
      (hstar : kindOf toks.tail = .star) (hname : kindOf toks.tail.tail = .name)
      (hboundary : atSectionBoundary toks.tail.tail = false)
      (hvar : atVariable toks.tail.tail = false) :
    ReadsTerm stod sign toks s (.constant (sign * v) toks.tail.tail)
  | scaled (v : ℚ) (hkind : kindOf toks = .number) (hval : stod (peek toks).text = some v)
      (hstar : kindOf toks.tail ≠ .star) (hvar : atVariable toks.tail = true) :
    ReadsTerm stod sign toks s (.term ((getOrAddVar s (peek toks.tail).text).1, sign * v)
      toks.tail.tail (getOrAddVar s (peek toks.tail).text).2)
  | starred (v : ℚ) (hkind : kindOf toks = .number) (hval : stod (peek toks).text = some v)
      (hstar : kindOf toks.tail = .star) (hvar : atVariable toks.tail.tail = true) :
    ReadsTerm stod sign toks s (.term ((getOrAddVar s (peek toks.tail.tail).text).1, sign * v)
      toks.tail.tail.tail (getOrAddVar s (peek toks.tail.tail).text).2)
  | bare (hvar : atVariable toks = true) :
    ReadsTerm stod sign toks s (.term ((getOrAddVar s (peek toks).text).1, sign) toks.tail
      (getOrAddVar s (peek toks).text).2)
  | nothing (hkind : kindOf toks ≠ .number) (hvar : atVariable toks = false) :
    ReadsTerm stod sign toks s (.stop toks)

lemma readTerm_ok (h : readTerm stod sign toks s = .ok pass) : ReadsTerm stod sign toks s pass := by
  unfold readTerm at h
  by_cases hkind : kindOf toks = .number
  · rw [if_pos hkind] at h
    obtain ⟨v, hval, h⟩ := bind_eq_ok h
    have hval := numberFromText_ok hval
    by_cases hstar : kindOf toks.tail = .star
    · rw [hstar] at h
      obtain ⟨u, hname, h⟩ := bind_eq_ok h
      have hname := of_expects hname
      obtain ⟨-, -, h⟩ := bind_eq_ok h
      simp only [beq_self_eq_true, if_true, Bool.not_true, Bool.false_or, Bool.and_eq_true, beq_iff_eq,
        Bool.not_eq_true'] at h hname
      cases hvar : atVariable toks.tail.tail with
      | true =>
        rw [hvar, if_pos rfl] at h
        cases h
        exact .starred v hkind hval hstar hvar
      | false =>
        rw [hvar, if_neg Bool.false_ne_true] at h
        cases h
        exact .dangling v hkind hval hstar hname.1.1 hname.1.2 hvar
    · rw [beq_eq_false_iff_ne.mpr hstar] at h
      obtain ⟨u, -, h⟩ := bind_eq_ok h
      obtain ⟨-, -, h⟩ := bind_eq_ok h
      rw [if_neg Bool.false_ne_true] at h
      cases hvar : atVariable toks.tail with
      | true =>
        rw [hvar, if_pos rfl] at h
        cases h
        exact .scaled v hkind hval hstar hvar
      | false =>
        rw [hvar, if_neg Bool.false_ne_true] at h
        cases h
        exact .constant v hkind hval hstar hvar
  · rw [if_neg hkind] at h
    cases hvar : atVariable toks with
    | true =>
      rw [hvar, if_pos rfl] at h
      cases h
      exact .bare hvar
    | false =>
      rw [hvar, if_neg Bool.false_ne_true] at h
      cases h
      exact .nothing hkind hvar

def LinearPass.rest : LinearPass → List LpToken
  | .stop rest => rest
  | .term _ rest _ => rest
  | .constant _ rest => rest

def LinearPass.continues : LinearPass → Bool
  | .stop _ => false
  | _ => true

lemma ReadsTerm.rest_lt (h : ReadsTerm stod sign toks s pass) (hcont : pass.continues = true) :
    pass.rest.length < toks.length := by
  have hnumber : kindOf toks = .number → toks.tail.length < toks.length := fun hkind =>
    tail_lt (by rw [hkind]; decide)
  cases h with
  | constant v hkind => exact hnumber hkind
  | dangling v hkind | scaled v hkind => exact (tail_le _).trans_lt (hnumber hkind)
  | starred v hkind => exact ((tail_le _).trans (tail_le _)).trans_lt (hnumber hkind)
  | bare hvar => exact tail_lt (by rw [kindOf_of_atVariable hvar]; decide)
  | nothing => exact nomatch hcont

lemma kindOf_of_signOf (h : signOf (peek toks) = some sign) :
    kindOf toks = .plus ∨ kindOf toks = .minus := by
  unfold signOf at h
  by_cases hplus : (peek toks).kind = .plus
  · exact .inl hplus
  · by_cases hminus : (peek toks).kind = .minus
    · exact .inr hminus
    · rw [if_neg hplus, if_neg hminus] at h
      exact nomatch h

lemma tail_lt_of_signOf (h : signOf (peek toks) = some sign) : toks.tail.length < toks.length := by
  apply tail_lt
  rcases kindOf_of_signOf h with hkind | hkind
  · rw [hkind]
    decide
  · rw [hkind]
    decide

/-- The passes of the loop: before a bracket and where no sign follows a term it stops, a sign without
a term stops it in the first pass. -/
inductive PassReads (stod : String → Option ℚ) (first : Bool) (toks : List LpToken) (s : LpState) :
    LinearPass → Prop
  | bracket (hbracket : bracketAhead toks = true) : PassReads stod first toks s (.stop toks)
  | signed (sign : ℚ) (pass : LinearPass) (hbracket : bracketAhead toks = false)
      (hsign : signOf (peek toks) = some sign) (hread : ReadsTerm stod sign toks.tail s pass)
      (hfirst : pass.continues = true ∨ first = true) : PassReads stod first toks s pass
  | unsigned (pass : LinearPass) (hbracket : bracketAhead toks = false)
      (hsign : signOf (peek toks) = none) (hread : ReadsTerm stod 1 toks s pass)
      (hfirst : first = true) : PassReads stod first toks s pass
  | ends (hbracket : bracketAhead toks = false) (hsign : signOf (peek toks) = none)
      (hfirst : first = false) : PassReads stod first toks s (.stop toks)

lemma linearPass_ok (h : linearPass stod first toks s = .ok pass) :
    PassReads stod first toks s pass := by
  unfold linearPass at h
  cases hbracket : bracketAhead toks with
  | true =>
    rw [hbracket, if_pos rfl] at h
    cases h
    exact .bracket hbracket
  | false =>
    rw [hbracket, if_neg Bool.false_ne_true] at h
    cases hsign : signOf (peek toks) with
    | some sign =>
      rw [hsign] at h
      obtain ⟨read, hread, h⟩ := bind_eq_ok h
      have hreads := readTerm_ok hread
      cases read with
      | stop rest =>
        cases first with
        | true =>
          cases h
          exact .signed sign _ hbracket hsign hreads (.inr rfl)
        | false => exact nomatch h
      | term t rest s' =>
        cases h
        exact .signed sign _ hbracket hsign hreads (.inl rfl)
      | constant v rest =>
        cases h
        exact .signed sign _ hbracket hsign hreads (.inl rfl)
    | none =>
      rw [hsign] at h
      cases first with
      | true => exact .unsigned _ hbracket hsign (readTerm_ok h) rfl
      | false =>
        cases h
        exact .ends hbracket hsign rfl

lemma linearPass_rest_lt (h : linearPass stod first toks s = .ok pass)
    (hcont : pass.continues = true) : pass.rest.length < toks.length := by
  cases linearPass_ok h with
  | bracket | ends => exact nomatch hcont
  | signed sign pass _ hsign hread => exact (hread.rest_lt hcont).trans (tail_lt_of_signOf hsign)
  | unsigned pass _ _ hread => exact hread.rest_lt hcont

end Passes

section Linear

variable (stod : String → Option ℚ)

def linearLoop (first : Bool) (toks : List LpToken) (s : LpState) (terms : List LinearTerm)
    (constant : ℚ) : Except LpError ((List LinearTerm × ℚ) × List LpToken × LpState) :=
  match _hpass : linearPass stod first toks s with
  | .error e => .error e
  | .ok (.stop rest) => .ok ((terms, constant), rest, s)
  | .ok (.term t rest s') => linearLoop false rest s' (terms ++ [t]) constant
  | .ok (.constant v rest) => linearLoop false rest s terms (constant + v)
  termination_by toks.length
  decreasing_by
    · exact linearPass_rest_lt _hpass rfl
    · exact linearPass_rest_lt _hpass rfl

lemma linearLoop_eq (first : Bool) (toks : List LpToken) (s : LpState) (terms : List LinearTerm)
    (constant : ℚ) : linearLoop stod first toks s terms constant =
      match linearPass stod first toks s with
      | .error e => .error e
      | .ok (.stop rest) => .ok ((terms, constant), rest, s)
      | .ok (.term t rest s') => linearLoop stod false rest s' (terms ++ [t]) constant
      | .ok (.constant v rest) => linearLoop stod false rest s terms (constant + v) := by
  rw [linearLoop]
  split
  next e h => rw [h]
  next rest h => rw [h]
  next t rest s' h => rw [h]
  next v rest h => rw [h]

def parseLinearExpression (toks : List LpToken) (s : LpState) :
    Except LpError ((List LinearTerm × ℚ) × List LpToken × LpState) :=
  linearLoop stod true toks s [] 0

end Linear

section Brackets

variable (stod : String → Option ℚ)

def expect (kind : LpTokenKind) (context : String) (toks : List LpToken) :
    Except LpError (List LpToken) :=
  if kindOf toks = kind then .ok toks.tail
  else .error ⟨"LP parse error at line %d: expected %s, got '%s'", some (peek toks).line,
    [context, (peek toks).text]⟩

def readCoefficient (toks : List LpToken) : Except LpError (ℚ × List LpToken) :=
  if kindOf toks = .number then do
    let coeff ← numberFromText stod (peek toks).text
    .ok (coeff, if kindOf toks.tail = .star then toks.tail.tail else toks.tail)
  else .ok (1, toks)

def isTwo (toks : List LpToken) : Bool := kindOf toks == .number && (peek toks).text == "2"

def readQuadTerm (sign : ℚ) (toks : List LpToken) (s : LpState) :
    Except LpError (QuadEntry × List LpToken × LpState) := do
  let coeff ← readCoefficient stod toks
  let toks := coeff.2
  expectsAt (kindOf toks == .name)
    "LP parse error at line %d: expected variable name in quadratic term" toks
  let var1 := getOrAddVar s (peek toks).text
  if kindOf toks.tail = .caret then do
    expectsAt (isTwo toks.tail.tail)
      "LP parse error at line %d: only 'x ^ 2' is supported in quadratic terms (got '%s')"
      toks.tail.tail
    .ok (⟨var1.1, var1.1, sign * coeff.1⟩, toks.tail.tail.tail, var1.2)
  else if kindOf toks.tail = .star then do
    expectsAt (kindOf toks.tail.tail == .name)
      "LP parse error at line %d: expected variable name after '*' in quadratic cross term"
      toks.tail.tail
    let var2 := getOrAddVar var1.2 (peek toks.tail.tail).text
    .ok (⟨min var1.1 var2.1, max var1.1 var2.1, sign * coeff.1⟩, toks.tail.tail.tail, var2.2)
  else .error ⟨"LP parse error at line %d: bare linear term '%s' is not allowed inside a quadratic " ++
    "bracket '[ ... ]'; move it outside", some (peek toks.tail).line, [(peek toks).text]⟩

def quadPass (first : Bool) (toks : List LpToken) (s : LpState) :
    Except LpError (QuadEntry × List LpToken × LpState) := do
  expects (!atEof toks) ⟨"LP parse error: unterminated quadratic '[' section", none, []⟩
  match signOf (peek toks) with
  | some sign => readQuadTerm stod sign toks.tail s
  | none =>
    if first then readQuadTerm stod 1 toks s
    else failAt "LP parse error at line %d: expected '+' or '-' between quadratic terms, got '%s'" toks

end Brackets

section QuadPasses

variable {stod : String → Option ℚ} {first : Bool} {sign : ℚ} {toks : List LpToken} {s : LpState}

variable {rest : List LpToken}

lemma of_expect {kind : LpTokenKind} {context : String} (h : expect kind context toks = .ok rest)
    : kindOf toks = kind ∧ rest = toks.tail := by
  unfold expect at h
  by_cases hkind : kindOf toks = kind
  · rw [if_pos hkind] at h
    exact ⟨hkind, (Except.ok.inj h).symm⟩
  · rw [if_neg hkind] at h
    exact nomatch h

inductive ReadsCoefficient (stod : String → Option ℚ) (toks : List LpToken) : ℚ → List LpToken → Prop
  | plain (v : ℚ) (hkind : kindOf toks = .number) (hval : stod (peek toks).text = some v)
      (hstar : kindOf toks.tail ≠ .star) : ReadsCoefficient stod toks v toks.tail
  | starred (v : ℚ) (hkind : kindOf toks = .number) (hval : stod (peek toks).text = some v)
      (hstar : kindOf toks.tail = .star) : ReadsCoefficient stod toks v toks.tail.tail
  | absent (hkind : kindOf toks ≠ .number) : ReadsCoefficient stod toks 1 toks

lemma readCoefficient_ok {r : ℚ × List LpToken} (h : readCoefficient stod toks = .ok r) :
    ReadsCoefficient stod toks r.1 r.2 := by
  unfold readCoefficient at h
  by_cases hkind : kindOf toks = .number
  · rw [if_pos hkind] at h
    obtain ⟨v, hval, h⟩ := bind_eq_ok h
    have hval := numberFromText_ok hval
    by_cases hstar : kindOf toks.tail = .star
    · rw [if_pos hstar] at h
      cases h
      exact .starred v hkind hval hstar
    · rw [if_neg hstar] at h
      cases h
      exact .plain v hkind hval hstar
  · rw [if_neg hkind] at h
    cases h
    exact .absent hkind

lemma ReadsCoefficient.length_le {v : ℚ} (h : ReadsCoefficient stod toks v rest) :
    rest.length ≤ toks.length := by
  cases h with
  | plain => exact tail_le toks
  | starred => exact (tail_le _).trans (tail_le toks)
  | absent => exact le_rfl

inductive ReadsQuadTerm (stod : String → Option ℚ) (sign : ℚ) (toks : List LpToken) (s : LpState) :
    QuadEntry → List LpToken → LpState → Prop
  | square (v : ℚ) (rest : List LpToken) (hcoeff : ReadsCoefficient stod toks v rest)
      (hname : kindOf rest = .name) (hcaret : kindOf rest.tail = .caret)
      (htwo : isTwo rest.tail.tail = true) :
    ReadsQuadTerm stod sign toks s
      ⟨(getOrAddVar s (peek rest).text).1, (getOrAddVar s (peek rest).text).1, sign * v⟩
      rest.tail.tail.tail (getOrAddVar s (peek rest).text).2
  | product (v : ℚ) (rest : List LpToken) (s' : LpState) (i j : ℕ)
      (hcoeff : ReadsCoefficient stod toks v rest) (hname : kindOf rest = .name)
      (hstar : kindOf rest.tail = .star) (hname' : kindOf rest.tail.tail = .name)
      (hi : (i, s') = getOrAddVar s (peek rest).text)
      (hj : j = (getOrAddVar s' (peek rest.tail.tail).text).1) :
    ReadsQuadTerm stod sign toks s ⟨min i j, max i j, sign * v⟩ rest.tail.tail.tail
      (getOrAddVar s' (peek rest.tail.tail).text).2

variable {r : QuadEntry × List LpToken × LpState}

lemma readQuadTerm_ok (h : readQuadTerm stod sign toks s = .ok r) :
    ReadsQuadTerm stod sign toks s r.1 r.2.1 r.2.2 := by
  obtain ⟨coeff, hcoeff, h⟩ := bind_eq_ok h
  obtain ⟨u, hname, h⟩ := bind_eq_ok h
  have hcoeff := readCoefficient_ok hcoeff
  have hname := beq_iff_eq.mp (of_expects hname)
  dsimp only at h
  by_cases hcaret : kindOf coeff.2.tail = .caret
  · rw [if_pos hcaret] at h
    obtain ⟨u', htwo, h⟩ := bind_eq_ok h
    cases h
    exact .square coeff.1 coeff.2 hcoeff hname hcaret (of_expects htwo)
  · rw [if_neg hcaret] at h
    by_cases hstar : kindOf coeff.2.tail = .star
    · rw [if_pos hstar] at h
      obtain ⟨u', hname', h⟩ := bind_eq_ok h
      cases h
      exact .product coeff.1 coeff.2 _ _ _ hcoeff hname hstar (beq_iff_eq.mp (of_expects hname')) rfl
        rfl
    · rw [if_neg hstar] at h
      exact nomatch h

lemma ReadsQuadTerm.length_lt {entry : QuadEntry} {s' : LpState}
    (h : ReadsQuadTerm stod sign toks s entry rest s') : rest.length < toks.length := by
  cases h with
  | square v rest hcoeff hname | product v rest s' i j hcoeff hname =>
    have htail : rest.tail.length < rest.length := tail_lt (by rw [hname]; decide)
    exact (((tail_le _).trans (tail_le _)).trans_lt htail).trans_le hcoeff.length_le

lemma quadPass_ok (h : quadPass stod first toks s = .ok r) :
    (∃ sign, signOf (peek toks) = some sign ∧ ReadsQuadTerm stod sign toks.tail s r.1 r.2.1 r.2.2) ∨
    (signOf (peek toks) = none ∧ first = true ∧ ReadsQuadTerm stod 1 toks s r.1 r.2.1 r.2.2) := by
  obtain ⟨u, -, h⟩ := bind_eq_ok h
  cases hsign : signOf (peek toks) with
  | some sign =>
    rw [hsign] at h
    exact .inl ⟨sign, rfl, readQuadTerm_ok h⟩
  | none =>
    rw [hsign] at h
    cases first with
    | true => exact .inr ⟨rfl, rfl, readQuadTerm_ok h⟩
    | false => exact nomatch h

lemma quadPass_length_lt (h : quadPass stod first toks s = .ok r) :
    r.2.1.length < toks.length := by
  rcases quadPass_ok h with ⟨sign, hsign, hread⟩ | ⟨-, -, hread⟩
  · exact hread.length_lt.trans (tail_lt_of_signOf hsign)
  · exact hread.length_lt

end QuadPasses

section Expression

variable (stod : String → Option ℚ)

def quadLoop (first : Bool) (toks : List LpToken) (s : LpState) (entries : List QuadEntry) :
    Except LpError (List QuadEntry × List LpToken × LpState) :=
  if kindOf toks = .rBracket then .ok (entries, toks, s)
  else
    match _hpass : quadPass stod first toks s with
    | .error e => .error e
    | .ok r => quadLoop false r.2.1 r.2.2 (entries ++ [r.1])
  termination_by toks.length
  decreasing_by exact quadPass_length_lt _hpass

lemma quadLoop_eq (first : Bool) (toks : List LpToken) (s : LpState) (entries : List QuadEntry) :
    quadLoop stod first toks s entries =
      if kindOf toks = .rBracket then .ok (entries, toks, s)
      else
        match quadPass stod first toks s with
        | .error e => .error e
        | .ok r => quadLoop stod false r.2.1 r.2.2 (entries ++ [r.1]) := by
  rw [quadLoop]
  congr 1
  split
  next e h => rw [h]
  next r h => rw [h]

/-- Where a bracket stands: in the objective it is followed by `/ 2`, in a constraint it is not. -/
inductive BracketRole
  | objective
  | constraint
  deriving DecidableEq

def halved (toks : List LpToken) : Bool := kindOf toks == .slash && isTwo toks.tail

def parseQuadraticBracket (outerSign : ℚ) (role : BracketRole) (toks : List LpToken) (s : LpState) :
    Except LpError (List QuadEntry × List LpToken × LpState) := do
  let toks ← expect .lBracket "'[' at start of quadratic section" toks
  let raw ← quadLoop stod true toks s []
  let toks ← expect .rBracket "closing ']' of quadratic section" raw.2.1
  match role with
  | .objective => do
    expects (halved toks) ⟨"LP parse error at line %d: quadratic expression '[ ... ]' in the objective " ++
      "must be followed by '/ 2'", some (peek toks).line, []⟩
    .ok (raw.1.map fun e => ⟨e.row, e.col, outerSign * e.val / 2⟩, toks.tail.tail, raw.2.2)
  | .constraint => do
    expects (!halved toks) ⟨"LP parse error at line %d: quadratic expression '[ ... ]' in a " ++
      "constraint must NOT be followed by '/ 2' (the '/ 2' suffix is reserved for the objective)",
      some (peek toks).line, []⟩
    expects (!raw.1.isEmpty) ⟨"LP parse error at line %d: quadratic bracket '[ ... ]' in a constraint " ++
      "must contain at least one quadratic term", some (peek toks).line, []⟩
    .ok (raw.1.map fun e => ⟨e.row, e.col, outerSign * e.val⟩, toks, raw.2.2)

structure Expression where
  linear : List LinearTerm
  constant : ℚ
  quad : Option (List QuadEntry)

/-- The part that the objective and a constraint share: linear terms, a bracket that may have a sign,
and more linear terms behind it. -/
def parseExpression (role : BracketRole) (toks : List LpToken) (s : LpState) :
    Except LpError (Expression × List LpToken × LpState) := do
  let lead ← parseLinearExpression stod toks s
  let toks := lead.2.1
  let signed := (signOf (peek toks)).isSome && kindOf toks.tail == .lBracket
  let quadSign := if signed then (signOf (peek toks)).getD 1 else 1
  let toks := if signed then toks.tail else toks
  if kindOf toks = .lBracket then do
    let quad ← parseQuadraticBracket stod quadSign role toks lead.2.2
    let more ← parseLinearExpression stod quad.2.1 quad.2.2
    .ok (⟨lead.1.1 ++ more.1.1, lead.1.2 + more.1.2, some quad.1⟩, more.2.1, more.2.2)
  else .ok (⟨lead.1.1, lead.1.2, none⟩, toks, lead.2.2)

end Expression

section Sections

variable (stod : String → Option ℚ)

def addLinear (c : List ℚ) (t : LinearTerm) : List ℚ :=
  let c := if c.length ≤ t.1 then c ++ List.replicate (t.1 + 1 - c.length) 0 else c
  c.set t.1 (c.getD t.1 0 + t.2)

def parseObjectiveSection (toks : List LpToken) (s : LpState) :
    Except LpError (List LpToken × LpState) := do
  let labelled := kindOf toks == .name && kindOf toks.tail == .colon && !atSectionBoundary toks
  let s := if labelled then { s with objectiveName := (peek toks).text } else s
  let toks := if labelled then toks.tail.tail else toks
  let e ← parseExpression stod .objective toks s
  let s := e.2.2
  .ok (e.2.1, { s with
    quadobjEntries := s.quadobjEntries ++ e.1.quad.getD []
    cValues := e.1.linear.foldl addLinear s.cValues
    objectiveOffset := s.objectiveOffset + e.1.constant })

def parseSignedNumber (toks : List LpToken) : Except LpError (Extended ℚ × List LpToken) :=
  let sign : ℚ := (signOf (peek toks)).getD 1
  let toks := if (signOf (peek toks)).isSome then toks.tail else toks
  if isInfinityKeyword (peek toks) then .ok (if 0 < sign then posInf else negInf, toks.tail)
  else do
    expectsAt (kindOf toks == .number) "LP parse error at line %d: expected a number, got '%s'" toks
    let v ← numberFromText stod (peek toks).text
    .ok (finite (sign * v), toks.tail)

def relationOf : LpTokenKind → Option RowType
  | .lessEq => some .lesserThanOrEqual
  | .greaterEq => some .greaterThanOrEqual
  | .equal => some .equality
  | _ => none

/-- Coefficients of one variable are added up, the sums sorted by variable, zeros left out. -/
def rowEntries (linear : List LinearTerm) : List (ℕ × ℚ) :=
  (linear.foldl (fun (m : SortedMap ℕ ℚ) t => m.insert t.1 ((m.get? t.1).getD 0 + t.2))
    SortedMap.empty).toList.filter fun e => e.2 ≠ 0

def hasLabel (toks : List LpToken) : Bool := kindOf toks == .name && kindOf toks.tail == .colon

def parseConstraint (toks : List LpToken) (s : LpState) : Except LpError (List LpToken × LpState) := do
  let rowName := if hasLabel toks then (peek toks).text else "R" ++ toString s.anonRowCounter
  let s := if hasLabel toks then s else { s with anonRowCounter := s.anonRowCounter + 1 }
  let toks := if hasLabel toks then toks.tail.tail else toks
  let e ← parseExpression stod .constraint toks s
  let s := e.2.2
  match relationOf (kindOf e.2.1) with
  | none => failAt ("LP parse error at line %d: expected a relation operator (<=, >=, =) in " ++
      "constraint, got '%s'") e.2.1
  | some rowType => do
    expects (e.1.quad.isNone || rowType == .lesserThanOrEqual)
      ⟨"LP parse error at line %d: quadratic constraint '%s' must use '<=' (only convex '≤' quadratic " ++
        "constraints are supported)", some (peek e.2.1.tail).line, [rowName]⟩
    let rhs ← parseSignedNumber stod e.2.1.tail
    expects (!s.rowNamesMap.contains rowName) ⟨"Duplicate constraint name '%s'", none, [rowName]⟩
    let row : LpRow := ⟨rowName, rowType, rowEntries e.1.linear, sub rhs.1 (finite e.1.constant)⟩
    let s := { s with rowNamesMap := s.rowNamesMap ++ [rowName] }
    match e.1.quad with
    | some quad => .ok (rhs.2,
        { s with quadraticConstraintBlocks := s.quadraticConstraintBlocks ++ [⟨row, quad⟩] })
    | none => .ok (rhs.2, { s with rows := s.rows ++ [row] })

def setBounds (s : LpState) (vid : ℕ) (lower upper : Option (Extended ℚ)) : LpState :=
  { s with
    lowerBounds := lower.elim s.lowerBounds fun v => s.lowerBounds.set vid v
    upperBounds := upper.elim s.upperBounds fun v => s.upperBounds.set vid v
    lowerExplicitlySet := if lower.isSome then s.lowerExplicitlySet ++ [vid] else s.lowerExplicitlySet }

def parseBound (toks : List LpToken) (s : LpState) : Except LpError (List LpToken × LpState) :=
  if kindOf toks = .name ∧ isInfinityKeyword (peek toks) = false then do
    let var := getOrAddVar s (peek toks).text
    let s := { var.2 with boundsDefined := var.2.boundsDefined ++ [var.1] }
    let toks := toks.tail
    if kindOf toks = .name ∧ isFreeKeyword (lowercase (peek toks).text) = true then
      .ok (toks.tail, setBounds s var.1 (some negInf) (some posInf))
    else if kindOf toks = .lessEq then do
      let bound ← parseSignedNumber stod toks.tail
      .ok (bound.2, setBounds s var.1 none (some bound.1))
    else if kindOf toks = .greaterEq then do
      let bound ← parseSignedNumber stod toks.tail
      .ok (bound.2, setBounds s var.1 (some bound.1) none)
    else if kindOf toks = .equal then do
      let bound ← parseSignedNumber stod toks.tail
      .ok (bound.2, setBounds s var.1 (some bound.1) (some bound.1))
    else failAt ("LP parse error at line %d: expected 'free', '<=', '>=' or '=' after variable name in " ++
      "Bounds section, got '%s'") toks
  else do
    let lower ← parseSignedNumber stod toks
    let toks ← expect .lessEq "'<=' in 'lb <= var' bound" lower.2
    expectsAt (kindOf toks == .name && !isInfinityKeyword (peek toks))
      "LP parse error at line %d: expected variable name after 'lb <='" toks
    let var := getOrAddVar s (peek toks).text
    let s := { var.2 with boundsDefined := var.2.boundsDefined ++ [var.1] }
    let s := setBounds s var.1 (some lower.1) none
    if kindOf toks.tail = .lessEq then do
      let upper ← parseSignedNumber stod toks.tail.tail
      .ok (upper.2, setBounds s var.1 none (some upper.1))
    else .ok (toks.tail, s)

/-- A negative upper bound needs a lower bound of its own. -/
def checkNegativeUpper (s : LpState) : Except LpError Unit :=
  match s.boundsDefined.find? fun vid =>
    lt (s.upperBounds.getD vid posInf) (finite 0) && !s.lowerExplicitlySet.contains vid with
  | some vid => .error ⟨"LP parse error: variable '%s' has a negative upper bound (%g) without an " ++
      "explicit lower bound. Write '-inf <= %s <= %g' or give an explicit lower bound alongside the " ++
      "upper bound.", none, [s.varNames.getD vid ""]⟩
  | none => .ok ()

def parseIntegerVariable (isBinary : Bool) (toks : List LpToken) (s : LpState) :
    Except LpError (List LpToken × LpState) := do
  let sectionName := if isBinary then "Binaries" else "Generals"
  expects (kindOf toks == .name) ⟨"LP parse error at line %d: expected variable name in %s section, " ++
    "got '%s'", some (peek toks).line, [sectionName, (peek toks).text]⟩
  let var := getOrAddVar s (peek toks).text
  let s := var.2
  expects (s.varTypes.getD var.1 'C' != 'S')
    ⟨"Variable '%s' appears in both Semi-Continuous and %s sections", none, [(peek toks).text, sectionName]⟩
  let s := { s with varTypes := s.varTypes.set var.1 'I' }
  .ok (toks.tail, if isBinary then { s with
      lowerBounds := s.lowerBounds.set var.1 (finite 0)
      upperBounds := s.upperBounds.set var.1 (finite 1)
      boundsDefined := s.boundsDefined ++ [var.1] }
    else s)

def parseSemiContinuousVariable (toks : List LpToken) (s : LpState) :
    Except LpError (List LpToken × LpState) := do
  expectsAt (kindOf toks == .name)
    "LP parse error at line %d: expected variable name in Semi-Continuous section, got '%s'" toks
  let var := getOrAddVar s (peek toks).text
  let s := var.2
  expects (s.varTypes.getD var.1 'C' != 'I')
    ⟨"Variable '%s' appears in both Generals/Binaries and Semi-Continuous sections", none,
      [(peek toks).text]⟩
  .ok (toks.tail, { s with varTypes := s.varTypes.set var.1 'S' })

end Sections

end CuOpt.Io.LpParser
