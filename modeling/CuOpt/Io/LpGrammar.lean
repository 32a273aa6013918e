import CuOpt.Io.LpEngine
import CuOpt.Library.SparseList

/-! What an LP file writes: expressions as sums whose terms are separated by signs, with the tokens that
are left behind them, and where the reader deviates from that. -/

namespace CuOpt.Io.LpParser

open Activities Extended SparseList

section Sums

variable {α : Type*} (item : List LpToken → α → List LpToken → Prop) (scale : ℚ → α → α)

inductive SignedItems : List LpToken → List α → List LpToken → Prop
  | nil (toks : List LpToken) : SignedItems toks [] toks
  | cons {toks mid rest : List LpToken} {sign : ℚ} {a : α} {as : List α}
      (hsign : signOf (peek toks) = some sign) (hitem : item toks.tail a mid)
      (hrest : SignedItems mid as rest) : SignedItems toks (scale sign a :: as) rest

/-- The sign of the first item may be missing. -/
inductive SumOf : List LpToken → List α → List LpToken → Prop
  | signed {toks rest : List LpToken} {as : List α} (h : SignedItems item scale toks as rest) :
    SumOf toks as rest
  | unsigned {toks mid rest : List LpToken} {a : α} {as : List α}
      (hsign : signOf (peek toks) = none) (hitem : item toks a mid)
      (hrest : SignedItems item scale mid as rest) : SumOf toks (a :: as) rest

end Sums

inductive Written
  | named (name : String) (coeff : ℚ)
  | constant (v : ℚ)

def Written.scale (sign : ℚ) : Written → Written
  | .named name coeff => .named name (sign * coeff)
  | .constant v => .constant (sign * v)

structure WrittenQuad where
  first : String
  second : String
  coeff : ℚ

def WrittenQuad.scale (sign : ℚ) (q : WrittenQuad) : WrittenQuad :=
  ⟨q.first, q.second, sign * q.coeff⟩

section Grammar

variable (stod : String → Option ℚ)

inductive TermAt : List LpToken → Written → List LpToken → Prop
  | constant {toks : List LpToken} {v : ℚ} (hkind : kindOf toks = .number)
      (hval : stod (peek toks).text = some v) : TermAt toks (.constant v) toks.tail
  | scaled {toks : List LpToken} {v : ℚ} (hkind : kindOf toks = .number)
      (hval : stod (peek toks).text = some v) (hvar : atVariable toks.tail = true) :
    TermAt toks (.named (peek toks.tail).text v) toks.tail.tail
  | starred {toks : List LpToken} {v : ℚ} (hkind : kindOf toks = .number)
      (hval : stod (peek toks).text = some v) (hstar : kindOf toks.tail = .star)
      (hvar : atVariable toks.tail.tail = true) :
    TermAt toks (.named (peek toks.tail.tail).text v) toks.tail.tail.tail
  | bare {toks : List LpToken} (hvar : atVariable toks = true) :
    TermAt toks (.named (peek toks).text 1) toks.tail

inductive QuadTermAt : List LpToken → WrittenQuad → List LpToken → Prop
  | square {toks rest : List LpToken} {v : ℚ} (hcoeff : ReadsCoefficient stod toks v rest)
      (hname : kindOf rest = .name) (hcaret : kindOf rest.tail = .caret)
      (htwo : isTwo rest.tail.tail = true) :
    QuadTermAt toks ⟨(peek rest).text, (peek rest).text, v⟩ rest.tail.tail.tail
  | product {toks rest : List LpToken} {v : ℚ} (hcoeff : ReadsCoefficient stod toks v rest)
      (hname : kindOf rest = .name) (hstar : kindOf rest.tail = .star)
      (hname' : kindOf rest.tail.tail = .name) :
    QuadTermAt toks ⟨(peek rest).text, (peek rest.tail.tail).text, v⟩ rest.tail.tail.tail

def behindClose : BracketRole → List LpToken → List LpToken
  | .objective, toks => toks.tail.tail
  | .constraint, toks => toks

structure BracketAt (role : BracketRole) (toks : List LpToken) (qs : List WrittenQuad)
    (rest : List LpToken) : Prop where
  opens : kindOf toks = .lBracket
  inside : ∃ mid, SumOf (QuadTermAt stod) WrittenQuad.scale toks.tail qs mid ∧
    kindOf mid = .rBracket ∧ rest = behindClose role mid.tail ∧
    (halved mid.tail = true ↔ role = .objective)

structure WrittenExpression where
  linear : List Written
  quad : Option (List WrittenQuad)

def afterSign (toks : List LpToken) : List LpToken :=
  if (signOf (peek toks)).isSome then toks.tail else toks

def signValue (toks : List LpToken) : ℚ := (signOf (peek toks)).getD 1

/-- A sum, or a bracket between two sums: every part but the first has a sign. -/
inductive ExpressionAt (role : BracketRole) : List LpToken → WrittenExpression → List LpToken → Prop
  | linear {toks rest : List LpToken} {ws : List Written}
      (h : SumOf (TermAt stod) Written.scale toks ws rest) : ExpressionAt role toks ⟨ws, none⟩ rest
  | bracket {toks mid behind rest : List LpToken} {ws ws' : List Written} {qs : List WrittenQuad}
      (hlead : SumOf (TermAt stod) Written.scale toks ws mid)
      (hsign : (signOf (peek mid)).isSome = true ∨ ws = [])
      (hbracket : BracketAt stod role (afterSign mid) qs behind)
      (hmore : SignedItems (TermAt stod) Written.scale behind ws' rest) :
    ExpressionAt role toks ⟨ws ++ ws', some (qs.map (WrittenQuad.scale (signValue mid)))⟩ rest

/-- An expression ends at a relation or, in the objective, at the next section. -/
def Ends : BracketRole → List LpToken → Prop
  | .objective, toks => atSectionBoundary toks = true
  | .constraint, toks => (relationOf (kindOf toks)).isSome = true

inductive NumberAt : List LpToken → Extended ℚ → List LpToken → Prop
  | finite {toks : List LpToken} {v : ℚ} (hkind : kindOf (afterSign toks) = .number)
      (hval : stod (peek (afterSign toks)).text = some v) :
    NumberAt toks (finite (signValue toks * v)) (afterSign toks).tail
  | infinite {toks : List LpToken} (hkind : isInfinityKeyword (peek (afterSign toks)) = true) :
    NumberAt toks (if 0 < signValue toks then posInf else negInf) (afterSign toks).tail

structure WrittenConstraint where
  label : Option String
  expression : WrittenExpression
  type : RowType
  rhs : Extended ℚ

def behindLabel (toks : List LpToken) : List LpToken := if hasLabel toks then toks.tail.tail else toks

def labelOf (toks : List LpToken) : Option String :=
  if hasLabel toks then some (peek toks).text else none

def objectiveBody (toks : List LpToken) : List LpToken :=
  if hasLabel toks && !atSectionBoundary toks then toks.tail.tail else toks

structure ConstraintAt (toks : List LpToken) (c : WrittenConstraint) : Prop where
  label : c.label = labelOf toks
  parts : ∃ relation rest, ExpressionAt stod .constraint (behindLabel toks) c.expression relation ∧
    relationOf (kindOf relation) = some c.type ∧ NumberAt stod relation.tail c.rhs rest

def ObjectiveAt (toks : List LpToken) (w : WrittenExpression) : Prop :=
  ∃ rest, ExpressionAt stod .objective (objectiveBody toks) w rest ∧ Ends .objective rest

end Grammar

def Written.name? : Written → Option String
  | .named name _ => some name
  | .constant _ => none

def Written.coeffOf (name : String) : Written → ℚ
  | .named name' coeff => if name' = name then coeff else 0
  | .constant _ => 0

def Written.constantPart : Written → ℚ
  | .named _ _ => 0
  | .constant v => v

def linearCoeff (ws : List Written) (name : String) : ℚ := (ws.map (Written.coeffOf name)).sum

def constantOf (ws : List Written) : ℚ := (ws.map Written.constantPart).sum

def quadEntry (names : List String) (factor : ℚ) (q : WrittenQuad) : QuadEntry :=
  ⟨min (names.idxOf q.first) (names.idxOf q.second), max (names.idxOf q.first) (names.idxOf q.second),
    factor * q.coeff⟩

structure Known (names : List String) (w : WrittenExpression) : Prop where
  linear : ∀ t ∈ w.linear, ∀ name ∈ t.name?, name ∈ names
  quad : ∀ q ∈ w.quad.getD [], q.first ∈ names ∧ q.second ∈ names

structure StoresObjective (s : LpState) (w : WrittenExpression) : Prop where
  known : Known s.varNames w
  length_eq : s.cValues.length = s.varNames.length
  cost : ∀ name ∈ s.varNames, s.cValues.getD (s.varNames.idxOf name) 0 = linearCoeff w.linear name
  offset : s.objectiveOffset = constantOf w.linear
  quad : s.quadobjEntries = (w.quad.getD []).map (quadEntry s.varNames (1 / 2))

structure StoresRow (names : List String) (c : WrittenConstraint) (row : LpRow) : Prop where
  known : Known names c.expression
  name : ∀ label ∈ c.label, row.name = label
  type : row.type = c.type
  rhs : row.rhs = sub c.rhs (finite (constantOf c.expression.linear))
  sorted : (row.entries.map Prod.fst).Pairwise (· < ·)
  nonzero : ∀ e ∈ row.entries, e.2 ≠ 0
  within : ∀ e ∈ row.entries, e.1 < names.length
  sums : ∀ name ∈ names, coeff row.entries (names.idxOf name) = linearCoeff c.expression.linear name

structure StoresBlock (names : List String) (c : WrittenConstraint)
    (block : QuadraticConstraintBlock) : Prop where
  row : StoresRow names c block.toLpRow
  quad : block.quad = (c.expression.quad.getD []).map (quadEntry names 1)

/-- Constraints with a bracket and those without one are stored apart, each in their order. -/
structure StoresConstraints (s : LpState) (cs : List WrittenConstraint) : Prop where
  rows : List.Forall₂ (StoresRow s.varNames) (cs.filter fun c => c.expression.quad.isNone) s.rows
  blocks : List.Forall₂ (StoresBlock s.varNames) (cs.filter fun c => c.expression.quad.isSome)
    s.quadraticConstraintBlocks

def startsTerm (toks : List LpToken) : Bool := kindOf toks == .number || atVariable toks

def isLeadToken (toks : List LpToken) : Bool :=
  (signOf (peek toks)).isSome || kindOf toks == .number || kindOf toks == .star ||
    (kindOf toks == .name && !atSectionBoundary toks)

def bracketOf : Option LpToken → List LpToken → Option (Option LpToken × List LpToken)
  | _, [] => none
  | last, tok :: toks =>
    if tok.kind = .lBracket then some (last, tok :: toks)
    else if isLeadToken (tok :: toks) then bracketOf (some tok) toks
    else none

def toClose (toks : List LpToken) : List LpToken := toks.dropWhile fun tok => tok.kind ≠ .rBracket

def ContinuesClean (toks : List LpToken) : Prop :=
  if (signOf (peek toks)).isSome then startsTerm toks.tail = true else startsTerm toks = false

/-- An expression that starts with a sign goes on with a term or a bracket; its bracket is the first
token or follows a sign; and behind the bracket stands a sign with a term, or neither. -/
structure Clean (role : BracketRole) (toks : List LpToken) : Prop where
  lead : (signOf (peek toks)).isSome = true →
    kindOf toks.tail = .lBracket ∨ startsTerm toks.tail = true
  signed : ∀ last at_, bracketOf none toks = some (last, at_) →
    ∀ tok ∈ last, (signOf tok).isSome = true
  behind : ∀ last at_, bracketOf none toks = some (last, at_) →
    ContinuesClean (behindClose role (toClose at_).tail)

end CuOpt.Io.LpParser
