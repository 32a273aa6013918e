import CuOpt.Library.Bitset
import CuOpt.Library.BooleanCubes
import CuOpt.Library.BufferWrites

/-! The clauses of an eliminated block: the prime cubes of its infeasible boundary patterns, and a
greedy cover of these patterns by them. -/

namespace CuOpt.Presolve

open BooleanCubes BufferWrites
open List (range)

/-- `bve_clause_t`, with `lit_mask` and `bit_mask` for fields; it forbids the patterns it matches. -/
abbrev BveClause := Cube

namespace BveClause

def satisfied (c : BveClause) (m : ℕ) : Bool := decide ((m ^^^ c.bit) &&& c.lit ≠ 0)

end BveClause

def fullMask (nb : ℕ) : ℕ := 2 ^ nb - 1

def bveSanityCheck (feas : ℕ → Bool) (nb : ℕ) (clauses : List BveClause) : Bool :=
  (clauses.all fun c => decide (Nat.ldiff c.lit (fullMask nb) = 0)) &&
    (range (2 ^ nb)).all fun m => (clauses.all fun c => BveClause.satisfied c m) == feas m

def popcount (nb mask : ℕ) : ℕ := (range nb).countP fun i => mask.testBit i

/-- `countr_zero(~lit & full_mask)`: the lowest position that `lit` leaves free. -/
def freePosition (nb lit : ℕ) : ℕ := ((range nb).find? fun j => !lit.testBit j).getD 32

def cell (nb lit bit : ℕ) : ℕ := lit * 2 ^ nb + bit

def seedMinterms (feas : ℕ → Bool) (nb : ℕ) (valid : List ℕ) : List ℕ :=
  writeAll (fun m => cell nb (fullMask nb) m) (fun _ m => if feas m then 0 else 1) valid
    (range (2 ^ nb))

def mergeHalves (nb lit : ℕ) (valid : List ℕ) : List ℕ :=
  let j := freePosition nb lit
  let child := lit ||| 1 <<< j
  writeAll (fun bit => cell nb lit bit)
    (fun valid bit =>
      valid.getD (cell nb child bit) 0 &&& valid.getD (cell nb child (bit ||| 1 <<< j)) 0)
    valid (submasks lit)

def fillLevel (nb nLits : ℕ) (valid : List ℕ) : List ℕ :=
  (range (2 ^ nb)).foldl
    (fun valid lit => if popcount nb lit ≠ nLits then valid else mergeHalves nb lit valid) valid

/-- The table is grown if it is too small, and never cleared. -/
def grow (nb : ℕ) (valid : List ℕ) : List ℕ :=
  valid ++ List.replicate (2 ^ nb * 2 ^ nb - valid.length) 0

def fillValid (feas : ℕ → Bool) (nb : ℕ) (valid : List ℕ) : List ℕ :=
  (range nb).reverse.foldl (fun valid nLits => fillLevel nb nLits valid)
    (seedMinterms feas nb (grow nb valid))

def isPrime (nb : ℕ) (valid : List ℕ) (c : Cube) : Bool :=
  (range nb).all fun j =>
    !(c.lit.testBit j && decide (valid.getD (cell nb (c.drop j).lit (c.drop j).bit) 0 ≠ 0))

def collectPrimes (nb : ℕ) (valid : List ℕ) : List BveClause :=
  (range (2 ^ nb)).flatMap fun lit => (submasks lit).filterMap fun bit =>
    if valid.getD (cell nb lit bit) 0 ≠ 0 ∧ isPrime nb valid ⟨lit, bit⟩ = true then some ⟨lit, bit⟩
    else none

structure BveCoverScratch where
  valid : List ℕ
  primes : List BveClause
  cover : List (List (BitVec 64))
  uncovered : List (BitVec 64)

def bveEnumeratePrimeCubes (feas : ℕ → Bool) (nb : ℕ) (scratch : BveCoverScratch) :
    BveCoverScratch :=
  let valid := fillValid feas nb scratch.valid
  { scratch with valid := valid, primes := collectPrimes nb valid }

def bveMaskWords (nb : ℕ) : ℕ := (2 ^ nb + 63) / 64

def bveCubeCover (nb : ℕ) (c : BveClause) : List (BitVec 64) :=
  (submasks (Nat.ldiff (fullMask nb) c.lit)).foldl (fun cover s => Bitset.set cover (c.bit ||| s))
    (Bitset.empty (bveMaskWords nb))

def infeasiblePatterns (feas : ℕ → Bool) (nb : ℕ) : List (BitVec 64) :=
  (range (2 ^ nb)).foldl (fun mask m => if !feas m then Bitset.set mask m else mask)
    (Bitset.empty (bveMaskWords nb))

/-- The first cube of largest overlap with the uncovered patterns, if one overlaps at all. -/
def bestCube (uncovered : List (BitVec 64)) (cover : List (List (BitVec 64))) : Option ℕ × ℕ :=
  (range cover.length).foldl
    (fun best q =>
      let gain := Bitset.count (Bitset.inter uncovered (cover.getD q []))
      if best.2 < gain then (some q, gain) else best)
    (none, 0)

inductive CoverResult where
  | clauses (out : List BveClause)
  /-- `-1`: the clauses do not fit the cap. -/
  | overCap
  /-- No prime cube meets an uncovered pattern, which the code asserts never to happen. -/
  | noCube
  deriving DecidableEq

def coverLoop (primes : List BveClause) (cover : List (List (BitVec 64))) :
    ℕ → List (BitVec 64) → List BveClause → CoverResult × List (BitVec 64)
  | room, uncovered, out =>
    if Bitset.count uncovered = 0 then (.clauses out, uncovered)
    else
      match (bestCube uncovered cover).1 with
      | none => (.noCube, uncovered)
      | some q =>
        match room with
        | 0 => (.overCap, uncovered)
        | room + 1 =>
          coverLoop primes cover room (Bitset.diff uncovered (cover.getD q []))
            (out ++ [primes.getD q ⟨0, 0⟩])

def bveGreedyPrimeCover (feas : ℕ → Bool) (nb cap : ℕ) (scratch : BveCoverScratch) :
    CoverResult × BveCoverScratch :=
  let scratch := bveEnumeratePrimeCubes feas nb scratch
  let uncovered := infeasiblePatterns feas nb
  if Bitset.count uncovered = 0 then (.clauses [], { scratch with uncovered := uncovered })
  else
    -- every mask of `cover` is assigned anew after the resize, whatever it held
    let cover := scratch.primes.map (bveCubeCover nb)
    let picked := coverLoop scratch.primes cover cap uncovered []
    (picked.1, { scratch with cover := cover, uncovered := picked.2 })

end CuOpt.Presolve
