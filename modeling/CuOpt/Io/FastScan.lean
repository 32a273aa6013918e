import CuOpt.Library.LaneScan

/-! The field scanner of the fast reader: bytes are scanned one by one or 32 at a time, and fields are
cut out with the lane masks of one load. Positions count from the start of the buffer. -/

namespace CuOpt.Io.FastScan

open LaneScan

inductive ScanMode
  | skipWhitespace
  | untilWhitespace

def byte (data : List UInt8) (i : ℕ) : UInt8 := data.getD i 0

def newline : UInt8 := 10

def carriageReturn : UInt8 := 13

def scalarStop : ScanMode → UInt8 → Bool
  | .skipWhitespace, c => decide (32 < c) || c == newline
  | .untilWhitespace, c => decide (c ≤ 32)

def scalarScan (mode : ScanMode) (data : List UInt8) (p : ℕ) : ℕ :=
  if p < data.length then
    if scalarStop mode (byte data p) then p else scalarScan mode data (p + 1)
  else data.length
  termination_by data.length - p

/-- Lane `i` of `cmpgt_epi8` against 32: the lanes are compared as signed bytes. -/
def gt32 (data : List UInt8) (p i : ℕ) : Bool := decide (32 < (byte data (p + i)).toInt8)

/-- Lane `i` of `cmpeq_epi8` against a newline. -/
def isNl (data : List UInt8) (p i : ℕ) : Bool := byte data (p + i) == newline

def simdMask (mode : ScanMode) (data : List UInt8) (p : ℕ) : BitVec 32 :=
  match mode with
  | .skipWhitespace => movemask 32 fun i => gt32 data p i || isNl data p i
  | .untilWhitespace => ~~~movemask 32 (gt32 data p)

def simdScan (mode : ScanMode) (data : List UInt8) (p : ℕ) : ℕ :=
  if p + 32 ≤ data.length then
    if simdMask mode data p ≠ 0 then p + (simdMask mode data p).ctz.toNat
    else simdScan mode data (p + 32)
  else scalarScan mode data p
  termination_by data.length - p

def view (data : List UInt8) (start stop : ℕ) : List UInt8 := (data.drop start).take (stop - start)

def skipWs (data : List UInt8) (ptr : ℕ) : ℕ := simdScan .skipWhitespace data ptr

def skipWsUnlessDone (data : List UInt8) (ptr : ℕ) : ℕ :=
  if ptr < data.length then skipWs data ptr else ptr

def readField (data : List UInt8) (ptr : ℕ) : List UInt8 × ℕ :=
  if data.length ≤ ptr then ([], ptr)
  else if data.length - ptr < 32 then
    let fieldEnd := scalarScan .untilWhitespace data ptr
    (view data ptr fieldEnd, skipWsUnlessDone data fieldEnd)
  else
    let wsMask := ~~~movemask 32 (gt32 data ptr)
    if wsMask = 0 then
      let fieldEnd := simdScan .untilWhitespace data (ptr + 32)
      (view data ptr fieldEnd, skipWsUnlessDone data fieldEnd)
    else
      let fieldEndOff := wsMask.ctz.toNat
      let fieldEnd := ptr + fieldEndOff
      let stopMask := movemask 32 fun i => gt32 data ptr i || isNl data ptr i
      let afterField := stopMask &&& ~~~((1#32 <<< fieldEndOff) - 1#32)
      (view data ptr fieldEnd,
        if afterField ≠ 0 then ptr + afterField.ctz.toNat else skipWsUnlessDone data fieldEnd)

def readFieldTwice (data : List UInt8) (ptr : ℕ) : (List UInt8 × List UInt8) × ℕ :=
  let first := readField data ptr
  let second := readField data first.2
  ((first.1, second.1), second.2)

def readTwoFields (data : List UInt8) (ptr : ℕ) : (List UInt8 × List UInt8) × ℕ :=
  if data.length - ptr < 32 then readFieldTwice data ptr
  else
    let printableMask := movemask 32 (gt32 data ptr)
    let wsMask := ~~~printableMask
    if wsMask = 0 then readFieldTwice data ptr
    else
      let field1EndOff := wsMask.ctz.toNat
      let nlMask := movemask 32 (isNl data ptr)
      let barrierAfterField1 := (printableMask ||| nlMask) >>> field1EndOff
      if barrierAfterField1 = 0 then readFieldTwice data ptr
      else
        let field2StartOff := field1EndOff + barrierAfterField1.ctz.toNat
        if byte data (ptr + field2StartOff) = newline ∨
            byte data (ptr + field2StartOff) = carriageReturn then
          readFieldTwice data ptr
        else
          let wsAfterField2Start := wsMask >>> field2StartOff
          if wsAfterField2Start = 0 then readFieldTwice data ptr
          else
            let field2EndOff := field2StartOff + wsAfterField2Start.ctz.toNat
            let stopAfterField2 := (printableMask ||| nlMask) >>> field2EndOff
            ((view data ptr (ptr + field1EndOff),
                view data (ptr + field2StartOff) (ptr + field2EndOff)),
              if stopAfterField2 ≠ 0 then ptr + field2EndOff + stopAfterField2.ctz.toNat
              else skipWs data (ptr + field2EndOff))

def splitField (data : List UInt8) (ptr : ℕ) : List UInt8 × ℕ :=
  let fieldEnd := scalarScan .untilWhitespace data ptr
  (view data ptr fieldEnd, scalarScan .skipWhitespace data fieldEnd)

def splitTwoFields (data : List UInt8) (ptr : ℕ) : (List UInt8 × List UInt8) × ℕ :=
  let first := splitField data ptr
  let second := splitField data first.2
  ((first.1, second.1), second.2)

end CuOpt.Io.FastScan
