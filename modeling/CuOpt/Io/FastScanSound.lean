import CuOpt.Io.FastScan

/-! The lanes are compared as signed bytes and single bytes are not: where the two ways of scanning
find the same fields. -/

namespace CuOpt.Io.FastScan

open LaneScan

section Bytes

variable {data : List UInt8} {p i v q : ℕ} {mode : ScanMode}

def Blank (data : List UInt8) (i : ℕ) : Prop := byte data i ≤ 32

/-- Negative as a signed byte. -/
def High (data : List UInt8) (i : ℕ) : Prop := 128 ≤ byte data i

def Newline (data : List UInt8) (i : ℕ) : Prop := byte data i = newline

lemma High.not_blank (h : High data i) : ¬ Blank data i := by
  unfold High at h
  unfold Blank
  rw [UInt8.le_iff_toNat_le] at h ⊢
  have h128 : (128 : UInt8).toNat = 128 := rfl
  have h32 : (32 : UInt8).toNat = 32 := rfl
  omega

lemma High.lt (h : High data i) : i < data.length := by
  by_contra hge
  unfold High byte at h
  rw [List.getD_eq_default _ _ (not_lt.mp hge)] at h
  exact absurd h (by decide)

lemma Newline.blank (h : Newline data i) : Blank data i := by
  unfold Blank
  rw [h]
  decide

lemma lt_toInt8_iff (c : UInt8) : 32 < c.toInt8 ↔ ¬ c ≤ 32 ∧ ¬ 128 ≤ c := by
  have hsigned : c.toInt8.toInt = if 2 * c.toNat < 256 then (c.toNat : ℤ) else (c.toNat : ℤ) - 256 :=
    BitVec.toInt_eq_toNat_cond _
  have h32 : (32 : Int8).toInt = 32 := rfl
  have h32' : (32 : UInt8).toNat = 32 := rfl
  have h128 : (128 : UInt8).toNat = 128 := rfl
  have hlt := c.toNat_lt
  rw [Int8.lt_iff_toInt_lt, UInt8.le_iff_toNat_le, UInt8.le_iff_toNat_le, hsigned, h32, h32', h128]
  split_ifs
  · omega
  · omega

lemma gt32_iff : gt32 data p i = true ↔ ¬ Blank data (p + i) ∧ ¬ High data (p + i) := by
  rw [gt32, decide_eq_true_iff, lt_toInt8_iff]
  rfl

lemma isNl_iff : isNl data p i = true ↔ Newline data (p + i) := by
  rw [isNl, beq_iff_eq]
  rfl

def Stops : ScanMode → List UInt8 → ℕ → Prop
  | .skipWhitespace, data, i => ¬ Blank data i ∨ Newline data i
  | .untilWhitespace, data, i => Blank data i

def LaneStops : ScanMode → List UInt8 → ℕ → Prop
  | .skipWhitespace, data, i => (¬ Blank data i ∨ Newline data i) ∧ ¬ High data i
  | .untilWhitespace, data, i => Blank data i ∨ High data i

lemma scalarStop_iff : scalarStop mode (byte data i) = true ↔ Stops mode data i := by
  cases mode with
  | skipWhitespace =>
    rw [scalarStop, Bool.or_eq_true, decide_eq_true_iff, beq_iff_eq]
    exact or_congr UInt8.not_le.symm .rfl
  | untilWhitespace =>
    rw [scalarStop, decide_eq_true_iff]
    rfl

lemma laneStops_skip_iff : LaneStops .skipWhitespace data i ↔
    (¬ Blank data i ∧ ¬ High data i) ∨ Newline data i := by
  constructor
  · rintro ⟨hprint | hnl, hlow⟩
    · exact .inl ⟨hprint, hlow⟩
    · exact .inr hnl
  · rintro (⟨hprint, hlow⟩ | hnl)
    · exact ⟨.inl hprint, hlow⟩
    · exact ⟨.inr hnl, fun hhigh => hhigh.not_blank hnl.blank⟩

lemma scalarScan_isFirst (mode : ScanMode) (hp : p ≤ data.length) :
    IsFirst (Stops mode data) p data.length (scalarScan mode data p) := by
  induction p using scalarScan.induct mode data with
  | case1 p hlt hstop =>
    rw [scalarScan, if_pos hlt, if_pos hstop]
    exact isFirst_here hlt (scalarStop_iff.mp hstop)
  | case2 p hlt hstop ih =>
    rw [scalarScan, if_pos hlt, if_neg hstop]
    refine (ih hlt).extend (Nat.le_succ p) fun i hi hip hs => hstop (scalarStop_iff.mpr ?_)
    rwa [Nat.le_antisymm (Nat.le_of_lt_succ hip) hi] at hs
  | case3 p hge =>
    rw [scalarScan, if_neg hge, Nat.le_antisymm hp (not_lt.mp hge)]
    exact isFirst_end _ _

lemma printable_selects (data : List UInt8) (p : ℕ) : Selects (movemask 32 (gt32 data p)) p 0 32
    fun i => ¬ Blank data i ∧ ¬ High data i :=
  selects_movemask fun _ _ => gt32_iff

lemma whitespace_selects (data : List UInt8) (p : ℕ) :
    Selects (~~~movemask 32 (gt32 data p)) p 0 32 (LaneStops .untilWhitespace data) :=
  (printable_selects data p).not.congr fun i => by rw [not_and_or, not_not, not_not]; rfl

lemma newline_selects (data : List UInt8) (p : ℕ) :
    Selects (movemask 32 (isNl data p)) p 0 32 (Newline data) :=
  selects_movemask fun _ _ => isNl_iff

lemma stop_selects (data : List UInt8) (p : ℕ) :
    Selects (movemask 32 fun i => gt32 data p i || isNl data p i) p 0 32
      (LaneStops .skipWhitespace data) :=
  selects_movemask fun i _ => by rw [Bool.or_eq_true, gt32_iff, isNl_iff, laneStops_skip_iff]

lemma simdMask_selects (mode : ScanMode) (data : List UInt8) (p : ℕ) :
    Selects (simdMask mode data p) p 0 32 (LaneStops mode data) := by
  cases mode with
  | skipWhitespace => exact stop_selects data p
  | untilWhitespace => exact whitespace_selects data p

def vectorEnd (data : List UInt8) (p : ℕ) : ℕ := p + 32 * ((data.length - p) / 32)

lemma vectorEnd_of_lt (h : data.length < p + 32) : vectorEnd data p = p := by
  unfold vectorEnd
  omega

lemma vectorEnd_add (h : p + 32 ≤ data.length) : vectorEnd data (p + 32) = vectorEnd data p := by
  unfold vectorEnd
  omega

lemma add_le_vectorEnd (h : p + 32 ≤ data.length) : p + 32 ≤ vectorEnd data p := by
  unfold vectorEnd
  omega

def MixedStops (mode : ScanMode) (data : List UInt8) (v i : ℕ) : Prop :=
  if i < v then LaneStops mode data i else Stops mode data i

lemma simdScan_isFirst (mode : ScanMode) (hp : p ≤ data.length) :
    IsFirst (MixedStops mode data (vectorEnd data p)) p data.length (simdScan mode data p) := by
  induction p using simdScan.induct mode data with
  | case1 p hwindow hne =>
    rw [simdScan, if_pos hwindow, if_pos hne]
    obtain ⟨hfirst, hlt⟩ := (simdMask_selects mode data p).isFirst hne
    have hinside : ∀ i, p ≤ i → i < p + 32 →
        (LaneStops mode data i ↔ MixedStops mode data (vectorEnd data p) i) := by
      intro i _ hi
      rw [MixedStops, if_pos (hi.trans_le (add_le_vectorEnd hwindow))]
    exact (hfirst.congr hinside).widen hlt hwindow
  | case2 p hwindow hzero ih =>
    rw [simdScan, if_pos hwindow, if_neg hzero]
    have hnone := ((simdMask_selects mode data p).eq_zero_iff le_rfl).mp (not_not.mp hzero)
    have ih := ih hwindow
    rw [vectorEnd_add hwindow] at ih
    refine ih.extend (Nat.le_add_right p 32) fun i hi hlt hs => hnone i hi hlt ?_
    rwa [MixedStops, if_pos (hlt.trans_le (add_le_vectorEnd hwindow))] at hs
  | case3 p hwindow =>
    rw [simdScan, if_neg hwindow, vectorEnd_of_lt (not_le.mp hwindow)]
    refine (scalarScan_isFirst mode hp).congr fun i hi _ => ?_
    rw [MixedStops, if_neg (not_lt.mpr hi)]

/-- Until white space the lanes stop too early, at high bytes. -/
lemma simdScan_until (hp : p ≤ data.length) :
    IsFirst (fun i => Blank data i ∨ (High data i ∧ i < vectorEnd data p)) p data.length
      (simdScan .untilWhitespace data p) := by
  refine (simdScan_isFirst .untilWhitespace hp).congr fun i _ _ => ?_
  unfold MixedStops
  split_ifs with hlt
  · exact or_congr .rfl ⟨fun h => ⟨h, hlt⟩, fun h => h.1⟩
  · exact ⟨fun h => .inl h, fun h => h.resolve_right fun hhigh => hlt hhigh.2⟩

/-- Skipping white space the lanes go too far, over high bytes. -/
lemma simdScan_skip (hp : p ≤ data.length) :
    IsFirst (fun i => (¬ Blank data i ∨ Newline data i) ∧ ¬ (High data i ∧ i < vectorEnd data p)) p
      data.length (simdScan .skipWhitespace data p) := by
  refine (simdScan_isFirst .skipWhitespace hp).congr fun i _ _ => ?_
  unfold MixedStops
  split_ifs with hlt
  · exact and_congr .rfl (not_congr ⟨fun h => ⟨h, hlt⟩, fun h => h.1⟩)
  · exact ⟨fun h => ⟨h, fun hhigh => hlt hhigh.2⟩, fun h => h.1⟩

end Bytes

section Read

variable {data : List UInt8} {p f g q w i window : ℕ}

/-- A high byte that is passed over behind `f`: a lane behind it stops in the load that ends at
`window`, or it lies in the loads from `f` on. -/
def Skips (data : List UInt8) (window f i : ℕ) : Prop :=
  High data i ∧ ((window ≤ data.length ∧
    ∃ j, i < j ∧ j < window ∧ LaneStops .skipWhitespace data j) ∨ i < vectorEnd data f)

def IsNext (data : List UInt8) (window f q : ℕ) : Prop :=
  IsFirst (fun i => Stops .skipWhitespace data i ∧ ¬ Skips data window f i) f data.length q

lemma isNext_of_lane (h : IsFirst (LaneStops .skipWhitespace data) f window w) (hw : w < window)
    (hwindow : window ≤ data.length) : IsNext data window f w := by
  refine ⟨h.le, (hw.trans_le hwindow).le, fun i hi hlt hs => ?_, fun _ => ?_⟩
  · have hhigh : High data i := by
      by_contra hlow
      exact h.before i hi hlt ⟨hs.1, hlow⟩
    exact hs.2 ⟨hhigh, .inl ⟨hwindow, w, hlt, hw, h.stops hw⟩⟩
  · exact ⟨(h.stops hw).1, fun hskips => (h.stops hw).2 hskips.1⟩

lemma isNext_of_skipWs (hf : f ≤ data.length) (hnone : window ≤ data.length → ∀ i, f ≤ i →
    i < window → ¬ LaneStops .skipWhitespace data i) : IsNext data window f (skipWs data f) := by
  refine (simdScan_skip hf).congr fun i hi _ => and_congr .rfl (not_congr ?_)
  constructor
  · exact fun h => ⟨h.1, .inr h.2⟩
  · rintro ⟨hhigh, ⟨hwindow, j, hij, hj, hs⟩ | hlt⟩
    · exact absurd hs (hnone hwindow j (hi.trans hij.le) hj)
    · exact ⟨hhigh, hlt⟩

lemma skipWsUnlessDone_eq (hf : f ≤ data.length) : skipWsUnlessDone data f = skipWs data f := by
  unfold skipWsUnlessDone
  split_ifs with hlt
  · rfl
  · have hend : f = data.length := Nat.le_antisymm hf (not_lt.mp hlt)
    have h := simdScan_skip hf
    exact Nat.le_antisymm h.le (h.le_end.trans hend.ge)

lemma view_self (data : List UInt8) (p : ℕ) : view data p p = [] := by
  rw [view, Nat.sub_self, List.take_zero]

lemma readField_spec (hp : p ≤ data.length) :
    (readField data p).1 = view data p (simdScan .untilWhitespace data p) ∧
      IsNext data (p + 32) (simdScan .untilWhitespace data p) (readField data p).2 := by
  have hfield := simdScan_until hp
  unfold readField
  by_cases hdone : data.length ≤ p
  · have hend : simdScan .untilWhitespace data p = p :=
      Nat.le_antisymm (hfield.le_end.trans hdone) hfield.le
    rw [if_pos hdone, hend, view_self]
    refine ⟨rfl, ?_⟩
    rw [Nat.le_antisymm hp hdone]
    exact isFirst_end _ _
  rw [if_neg hdone]
  by_cases hshort : data.length - p < 32
  · have hwindow : ¬ p + 32 ≤ data.length := by omega
    have hscan : simdScan .untilWhitespace data p = scalarScan .untilWhitespace data p := by
      rw [simdScan, if_neg hwindow]
    rw [if_pos hshort, ← hscan]
    dsimp only
    rw [skipWsUnlessDone_eq hfield.le_end]
    exact ⟨rfl, isNext_of_skipWs hfield.le_end fun h => absurd h hwindow⟩
  have hwindow : p + 32 ≤ data.length := by omega
  have hmask : simdMask .untilWhitespace data p = ~~~movemask 32 (gt32 data p) := rfl
  rw [if_neg hshort]
  dsimp only
  by_cases hzero : ~~~movemask 32 (gt32 data p) = 0
  · have hscan : simdScan .untilWhitespace data p = simdScan .untilWhitespace data (p + 32) := by
      rw [simdScan, if_pos hwindow, hmask, if_neg (not_not.mpr hzero)]
    have hbehind : p + 32 ≤ simdScan .untilWhitespace data p := by
      rw [hscan]
      exact (simdScan_until hwindow).le
    rw [if_pos hzero, ← hscan, skipWsUnlessDone_eq hfield.le_end]
    exact ⟨rfl, isNext_of_skipWs hfield.le_end fun _ i hi hlt => absurd (hbehind.trans hi) hlt.not_ge⟩
  · have hscan : simdScan .untilWhitespace data p =
        p + (~~~movemask 32 (gt32 data p)).ctz.toNat := by
      rw [simdScan, if_pos hwindow, hmask, if_pos hzero]
    have hoff : (~~~movemask 32 (gt32 data p)).ctz.toNat < 32 :=
      Nat.lt_of_add_lt_add_left ((whitespace_selects data p).isFirst hzero).2
    have hafter := (stop_selects data p).clearBelow hoff
    rw [if_neg hzero, ← hscan]
    refine ⟨rfl, ?_⟩
    dsimp only
    split_ifs with hne
    · obtain ⟨hfirst, hlt⟩ := hafter.isFirst hne
      rw [← hscan] at hfirst
      exact isNext_of_lane hfirst hlt hwindow
    · rw [skipWsUnlessDone_eq hfield.le_end]
      refine isNext_of_skipWs hfield.le_end fun _ i hi hlt => ?_
      rw [hscan] at hi
      exact (hafter.eq_zero_iff le_rfl).mp (not_not.mp hne) i hi hlt

def FastPath (data : List UInt8) (p g : ℕ) : Prop :=
  p + 32 ≤ data.length ∧ g < p + 32 ∧ ¬ Blank data g ∧ ¬ High data g ∧
    ∃ j, g ≤ j ∧ j < p + 32 ∧ LaneStops .untilWhitespace data j

lemma readTwoFields_spec (hp : p ≤ data.length) :
    (FastPath data p (readField data p).2 ∧ ∃ f next,
      readTwoFields data p = ((view data p (simdScan .untilWhitespace data p),
        view data (readField data p).2 f), next) ∧
      IsFirst (LaneStops .untilWhitespace data) (readField data p).2 data.length f ∧
      IsNext data (p + 32) f next) ∨
    (¬ FastPath data p (readField data p).2 ∧ readTwoFields data p = readFieldTwice data p) := by
  obtain ⟨-, hnext⟩ := readField_spec hp
  set g := (readField data p).2 with hg
  have hfield := simdScan_until hp
  have hmask : simdMask .untilWhitespace data p = ~~~movemask 32 (gt32 data p) := rfl
  have hpg : p ≤ g := hfield.le.trans hnext.le
  by_cases hshort : data.length - p < 32
  · right
    refine ⟨fun hfast => ?_, by rw [readTwoFields, if_pos hshort]⟩
    have hwindow := hfast.1
    omega
  have hwindow : p + 32 ≤ data.length := by omega
  rw [readTwoFields, if_neg hshort]
  dsimp only
  by_cases hws : ~~~movemask 32 (gt32 data p) = 0
  · right
    refine ⟨fun ⟨_, _, _, _, j, hj, hlt, hs⟩ => ?_, if_pos hws⟩
    exact ((whitespace_selects data p).eq_zero_iff le_rfl).mp hws j (hpg.trans hj) hlt hs
  rw [if_neg hws]
  -- The load holds the end of the first field.
  have hscan : simdScan .untilWhitespace data p = p + (~~~movemask 32 (gt32 data p)).ctz.toNat := by
    rw [simdScan, if_pos hwindow, hmask, if_pos hws]
  have hoff : (~~~movemask 32 (gt32 data p)).ctz.toNat < 32 :=
    Nat.lt_of_add_lt_add_left ((whitespace_selects data p).isFirst hws).2
  generalize (~~~movemask 32 (gt32 data p)).ctz.toNat = off at hscan hoff ⊢
  have hstop : Selects (movemask 32 (gt32 data p) ||| movemask 32 (isNl data p)) p 0 32
      (LaneStops .skipWhitespace data) :=
    ((printable_selects data p).or (newline_selects data p)).congr fun i => laneStops_skip_iff.symm
  have hbarrier := hstop.shiftRight off
  have hlast : p + off + (32 - off) = p + 32 := by omega
  by_cases hnone : (movemask 32 (gt32 data p) ||| movemask 32 (isNl data p)) >>> off = 0
  · right
    refine ⟨fun ⟨_, hlt, hprint, hlow, _⟩ => ?_, if_pos hnone⟩
    have hclear := (hbarrier.eq_zero_iff (Nat.sub_le 32 off)).mp hnone
    rw [hlast] at hclear
    exact hclear g (hscan ▸ hnext.le) hlt ⟨.inl hprint, hlow⟩
  rw [if_neg hnone]
  -- The load holds the place behind the blanks, which is where `readField` stops, too.
  obtain ⟨hfirst, hlt⟩ := hbarrier.isFirst hnone
  generalize ((movemask 32 (gt32 data p) ||| movemask 32 (isNl data p)) >>> off).ctz.toNat = rel
    at hfirst hlt ⊢
  rw [hlast] at hfirst hlt
  rw [add_zero, ← hscan] at hfirst
  rw [← hscan] at hlt
  have hplace : g = p + (off + rel) := by
    have hlane := isNext_of_lane hfirst hlt hwindow
    rw [hscan, add_assoc] at hlane
    rw [hscan] at hnext
    exact hnext.unique hlane
  have hprintable : byte data g ≠ newline → ¬ Blank data g ∧ ¬ High data g := by
    intro hne
    have hstops := hfirst.stops hlt
    rw [hscan, add_assoc, ← hplace] at hstops
    exact (laneStops_skip_iff.mp hstops).resolve_right hne
  rw [hscan, add_assoc, ← hplace] at hlt
  rw [← hplace]
  by_cases hline : byte data g = newline ∨ byte data g = carriageReturn
  · right
    refine ⟨fun ⟨_, _, hprint, _⟩ => hprint ?_, if_pos hline⟩
    unfold Blank
    rcases hline with hline | hline
    · rw [hline]
      decide
    · rw [hline]
      decide
  obtain ⟨hprint, hlow⟩ := hprintable fun heq => hline (.inl heq)
  rw [if_neg hline]
  have hend := (whitespace_selects data p).shiftRight (off + rel)
  have hlast' : p + (off + rel) + (32 - (off + rel)) = p + 32 := by omega
  by_cases hopen : (~~~movemask 32 (gt32 data p)) >>> (off + rel) = 0
  · right
    refine ⟨fun ⟨_, _, _, _, j, hj, hjlt, hs⟩ => ?_, if_pos hopen⟩
    have hclear := (hend.eq_zero_iff (Nat.sub_le 32 _)).mp hopen
    rw [hlast', add_zero, ← hplace] at hclear
    exact hclear j hj hjlt hs
  rw [if_neg hopen]
  left
  obtain ⟨hsecond, hlt'⟩ := hend.isFirst hopen
  generalize ((~~~movemask 32 (gt32 data p)) >>> (off + rel)).ctz.toNat = rel2 at hsecond hlt' ⊢
  rw [hlast'] at hsecond hlt'
  rw [add_zero, ← hplace] at hsecond
  rw [add_assoc] at hlt'
  have hf : p + (off + rel + rel2) = g + rel2 := by omega
  rw [hf] at hlt' ⊢
  have hle : g + rel2 ≤ data.length := hlt'.le.trans hwindow
  refine ⟨⟨hwindow, hlt, hprint, hlow, g + rel2, hsecond.le, hlt', hsecond.stops hlt'⟩, g + rel2, ?_⟩
  have hafter := hstop.shiftRight (off + rel + rel2)
  have hlast'' : p + (off + rel + rel2) + (32 - (off + rel + rel2)) = p + 32 := by omega
  by_cases hbehind : (movemask 32 (gt32 data p) ||| movemask 32 (isNl data p)) >>>
      (off + rel + rel2) ≠ 0
  · rw [if_pos hbehind, ← hscan]
    obtain ⟨hthird, hlt''⟩ := hafter.isFirst hbehind
    rw [hlast''] at hthird hlt''
    rw [add_zero, hf] at hthird
    rw [hf] at hlt''
    exact ⟨_, rfl, hsecond.widen hlt' hwindow, isNext_of_lane hthird hlt'' hwindow⟩
  · rw [if_neg hbehind, ← hscan]
    refine ⟨_, rfl, hsecond.widen hlt' hwindow, isNext_of_skipWs hle fun _ i hi hilt => ?_⟩
    have hclear := (hafter.eq_zero_iff (Nat.sub_le 32 _)).mp (not_not.mp hbehind)
    rw [hlast'', add_zero, hf] at hclear
    exact hclear i hi hilt

end Read

section Agree

variable {data : List UInt8} {p f g q next window : ℕ} {extra : ℕ → Prop}

def fieldEnd (data : List UInt8) (p : ℕ) : ℕ := scalarScan .untilWhitespace data p

def nextStart (data : List UInt8) (p : ℕ) : ℕ := scalarScan .skipWhitespace data (fieldEnd data p)

lemma fieldEnd_isFirst (hp : p ≤ data.length) :
    IsFirst (Blank data) p data.length (fieldEnd data p) :=
  scalarScan_isFirst .untilWhitespace hp

lemma nextStart_isFirst (hp : p ≤ data.length) :
    IsFirst (Stops .skipWhitespace data) (fieldEnd data p) data.length (nextStart data p) :=
  scalarScan_isFirst .skipWhitespace (fieldEnd_isFirst hp).le_end

lemma nextStart_le (hp : p ≤ data.length) : nextStart data p ≤ data.length :=
  (nextStart_isFirst hp).le_end

def Clear (data : List UInt8) (p stop : ℕ) : Prop :=
  ∀ i, p ≤ i → i < stop → ¬ (High data i ∧ i < vectorEnd data p)

lemma simdScan_until_eq_iff (hp : p ≤ data.length) :
    simdScan .untilWhitespace data p = fieldEnd data p ↔ Clear data p (fieldEnd data p) :=
  (fieldEnd_isFirst hp).eq_iff_of_or (simdScan_until hp)

lemma simdScan_skip_eq_iff (hp : p ≤ data.length) :
    simdScan .skipWhitespace data p = scalarScan .skipWhitespace data p ↔
      ¬ (High data (scalarScan .skipWhitespace data p) ∧
        scalarScan .skipWhitespace data p < vectorEnd data p) :=
  (scalarScan_isFirst .skipWhitespace hp).eq_iff_of_and (simdScan_skip hp) fun h => h.1.lt

lemma IsNext.eq_iff (h : IsNext data window (fieldEnd data p) q) (hp : p ≤ data.length) :
    q = nextStart data p ↔ ¬ Skips data window (fieldEnd data p) (nextStart data p) :=
  (nextStart_isFirst hp).eq_iff_of_and h fun hskips => hskips.1.lt

lemma view_length (hf : f ≤ data.length) : (view data p f).length = f - p := by
  rw [view, List.length_take, List.length_drop]
  omega

lemma view_inj (hp : p ≤ f) (hf : f ≤ data.length) (hq : p ≤ q) (hqn : q ≤ data.length) :
    view data p f = view data p q ↔ f = q := by
  constructor
  · intro heq
    have hlen := congrArg List.length heq
    rw [view_length hf, view_length hqn] at hlen
    omega
  · exact fun heq => congrArg _ heq

/-- The load finds the same field and the same next one. -/
lemma readField_eq_iff (hp : p ≤ data.length) : readField data p = splitField data p ↔
    Clear data p (fieldEnd data p) ∧ ¬ Skips data (p + 32) (fieldEnd data p) (nextStart data p) := by
  obtain ⟨hview, hnext⟩ := readField_spec hp
  have hlane := simdScan_until hp
  have hend := fieldEnd_isFirst hp
  have hsplit : readField data p = splitField data p ↔
      simdScan .untilWhitespace data p = fieldEnd data p ∧
        (readField data p).2 = nextStart data p := by
    rw [← view_inj hlane.le hlane.le_end hend.le hend.le_end, ← hview]
    exact Prod.ext_iff
  rw [hsplit, ← simdScan_until_eq_iff hp]
  refine and_congr_right fun heq => ?_
  rw [heq] at hnext
  exact hnext.eq_iff hp

/-- A field that is found behind a skipped byte is another one, or the place behind it is. -/
lemma start_eq_of_view (hp : p ≤ data.length) (hg : IsNext data window (fieldEnd data p) g)
    (hend : IsFirst (fun i => Blank data i ∨ extra i) g data.length f) (hle : f ≤ next)
    (hview : view data g f = view data (nextStart data p) (fieldEnd data (nextStart data p)))
    (hnext : next = nextStart data (nextStart data p)) : g = nextStart data p := by
  have hstart := nextStart_le hp
  have hsecond := fieldEnd_isFirst hstart
  have hthird := nextStart_isFirst hstart
  by_contra hne
  have hhigh : High data (nextStart data p) := by
    by_contra hlow
    exact hne ((hg.eq_iff hp).mpr fun hskips => hlow hskips.1)
  have hprint := hhigh.not_blank
  have hlater : nextStart data p < g := lt_of_le_of_ne
    ((nextStart_isFirst hp).le_of_weaker hg fun _ h => h.1) (Ne.symm hne)
  have hlong : nextStart data p < fieldEnd data (nextStart data p) := by
    refine lt_of_le_of_ne hsecond.le fun heq => ?_
    have hstops := hsecond.stops
    rw [← heq] at hstops
    exact hprint (hstops hhigh.lt)
  have hlen := congrArg List.length hview
  rw [view_length hend.le_end, view_length hsecond.le_end] at hlen
  have hgf : g < f := by omega
  have hgprint : ¬ Blank data g := fun hblank => hend.before g le_rfl hgf (.inl hblank)
  rcases lt_or_ge g (fieldEnd data (nextStart data p)) with hinside | hbehind
  · have hshorter : f ≤ fieldEnd data (nextStart data p) := by
      by_contra hlt
      have hlt := not_le.mp hlt
      exact hend.before _ hinside.le hlt (.inl (hsecond.stops (hlt.trans_le hend.le_end)))
    omega
  · have hfound := hthird.le_of_stop hbehind (.inl hgprint)
    omega

/-- Two fields are read as they are split exactly when their four ends agree. -/
lemma readTwoFields_eq_iff_ends (hp : p ≤ data.length)
    (hfields : readTwoFields data p = ((view data p (simdScan .untilWhitespace data p),
      view data (readField data p).2 f), next))
    (hend : IsFirst (fun i => Blank data i ∨ extra i) (readField data p).2 data.length f)
    (hnext : IsNext data window f next) :
    readTwoFields data p = splitTwoFields data p ↔
      simdScan .untilWhitespace data p = fieldEnd data p ∧
      (readField data p).2 = nextStart data p ∧ f = fieldEnd data (nextStart data p) ∧
      next = nextStart data (nextStart data p) := by
  obtain ⟨-, hg⟩ := readField_spec hp
  have hlane := simdScan_until hp
  have hfirst := fieldEnd_isFirst hp
  have hsplit : splitTwoFields data p = ((view data p (fieldEnd data p),
      view data (nextStart data p) (fieldEnd data (nextStart data p))),
        nextStart data (nextStart data p)) := rfl
  rw [hfields, hsplit, Prod.mk_inj, Prod.mk_inj,
    view_inj hlane.le hlane.le_end hfirst.le hfirst.le_end]
  constructor
  · rintro ⟨⟨hone, hview⟩, hlast⟩
    rw [hone] at hg
    have hstart := start_eq_of_view hp hg hend hnext.le hview hlast
    have hsecond := fieldEnd_isFirst (nextStart_le hp)
    rw [hstart] at hview hend
    exact ⟨hone, hstart, (view_inj hend.le hend.le_end hsecond.le hsecond.le_end).mp hview, hlast⟩
  · rintro ⟨hone, hstart, htwo, hlast⟩
    rw [hstart, htwo]
    exact ⟨⟨hone, rfl⟩, hlast⟩

/-- What the second field needs: the load from `p` on finds it, or it is read from its own start. -/
structure SecondClear (data : List UInt8) (p : ℕ) : Prop where
  fast : FastPath data p (nextStart data p) →
    (∀ i, nextStart data p ≤ i → i < fieldEnd data (nextStart data p) → ¬ High data i) ∧
      ¬ Skips data (p + 32) (fieldEnd data (nextStart data p)) (nextStart data (nextStart data p))
  slow : ¬ FastPath data p (nextStart data p) →
    Clear data (nextStart data p) (fieldEnd data (nextStart data p)) ∧
      ¬ Skips data (nextStart data p + 32) (fieldEnd data (nextStart data p))
        (nextStart data (nextStart data p))

lemma secondClear_fast (h : FastPath data p (nextStart data p)) : SecondClear data p ↔
    (∀ i, nextStart data p ≤ i → i < fieldEnd data (nextStart data p) → ¬ High data i) ∧
      ¬ Skips data (p + 32) (fieldEnd data (nextStart data p)) (nextStart data (nextStart data p)) :=
  ⟨fun hclear => hclear.fast h, fun hclear => ⟨fun _ => hclear, fun hslow => absurd h hslow⟩⟩

lemma secondClear_slow (h : ¬ FastPath data p (nextStart data p)) : SecondClear data p ↔
    Clear data (nextStart data p) (fieldEnd data (nextStart data p)) ∧
      ¬ Skips data (nextStart data p + 32) (fieldEnd data (nextStart data p))
        (nextStart data (nextStart data p)) :=
  ⟨fun hclear => hclear.slow h, fun hclear => ⟨fun hfast => absurd hfast h, fun _ => hclear⟩⟩

lemma readTwoFields_eq_iff (hp : p ≤ data.length) :
    readTwoFields data p = splitTwoFields data p ↔ Clear data p (fieldEnd data p) ∧
      ¬ Skips data (p + 32) (fieldEnd data p) (nextStart data p) ∧ SecondClear data p := by
  obtain ⟨-, hg⟩ := readField_spec hp
  have hstart := nextStart_le hp
  rcases readTwoFields_spec hp with ⟨hfast, f, next, hfields, hend, hnext⟩ | ⟨hslow, hfields⟩
  · rw [readTwoFields_eq_iff_ends hp hfields hend hnext, ← simdScan_until_eq_iff hp]
    refine and_congr_right fun hone => ?_
    rw [hone] at hg
    rw [← hg.eq_iff hp]
    refine and_congr_right fun htwo => ?_
    rw [htwo] at hend hfast
    rw [secondClear_fast hfast, ← (fieldEnd_isFirst hstart).eq_iff_of_or hend]
    refine and_congr_right fun hthree => ?_
    rw [hthree] at hnext
    exact hnext.eq_iff hstart
  · have hle := hg.le_end
    obtain ⟨hview, hnext⟩ := readField_spec hle
    have hfields : readTwoFields data p = ((view data p (simdScan .untilWhitespace data p),
        view data (readField data p).2 (simdScan .untilWhitespace data (readField data p).2)),
          (readField data (readField data p).2).2) := by
      rw [hfields, ← (readField_spec hp).1, ← hview]
      rfl
    rw [readTwoFields_eq_iff_ends hp hfields (simdScan_until hle) hnext, ← simdScan_until_eq_iff hp]
    refine and_congr_right fun hone => ?_
    rw [hone] at hg
    rw [← hg.eq_iff hp]
    refine and_congr_right fun htwo => ?_
    rw [htwo] at hnext hslow ⊢
    rw [secondClear_slow hslow, ← simdScan_until_eq_iff hstart]
    refine and_congr_right fun hthree => ?_
    rw [hthree] at hnext
    exact hnext.eq_iff hstart

/-- Lanes and single bytes scan alike from `p` on, and the fields are read as they are split. -/
structure Agrees (data : List UInt8) (p : ℕ) : Prop where
  skip : simdScan .skipWhitespace data p = scalarScan .skipWhitespace data p
  field_end : simdScan .untilWhitespace data p = scalarScan .untilWhitespace data p
  field : readField data p = splitField data p
  two_fields : readTwoFields data p = splitTwoFields data p

/-- No byte from 128 on is loaded in a place that decides: before the end of the first field, where
white space ends, at the start of the second field, within it and where the white space behind it
ends. -/
structure Unambiguous (data : List UInt8) (p : ℕ) : Prop where
  skip : ¬ (High data (scalarScan .skipWhitespace data p) ∧
    scalarScan .skipWhitespace data p < vectorEnd data p)
  field_end : Clear data p (fieldEnd data p)
  next_start : ¬ Skips data (p + 32) (fieldEnd data p) (nextStart data p)
  second : SecondClear data p

theorem agrees_iff (data : List UInt8) (p : Fin (data.length + 1)) :
    Agrees data p ↔ Unambiguous data p := by
  have hp : (p : ℕ) ≤ data.length := Nat.le_of_lt_succ p.isLt
  constructor
  · rintro ⟨hskip, -, -, htwo⟩
    obtain ⟨hend, hnext, hsecond⟩ := (readTwoFields_eq_iff hp).mp htwo
    exact ⟨(simdScan_skip_eq_iff hp).mp hskip, hend, hnext, hsecond⟩
  · rintro ⟨hskip, hend, hnext, hsecond⟩
    exact ⟨(simdScan_skip_eq_iff hp).mpr hskip, (simdScan_until_eq_iff hp).mpr hend,
      (readField_eq_iff hp).mpr ⟨hend, hnext⟩, (readTwoFields_eq_iff hp).mpr ⟨hend, hnext, hsecond⟩⟩

def accentedName : List UInt8 := [0xC3, 0xA9] ++ List.replicate 30 0x61

theorem accentedName_disagrees : ¬ Agrees accentedName 0 := by
  intro hagrees
  have hclear := (simdScan_until_eq_iff (Nat.zero_le _)).mp hagrees.field_end
  have hhigh : High accentedName 0 := by
    unfold High
    decide
  have hpos : 0 < fieldEnd accentedName 0 := by
    refine Nat.pos_of_ne_zero fun hzero => hhigh.not_blank ?_
    have hstops := (fieldEnd_isFirst (Nat.zero_le accentedName.length)).stops
    rw [hzero] at hstops
    exact hstops hhigh.lt
  exact hclear 0 le_rfl hpos ⟨hhigh, by decide⟩

end Agree

end CuOpt.Io.FastScan
