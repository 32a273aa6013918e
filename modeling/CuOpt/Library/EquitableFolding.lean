import CuOpt.Library.QuadProgram

/-! Folding a linear program by an equitable partition of its rows and columns: rows of a class are
averaged, columns of a class are added. -/

namespace QuadProgram.Program

open Finset

section Folding

variable {R R' C C' K : Type*} [DecidableEq R'] [DecidableEq C'] [Field K]

def fiber {α β : Type*} [DecidableEq β] (s : Finset α) (f : α → β) (b : β) : Finset α :=
  s.filter fun a => f a = b

/-- `P'` has a row for each class of rows of `P` and a column for each class of columns. -/
structure IsFold (P' : Program R' C' K) (P : Program R C K) (f : R → R') (g : C → C') : Prop where
  rows : P'.rows = P.rows.image f
  cols : P'.cols = P.cols.image g
  row_sum : ∀ i ∈ P.rows, ∀ k ∈ P.rows, f i = f k → ∀ s,
    ∑ j ∈ fiber P.cols g s, P.a i j = ∑ j ∈ fiber P.cols g s, P.a k j
  col_sum : ∀ j ∈ P.cols, ∀ k ∈ P.cols, g j = g k → ∀ r,
    ∑ i ∈ fiber P.rows f r, P.a i j = ∑ i ∈ fiber P.rows f r, P.a i k
  b_eq : ∀ i ∈ P.rows, ∀ k ∈ P.rows, f i = f k → P.b i = P.b k
  c_eq : ∀ j ∈ P.cols, ∀ k ∈ P.cols, g j = g k → P.c j = P.c k
  a : ∀ r ∈ P'.rows, ∀ s ∈ P'.cols, P'.a r s =
    (∑ i ∈ fiber P.rows f r, ∑ j ∈ fiber P.cols g s, P.a i j) / (fiber P.rows f r).card
  b : ∀ r ∈ P'.rows, P'.b r = (∑ i ∈ fiber P.rows f r, P.b i) / (fiber P.rows f r).card
  c : ∀ s ∈ P'.cols, P'.c s = ∑ j ∈ fiber P.cols g s, P.c j
  q : ∀ j ∈ P.cols, ∀ k ∈ P.cols, P.q j k = 0
  q' : ∀ s ∈ P'.cols, ∀ t ∈ P'.cols, P'.q s t = 0
  const : P'.const = P.const
  lower : ∀ j ∈ P.cols, P.lower j = some 0
  upper : ∀ j ∈ P.cols, P.upper j = none
  lower' : ∀ s ∈ P'.cols, P'.lower s = some 0
  upper' : ∀ s ∈ P'.cols, P'.upper s = none

def average {α β : Type*} [DecidableEq β] (s : Finset α) (f : α → β) (x : α → K) (b : β) : K :=
  (∑ a ∈ fiber s f b, x a) / (fiber s f b).card

def share {α β : Type*} [DecidableEq β] (s : Finset α) (f : α → β) (y : β → K) (a : α) : K :=
  y (f a) / (fiber s f (f a)).card

section Fibers

variable {α β : Type*} [DecidableEq β] {s : Finset α} {f : α → β} {a : α} {b : β}

lemma mem_fiber : a ∈ fiber s f b ↔ a ∈ s ∧ f a = b := mem_filter

lemma fiber_nonempty : (fiber s f b).Nonempty ↔ b ∈ s.image f := by
  rw [mem_image]
  constructor
  · rintro ⟨a, ha⟩
    exact ⟨a, (mem_fiber.mp ha).1, (mem_fiber.mp ha).2⟩
  · rintro ⟨a, ha, hb⟩
    exact ⟨a, mem_fiber.mpr ⟨ha, hb⟩⟩

lemma card_fiber_ne_zero [CharZero K] (h : b ∈ s.image f) : ((fiber s f b).card : K) ≠ 0 :=
  Nat.cast_ne_zero.mpr (card_ne_zero.mpr (fiber_nonempty.mpr h))

lemma sum_fiber (s : Finset α) (f : α → β) (x : α → K) :
    ∑ b ∈ s.image f, ∑ a ∈ fiber s f b, x a = ∑ a ∈ s, x a :=
  sum_fiberwise_of_maps_to (fun _ ha => mem_image_of_mem f ha) x

lemma sum_fiber_const {x : α → K} {k : K} (h : ∀ a ∈ fiber s f b, x a = k) :
    ∑ a ∈ fiber s f b, x a = (fiber s f b).card * k := by
  rw [sum_congr rfl h, sum_const, nsmul_eq_mul]

lemma average_const [CharZero K] {x : α → K} {k : K} (hb : b ∈ s.image f)
    (h : ∀ a ∈ fiber s f b, x a = k) : average s f x b = k := by
  rw [average, sum_fiber_const h, mul_div_cancel_left₀ _ (card_fiber_ne_zero hb)]

lemma card_mul_average [CharZero K] (x : α → K) (hb : b ∈ s.image f) :
    (fiber s f b).card * average s f x b = ∑ a ∈ fiber s f b, x a :=
  mul_div_cancel₀ _ (card_fiber_ne_zero hb)

end Fibers

variable {P' : Program R' C' K} {P : Program R C K} {f : R → R'} {g : C → C'}

namespace IsFold

lemma map_row (h : IsFold P' P f g) {i : R} (hi : i ∈ P.rows) : f i ∈ P'.rows := by
  rw [h.rows]
  exact mem_image_of_mem f hi

lemma map_col (h : IsFold P' P f g) {j : C} (hj : j ∈ P.cols) : g j ∈ P'.cols := by
  rw [h.cols]
  exact mem_image_of_mem g hj

variable [CharZero K]

lemma a_eq_row_sum (h : IsFold P' P f g) {i : R} (hi : i ∈ P.rows) {s : C'} (hs : s ∈ P'.cols) :
    P'.a (f i) s = ∑ j ∈ fiber P.cols g s, P.a i j := by
  rw [h.a _ (h.map_row hi) s hs]
  apply average_const (f := f) (mem_image_of_mem f hi)
  intro k hk
  obtain ⟨hk, hf⟩ := mem_fiber.mp hk
  exact h.row_sum k hk i hi hf s

/-- The sum of a column over a class of rows, by the entries of the folded matrix. -/
lemma card_mul_a (h : IsFold P' P f g) {j : C} (hj : j ∈ P.cols) {r : R'} (hr : r ∈ P'.rows) :
    (fiber P.rows f r).card * P'.a r (g j) =
      (fiber P.cols g (g j)).card * ∑ i ∈ fiber P.rows f r, P.a i j := by
  have hr' : r ∈ P.rows.image f := h.rows ▸ hr
  rw [h.a r hr _ (h.map_col hj), mul_div_cancel₀ _ (card_fiber_ne_zero hr'), sum_comm]
  apply sum_fiber_const (f := g)
  intro k hk
  obtain ⟨hk, hg⟩ := mem_fiber.mp hk
  exact h.col_sum k hk j hj hg r

lemma b_apply (h : IsFold P' P f g) {i : R} (hi : i ∈ P.rows) : P'.b (f i) = P.b i := by
  rw [h.b _ (h.map_row hi)]
  apply average_const (f := f) (mem_image_of_mem f hi)
  intro k hk
  obtain ⟨hk, hf⟩ := mem_fiber.mp hk
  exact h.b_eq k hk i hi hf

omit [CharZero K] in
theorem c_apply (h : IsFold P' P f g) {j : C} (hj : j ∈ P.cols) :
    P'.c (g j) = (fiber P.cols g (g j)).card * P.c j := by
  rw [h.c _ (h.map_col hj)]
  apply sum_fiber_const
  intro k hk
  obtain ⟨hk, hg⟩ := mem_fiber.mp hk
  exact h.c_eq k hk j hj hg

lemma rowValue_lift (h : IsFold P' P f g) (x : C' → K) {i : R} (hi : i ∈ P.rows) :
    P.rowValue (fun j => x (g j)) i = P'.rowValue x (f i) := by
  unfold rowValue
  rw [h.cols, ← sum_fiber P.cols g]
  apply sum_congr rfl
  intro s hs
  have hs' : s ∈ P'.cols := h.cols ▸ hs
  rw [h.a_eq_row_sum hi hs', sum_mul]
  apply sum_congr rfl
  intro j hj
  show P.a i j * x (g j) = P.a i j * x s
  rw [(mem_fiber.mp hj).2]

lemma feasible_lift [LE K] (h : IsFold P' P f g) {x : C' → K} (hx : P'.Feasible x) :
    P.Feasible fun j => x (g j) := by
  constructor
  · intro i hi
    rw [h.rowValue_lift x hi, hx.1 _ (h.map_row hi), h.b_apply hi]
  · intro j hj
    have hbound := hx.2 _ (h.map_col hj)
    rw [h.lower' _ (h.map_col hj), h.upper' _ (h.map_col hj)] at hbound
    rw [h.lower j hj, h.upper j hj]
    exact hbound

omit [DecidableEq R'] [DecidableEq C'] [CharZero K] in
theorem objective_linear {P : Program R C K} (hq : ∀ j ∈ P.cols, ∀ k ∈ P.cols, P.q j k = 0)
    (x : C → K) : P.objective x = ∑ j ∈ P.cols, P.c j * x j + P.const := by
  have hzero : ∑ i ∈ P.cols, ∑ j ∈ P.cols, P.q i j * x i * x j = 0 := by
    apply sum_eq_zero
    intro i hi
    apply sum_eq_zero
    intro j hj
    rw [hq i hi j hj, zero_mul, zero_mul]
  rw [objective, hzero, mul_zero, add_zero]

omit [CharZero K] in
theorem objective_lift (h : IsFold P' P f g) (x : C' → K) :
    P.objective (fun j => x (g j)) = P'.objective x := by
  rw [objective_linear h.q, objective_linear h.q', h.const, h.cols, ← sum_fiber P.cols g]
  congr 1
  apply sum_congr rfl
  intro s hs
  rw [h.c s (h.cols ▸ hs), sum_mul]
  apply sum_congr rfl
  intro j hj
  show P.c j * x (g j) = P.c j * x s
  rw [(mem_fiber.mp hj).2]

lemma rowValue_average (h : IsFold P' P f g) (x : C → K) {r : R'} (hr : r ∈ P'.rows) :
    P'.rowValue (average P.cols g x) r = average P.rows f (P.rowValue x) r := by
  have hr' : r ∈ P.rows.image f := h.rows ▸ hr
  rw [average, eq_div_iff (card_fiber_ne_zero hr'), mul_comm]
  unfold rowValue
  rw [mul_sum, sum_comm, ← sum_fiber P.cols g, h.cols]
  apply sum_congr rfl
  intro s hs
  obtain ⟨j, hj, rfl⟩ := mem_image.mp hs
  calc
    (fiber P.rows f r).card * (P'.a r (g j) * average P.cols g x (g j)) =
        (fiber P.rows f r).card * P'.a r (g j) * average P.cols g x (g j) := (mul_assoc _ _ _).symm
    _ = (∑ i ∈ fiber P.rows f r, P.a i j) *
        ((fiber P.cols g (g j)).card * average P.cols g x (g j)) := by
      rw [h.card_mul_a hj hr]
      ring
    _ = (∑ i ∈ fiber P.rows f r, P.a i j) * ∑ k ∈ fiber P.cols g (g j), x k := by
      rw [card_mul_average x hs]
    _ = ∑ k ∈ fiber P.cols g (g j), ∑ i ∈ fiber P.rows f r, P.a i k * x k := by
      rw [mul_sum]
      apply sum_congr rfl
      intro k hk
      obtain ⟨hk, hg⟩ := mem_fiber.mp hk
      rw [h.col_sum j hj k hk hg.symm r, sum_mul]

lemma feasible_average [LinearOrder K] [IsStrictOrderedRing K] (h : IsFold P' P f g) {x : C → K}
    (hx : P.Feasible x) : P'.Feasible (average P.cols g x) := by
  constructor
  · intro r hr
    rw [h.rowValue_average x hr, h.b r hr, average]
    congr 1
    apply sum_congr rfl
    intro i hi
    exact hx.1 i (mem_fiber.mp hi).1
  · intro s hs
    rw [h.lower' s hs, h.upper' s hs]
    refine ⟨fun w hw => ?_, nofun⟩
    cases hw
    apply div_nonneg _ (Nat.cast_nonneg _)
    apply sum_nonneg
    intro j hj
    have hmem := (mem_fiber.mp hj).1
    have hbound := (hx.2 j hmem).1 0
    rw [h.lower j hmem] at hbound
    exact hbound rfl

lemma objective_average (h : IsFold P' P f g) (x : C → K) :
    P'.objective (average P.cols g x) = P.objective x := by
  rw [objective_linear h.q, objective_linear h.q', h.const, h.cols, ← sum_fiber P.cols g]
  congr 1
  apply sum_congr rfl
  intro s hs
  obtain ⟨j, hj, rfl⟩ := mem_image.mp hs
  rw [h.c_apply hj, mul_right_comm, card_mul_average x hs, sum_mul]
  apply sum_congr rfl
  intro k hk
  obtain ⟨hk, hg⟩ := mem_fiber.mp hk
  rw [h.c_eq j hj k hk hg.symm, mul_comm]

lemma colValue_share (h : IsFold P' P f g) (y : R' → K) {j : C} (hj : j ∈ P.cols) :
    P.colValue (share P.rows f y) j = P'.colValue y (g j) / (fiber P.cols g (g j)).card := by
  have hg : g j ∈ P.cols.image g := mem_image_of_mem g hj
  rw [eq_div_iff (card_fiber_ne_zero hg)]
  unfold colValue
  rw [h.rows, ← sum_fiber P.rows f, sum_mul]
  apply sum_congr rfl
  intro r hr
  have hcard : ((fiber P.rows f r).card : K) ≠ 0 := card_fiber_ne_zero hr
  have hentry := h.card_mul_a hj (h.rows ▸ hr)
  have hsum : ∑ i ∈ fiber P.rows f r, P.a i j * share P.rows f y i =
      (∑ i ∈ fiber P.rows f r, P.a i j) * (y r / (fiber P.rows f r).card) := by
    rw [sum_mul]
    apply sum_congr rfl
    intro i hi
    rw [share, (mem_fiber.mp hi).2]
  rw [hsum]
  calc
    (∑ i ∈ fiber P.rows f r, P.a i j) * (y r / (fiber P.rows f r).card) *
        (fiber P.cols g (g j)).card =
        (fiber P.cols g (g j)).card * (∑ i ∈ fiber P.rows f r, P.a i j) *
          (y r / (fiber P.rows f r).card) := by ring
    _ = P'.a r (g j) * ((fiber P.rows f r).card * (y r / (fiber P.rows f r).card)) := by
      rw [← hentry]
      ring
    _ = P'.a r (g j) * y r := by rw [mul_div_cancel₀ _ hcard]

/-- Multipliers and reduced costs of the folded program, shared out, are stationary. -/
lemma stationary_share (h : IsFold P' P f g) {t : Triple R' C' K} (ht : P'.Stationary t) :
    P.Stationary ⟨fun j => t.x (g j), share P.rows f t.y, share P.cols g t.z⟩ := by
  intro j hj
  have hg : g j ∈ P.cols.image g := mem_image_of_mem g hj
  have hcard : ((fiber P.cols g (g j)).card : K) ≠ 0 := card_fiber_ne_zero hg
  have hfold := ht _ (h.map_col hj)
  have hgrad' : P'.gradient t.x (g j) = P'.c (g j) := by
    rw [gradient, sum_eq_zero, add_zero]
    intro k hk
    rw [h.q' _ (h.map_col hj) k hk, zero_mul]
  have hgrad : P.gradient (fun j => t.x (g j)) j = P.c j := by
    rw [gradient, sum_eq_zero, add_zero]
    intro k hk
    rw [h.q j hj k hk, zero_mul]
  rw [hgrad', h.c_apply hj] at hfold
  show P.colValue (share P.rows f t.y) j + share P.cols g t.z j = P.gradient _ j
  rw [hgrad, h.colValue_share t.y hj, share, ← add_div, hfold, mul_div_cancel_left₀ _ hcard]

end IsFold

end Folding

end QuadProgram.Program
