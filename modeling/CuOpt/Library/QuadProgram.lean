import Mathlib

/-! Equality-form quadratic programs over finite index sets, and the reductions
that a solver applies to them together with the maps that undo them. -/

namespace QuadProgram

open Finset

structure Program (R C K : Type*) where
  rows : Finset R
  cols : Finset C
  a : R → C → K
  b : R → K
  c : C → K
  q : C → C → K
  const : K
  lower : C → Option K
  upper : C → Option K

structure Triple (R C K : Type*) where
  x : C → K
  y : R → K
  z : C → K

def InBounds {K : Type*} [LE K] (l u : Option K) (v : K) : Prop :=
  (∀ w ∈ l, w ≤ v) ∧ ∀ w ∈ u, v ≤ w

instance {K : Type*} [LE K] [DecidableLE K] (l u : Option K) (v : K) : Decidable (InBounds l u v) :=
  inferInstanceAs (Decidable ((∀ w ∈ l, w ≤ v) ∧ ∀ w ∈ u, v ≤ w))

namespace Program

section Defs

variable {R C K : Type*} [Field K]

def rowValue (P : Program R C K) (x : C → K) (i : R) : K := ∑ j ∈ P.cols, P.a i j * x j

def colValue (P : Program R C K) (y : R → K) (j : C) : K := ∑ i ∈ P.rows, P.a i j * y i

def gradient (P : Program R C K) (x : C → K) (j : C) : K := P.c j + ∑ k ∈ P.cols, P.q j k * x k

def Feasible [LE K] (P : Program R C K) (x : C → K) : Prop :=
  (∀ i ∈ P.rows, P.rowValue x i = P.b i) ∧ ∀ j ∈ P.cols, InBounds (P.lower j) (P.upper j) (x j)

def objective (P : Program R C K) (x : C → K) : K :=
  ∑ j ∈ P.cols, P.c j * x j + 1 / 2 * ∑ i ∈ P.cols, ∑ j ∈ P.cols, P.q i j * x i * x j + P.const

def shift (P : Program R C K) (s : C → K) : Program R C K :=
  { P with
    b := fun i => P.b i - P.rowValue s i
    c := fun j => P.c j + 1 / 2 * (∑ k ∈ P.cols, P.q k j * s k + ∑ k ∈ P.cols, P.q j k * s k)
    const := P.const + 1 / 2 * ∑ j ∈ P.cols, ∑ k ∈ P.cols, P.q j k * s j * s k
      + ∑ j ∈ P.cols, P.c j * s j
    lower := fun j => (P.lower j).map (· - s j)
    upper := fun j => (P.upper j).map (· - s j) }

def fixCols [DecidableEq C] (P : Program R C K) (F : Finset C) (v : C → K) : Program R C K :=
  { P with
    cols := P.cols \ F
    const := P.const + ∑ j ∈ F, (P.c j * v j + 1 / 2 * P.q j j * v j * v j) }

def Stationary (P : Program R C K) (t : Triple R C K) : Prop :=
  ∀ j ∈ P.cols, P.colValue t.y j + t.z j = P.gradient t.x j

def Symmetric (P : Program R C K) : Prop :=
  ∀ j ∈ P.cols, ∀ k ∈ P.cols, P.q j k = P.q k j

instance [LE K] [DecidableLE K] [DecidableEq K] (P : Program R C K) (x : C → K) :
    Decidable (P.Feasible x) :=
  inferInstanceAs (Decidable ((∀ i ∈ P.rows, P.rowValue x i = P.b i) ∧
    ∀ j ∈ P.cols, InBounds (P.lower j) (P.upper j) (x j)))

instance [DecidableEq K] (P : Program R C K) (t : Triple R C K) : Decidable (P.Stationary t) :=
  inferInstanceAs (Decidable (∀ j ∈ P.cols, P.colValue t.y j + t.z j = P.gradient t.x j))

lemma Stationary.congr {P : Program R C K} {t t' : Triple R C K} (ht : P.Stationary t)
    (hx : ∀ j ∈ P.cols, t'.x j = t.x j) (hy : ∀ i ∈ P.rows, t'.y i = t.y i)
    (hz : ∀ j ∈ P.cols, t'.z j = t.z j) : P.Stationary t' := by
  intro j hj
  have hcol : P.colValue t'.y j = P.colValue t.y j :=
    sum_congr rfl fun i hi => by rw [hy i hi]
  have hgrad : P.gradient t'.x j = P.gradient t.x j := by
    unfold gradient
    congr 1
    exact sum_congr rfl fun k hk => by rw [hx k hk]
  rw [hcol, hz j hj, ht j hj, hgrad]

lemma Feasible.congr [LE K] {P : Program R C K} {x x' : C → K} (hx : P.Feasible x)
    (h : ∀ j ∈ P.cols, x' j = x j) : P.Feasible x' := by
  refine ⟨fun i hi => ?_, fun j hj => by rw [h j hj]; exact hx.2 j hj⟩
  rw [← hx.1 i hi]
  exact sum_congr rfl fun j hj => by rw [h j hj]

lemma objective_congr (P : Program R C K) {x x' : C → K} (h : ∀ j ∈ P.cols, x' j = x j) :
    P.objective x' = P.objective x := by
  unfold objective
  congr 1
  congr 1
  · exact sum_congr rfl fun j hj => by rw [h j hj]
  · congr 1
    exact sum_congr rfl fun i hi => sum_congr rfl fun j hj => by rw [h i hi, h j hj]

end Defs

section Recovery

variable {R C K : Type*} [Field K]

/-- `undo` maps every triple of the reduced program to one of the original with the same
objective, and keeps stationarity. -/
structure Recovers (P' P : Program R C K) (undo : Triple R C K → Triple R C K) : Prop where
  objective_eq : ∀ t, P'.objective t.x = P.objective (undo t).x
  stationary : ∀ t, P'.Stationary t → P.Stationary (undo t)

def RecoversFeasible [LE K] (P' P : Program R C K) (undo : Triple R C K → Triple R C K) : Prop :=
  ∀ t, P'.Feasible t.x → P.Feasible (undo t).x

lemma Recovers.refl (P : Program R C K) : Recovers P P id :=
  ⟨fun _ => rfl, fun _ h => h⟩

variable {P : Program R C K} {f g : Triple R C K → Triple R C K}

lemma Recovers.trans {Q S : Program R C K} (hf : Recovers Q P f) (hg : Recovers S Q g) :
    Recovers S P (f ∘ g) :=
  ⟨fun t => (hg.objective_eq t).trans (hf.objective_eq (g t)),
    fun t h => hf.stationary (g t) (hg.stationary t h)⟩

lemma RecoversFeasible.refl [LE K] (P : Program R C K) : RecoversFeasible P P id := fun _ h => h

lemma RecoversFeasible.trans [LE K] {Q S : Program R C K} (hf : RecoversFeasible Q P f)
    (hg : RecoversFeasible S Q g) : RecoversFeasible S P (f ∘ g) :=
  fun t h => hf (g t) (hg t h)

structure SameOn (P : Program R C K) (f g : Triple R C K → Triple R C K) : Prop where
  x : ∀ t, ∀ j ∈ P.cols, (g t).x j = (f t).x j
  y : ∀ t, ∀ i ∈ P.rows, (g t).y i = (f t).y i
  z : ∀ t, ∀ j ∈ P.cols, (g t).z j = (f t).z j

lemma Recovers.congr {P' : Program R C K} (h : Recovers P' P f) (hfg : SameOn P f g) :
    Recovers P' P g :=
  ⟨fun t => (h.objective_eq t).trans (P.objective_congr (hfg.x t)).symm,
    fun t ht => (h.stationary t ht).congr (hfg.x t) (hfg.y t) (hfg.z t)⟩

lemma RecoversFeasible.congr [LE K] {P' : Program R C K} (h : RecoversFeasible P' P f)
    (hfg : SameOn P f g) : RecoversFeasible P' P g :=
  fun t ht => (h t ht).congr (hfg.x t)

structure Agree (P Q : Program R C K) : Prop where
  rows : P.rows = Q.rows
  cols : P.cols = Q.cols
  a : ∀ i ∈ Q.rows, ∀ j ∈ Q.cols, P.a i j = Q.a i j
  b : ∀ i ∈ Q.rows, P.b i = Q.b i
  c : ∀ j ∈ Q.cols, P.c j = Q.c j
  q : ∀ j ∈ Q.cols, ∀ k ∈ Q.cols, P.q j k = Q.q j k
  const : P.const = Q.const
  lower : ∀ j ∈ Q.cols, P.lower j = Q.lower j
  upper : ∀ j ∈ Q.cols, P.upper j = Q.upper j

namespace Agree

variable {P Q : Program R C K}

lemma objective (h : Agree P Q) (x : C → K) : P.objective x = Q.objective x := by
  unfold Program.objective
  rw [h.cols, h.const]
  congr 1
  congr 1
  · exact sum_congr rfl fun j hj => by rw [h.c j hj]
  · congr 1
    exact sum_congr rfl fun j hj => sum_congr rfl fun k hk => by rw [h.q j hj k hk]

lemma feasible [LE K] (h : Agree P Q) {x : C → K} (hx : P.Feasible x) : Q.Feasible x := by
  constructor
  · intro i hi
    rw [← h.b i hi, ← hx.1 i (h.rows ▸ hi)]
    unfold rowValue
    rw [h.cols]
    exact sum_congr rfl fun j hj => by rw [h.a i hi j hj]
  · intro j hj
    rw [← h.lower j hj, ← h.upper j hj]
    exact hx.2 j (h.cols ▸ hj)

lemma stationary (h : Agree P Q) {t : Triple R C K} (ht : P.Stationary t) : Q.Stationary t := by
  intro j hj
  have hstat := ht j (h.cols ▸ hj)
  unfold colValue gradient at hstat ⊢
  rw [h.rows, h.cols, h.c j hj] at hstat
  calc
    _ = ∑ i ∈ Q.rows, P.a i j * t.y i + t.z j := by
      congr 1
      exact sum_congr rfl fun i hi => by rw [h.a i hi j hj]
    _ = _ := hstat
    _ = _ := by
      congr 1
      exact sum_congr rfl fun k hk => by rw [h.q j hj k hk]

lemma recovers (h : Agree P Q) : Recovers P Q id :=
  ⟨fun t => h.objective t.x, fun _ ht => h.stationary ht⟩

lemma recoversFeasible [LE K] (h : Agree P Q) : RecoversFeasible P Q id :=
  fun _ ht => h.feasible ht

end Agree

end Recovery

end Program

end QuadProgram
