import Mathlib

/-! Runs of a machine whose step may be impossible, and invariants of the runs whose steps all meet a
condition. -/

namespace CuOpt

section Runs

variable {σ α : Type} (step : σ → α → Option σ)

def runFrom (s : σ) : List α → Option σ
  | [] => some s
  | a :: as => (step s a).bind fun s' => runFrom s' as

def Along (P : σ → α → Prop) (s : σ) : List α → Prop
  | [] => True
  | a :: as => P s a ∧ ∀ s', step s a = some s' → Along P s' as

instance Along.decidable (P : σ → α → Prop) [∀ s a, Decidable (P s a)] (s : σ) :
    (as : List α) → Decidable (Along step P s as)
  | [] => isTrue trivial
  | a :: as =>
    match h : step s a with
    | none => decidable_of_iff (P s a) (by simp [Along, h])
    | some t =>
      have : Decidable (Along step P t as) := Along.decidable P t as
      decidable_of_iff (P s a ∧ Along step P t as) (by simp [Along, h])

variable {step} {s s' : σ} {a : α} {as : List α} {I : σ → Prop} {P Q : σ → α → Prop}

lemma runFrom_cons (h : runFrom step s (a :: as) = some s') :
    ∃ t, step s a = some t ∧ runFrom step t as = some s' :=
  Option.bind_eq_some_iff.mp h

lemma along_append {bs : List α} (halong : Along step P s (as ++ bs))
    (hrun : runFrom step s as = some s') : Along step P s' bs := by
  induction as generalizing s with
  | nil =>
    cases hrun
    exact halong
  | cons a as ih =>
    obtain ⟨t, hfirst, hrest⟩ := runFrom_cons hrun
    exact ih (halong.2 t hfirst) hrest

lemma invariant_of_along (hstep : ∀ s a s', I s → P s a → step s a = some s' → I s')
    (hinit : I s) (halong : Along step P s as) (hrun : runFrom step s as = some s') : I s' := by
  induction as generalizing s with
  | nil =>
    cases hrun
    exact hinit
  | cons a as ih =>
    obtain ⟨t, hfirst, hrest⟩ := runFrom_cons hrun
    have ht : I t := hstep s a t hinit halong.1 hfirst
    exact ih ht (halong.2 t hfirst) hrest

lemma along_true : Along step (fun _ _ => True) s as := by
  induction as generalizing s with
  | nil => trivial
  | cons a as ih => exact ⟨trivial, fun t _ => ih⟩

lemma invariant_of_run (hstep : ∀ s a s', I s → step s a = some s' → I s') (hinit : I s)
    (hrun : runFrom step s as = some s') : I s' :=
  invariant_of_along (fun s a s' hs _ => hstep s a s' hs) hinit along_true hrun

lemma exists_of_not_along (h : ¬ Along step P s as) (hrun : runFrom step s as = some s') :
    ∃ before a after t t', as = before ++ a :: after ∧ Along step P s before ∧
      runFrom step s before = some t ∧ ¬ P t a ∧ step t a = some t' ∧
      runFrom step t' after = some s' := by
  induction as generalizing s with
  | nil => exact absurd trivial h
  | cons a as ih =>
    obtain ⟨t, hfirst, hrest⟩ := runFrom_cons hrun
    by_cases hP : P s a
    · have hlater : ¬ Along step P t as := by
        intro hall
        refine h ⟨hP, fun t' ht' => ?_⟩
        rw [hfirst] at ht'
        cases ht'
        exact hall
      obtain ⟨before, b, after, u, u', rfl, hbefore, hu, hb, hstep, hafter⟩ := ih hlater hrest
      refine ⟨a :: before, b, after, u, u', rfl, ⟨hP, fun t' ht' => ?_⟩, ?_, hb, hstep, hafter⟩
      · rw [hfirst] at ht'
        cases ht'
        exact hbefore
      · rw [runFrom, hfirst]
        exact hu
    · exact ⟨[], a, as, s, t, rfl, trivial, rfl, hP, hfirst, hrest⟩

end Runs

end CuOpt
