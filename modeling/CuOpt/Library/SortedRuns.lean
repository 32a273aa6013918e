import Mathlib

/-! A list cut into its runs of equal keys; in a sorted list each run has all elements of its key. -/

namespace SortedRuns

open List

variable {ι κ : Type*} [LinearOrder κ] {key : ι → κ} {l run run' : List ι} {a b : ι}

def runs (key : ι → κ) (l : List ι) : List (List ι) := l.splitBy fun a b => decide (key a = key b)

lemma flatten_runs (key : ι → κ) (l : List ι) : (runs key l).flatten = l :=
  flatten_splitBy _ l

lemma ne_nil_of_mem_runs (h : run ∈ runs key l) : run ≠ [] := ne_nil_of_mem_splitBy h

lemma mem_of_mem_run (h : run ∈ runs key l) (ha : a ∈ run) : a ∈ l := by
  rw [← flatten_runs key l]
  exact mem_flatten.mpr ⟨run, h, ha⟩

lemma exists_run (key : ι → κ) (ha : a ∈ l) : ∃ run ∈ runs key l, a ∈ run := by
  rw [← flatten_runs key l] at ha
  exact mem_flatten.mp ha

lemma runs_cons (key : ι → κ) (a : ι) (l : List ι) :
    runs key (a :: l) = (a :: l.takeWhile fun b => decide (key b = key a)) ::
      runs key (l.dropWhile fun b => decide (key b = key a)) := by
  set p : ι → Bool := fun b => decide (key b = key a) with hp
  have hsame : ∀ b ∈ a :: l.takeWhile p, key b = key a := by
    intro b hb
    rcases mem_cons.mp hb with rfl | hb
    · rfl
    · exact of_decide_eq_true (all_eq_true.mp all_takeWhile b hb)
  have hsplit : a :: l = (a :: l.takeWhile p) ++ l.dropWhile p := by
    rw [cons_append, takeWhile_append_dropWhile]
  have hpair : (a :: l.takeWhile p).Pairwise fun b c => decide (key b = key c) = true :=
    pairwise_of_forall_mem_list fun b hb c hc =>
      decide_eq_true ((hsame b hb).trans (hsame c hc).symm)
  have hborder : ∀ b ∈ (a :: l.takeWhile p).getLast?, ∀ c ∈ (l.dropWhile p).head?,
      decide (key b = key c) = false := by
    intro b hb c hc
    have hnot := head?_dropWhile_not p l
    rw [Option.mem_def.mp hc] at hnot
    have hne : ¬ key c = key a := of_decide_eq_false hnot
    refine decide_eq_false fun heq => hne ?_
    rw [← heq, hsame b (mem_of_mem_getLast? hb)]
  unfold runs
  rw [hsplit, splitBy_append hborder, splitBy_of_isChain (cons_ne_nil _ _) hpair.isChain]
  rfl

lemma key_eq_of_mem_run (h : run ∈ runs key l) (ha : a ∈ run) (hb : b ∈ run) : key a = key b := by
  have hchain : run.IsChain fun a b => key a = key b :=
    (isChain_of_mem_splitBy h).imp fun _ _ hab => of_decide_eq_true hab
  have htrans : IsTrans ι fun a b => key a = key b := ⟨fun _ _ _ hab hbc => hab.trans hbc⟩
  have hsymm : Std.Symm fun a b : ι => key a = key b := ⟨fun _ _ hab => hab.symm⟩
  have hpair : run.Pairwise fun a b => key a = key b := isChain_iff_pairwise.mp hchain
  exact List.Pairwise.forall_of_forall (R := fun a b => key a = key b) (fun _ _ => rfl) hpair ha hb

lemma runs_pairwise (hsorted : l.Pairwise fun a b => key a ≤ key b) :
    (runs key l).Pairwise fun run run' => ∀ a ∈ run, ∀ b ∈ run', key a < key b := by
  have hsplit : (runs key l).Pairwise fun run run' => ∀ a ∈ run, ∀ b ∈ run', key a ≤ key b := by
    rw [← flatten_runs key l] at hsorted
    exact (pairwise_flatten.mp hsorted).2
  have hchain := isChain_getLast_head_splitBy (fun a b => decide (key a = key b)) l
  have htrans : IsTrans (List ι) fun run run' =>
      run ≠ [] ∧ run' ≠ [] ∧ ∀ a ∈ run, ∀ b ∈ run', key a < key b := by
    constructor
    rintro run run' run'' ⟨hne, hne', hlt⟩ ⟨-, hne'', hlt'⟩
    obtain ⟨m, hm⟩ := exists_mem_of_ne_nil run' hne'
    exact ⟨hne, hne'', fun a ha b hb => (hlt a ha m hm).trans (hlt' m hm b hb)⟩
  have hstrict : (runs key l).IsChain fun run run' =>
      run ≠ [] ∧ run' ≠ [] ∧ ∀ a ∈ run, ∀ b ∈ run', key a < key b := by
    rw [isChain_iff_getElem]
    intro i hi
    obtain ⟨hne, hne', hkey⟩ := hchain.getElem i hi
    have hle := pairwise_iff_getElem.mp hsplit i (i + 1) (Nat.lt_of_succ_lt hi) hi
      (Nat.lt_succ_self i)
    have hrun := getElem_mem (Nat.lt_of_succ_lt hi)
    have hrun' := getElem_mem hi
    refine ⟨hne, hne', fun a ha b hb => lt_of_le_of_ne (hle a ha b hb) fun heq => ?_⟩
    refine of_decide_eq_false hkey ?_
    rw [key_eq_of_mem_run hrun (getLast_mem hne) ha, heq]
    exact key_eq_of_mem_run hrun' hb (head_mem hne')
  exact (isChain_iff_pairwise.mp hstrict).imp fun h => h.2.2

lemma mem_run_of_key (hsorted : l.Pairwise fun a b => key a ≤ key b) (h : run ∈ runs key l)
    (ha : a ∈ run) (hb : b ∈ l) (hkey : key b = key a) : b ∈ run := by
  obtain ⟨run', hrun', hb'⟩ := exists_run key hb
  by_contra hnot
  have hne : run ≠ run' := fun heq => hnot (heq ▸ hb')
  have hsymm : Std.Symm fun run run' : List ι => ∀ a ∈ run, ∀ b ∈ run', key a ≠ key b :=
    ⟨fun _ _ hab b hb a ha heq => hab a ha b hb heq.symm⟩
  have hapart : (runs key l).Pairwise fun run run' => ∀ a ∈ run, ∀ b ∈ run', key a ≠ key b :=
    (runs_pairwise hsorted).imp fun hlt a ha b hb => (hlt a ha b hb).ne
  exact hapart.forall h hrun' hne a ha b hb' hkey.symm

/-- Induction along a walk that cuts off the run of the first element in each step. -/
lemma walk_induction (sameRun : ι → ι → Bool) {motive : List ι → Prop} (nil : motive [])
    (cons : ∀ a l, motive (l.dropWhile (sameRun a)) → motive (a :: l)) (l : List ι) : motive l := by
  induction hn : l.length using Nat.strong_induction_on generalizing l with
  | _ n ih =>
    cases l with
    | nil => exact nil
    | cons a l =>
      have hshort : (l.dropWhile (sameRun a)).length < n := by
        rw [← hn]
        exact Nat.lt_succ_of_le (dropWhile_sublist _).length_le
      exact cons a l (ih _ hshort _ rfl)

end SortedRuns
