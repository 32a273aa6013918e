import CuOpt.Presolve.BveForcings

/-! The fixings and forcings of a block are the ones that hold on all its admitted patterns, and
applying them keeps every assignment that the block admits. -/

namespace CuOpt.Presolve

open BooleanCubes List
open Bool (toNat_lt)

namespace ForcingMasks

structure Sized (nb : ℕ) (acc : ForcingMasks) : Prop where
  andAcc : acc.andAcc.length = 2 * nb + 1
  orAcc : acc.orAcc.length = 2 * nb + 1

variable {l : List ℕ}

lemma getD_modify_self {f : ℕ → ℕ} {s : ℕ} (hs : s < l.length) :
    (l.modify s f).getD s 0 = f (l.getD s 0) := by
  rw [getD_eq_getElem _ _ (by rw [length_modify]; exact hs), getElem_modify_eq,
    getD_eq_getElem _ _ hs]

lemma getD_modify_of_ne {f : ℕ → ℕ} {s t : ℕ} (hne : s ≠ t) :
    (l.modify s f).getD t 0 = l.getD t 0 := by
  rw [getD_eq_getElem?_getD, getD_eq_getElem?_getD, getElem?_modify]
  cases l[t]? with
  | none => rfl
  | some v =>
    show (if s = t then f v else v) = v
    exact if_neg hne

section Record

variable {nb : ℕ} {acc : ForcingMasks} {m s t k : ℕ}

lemma Sized.record (h : acc.Sized nb) : (acc.record m s).Sized nb where
  andAcc := by
    rw [ForcingMasks.record, length_modify]
    exact h.andAcc
  orAcc := by
    rw [ForcingMasks.record, length_modify]
    exact h.orAcc

lemma allSet_record (h : acc.Sized nb) (ht : t < 2 * nb + 1) :
    (acc.record m s).allSet t k = true ↔ acc.allSet t k = true ∧ (s = t → m.testBit k = true) := by
  rw [allSet, allSet, record]
  rcases eq_or_ne s t with rfl | hne
  · rw [getD_modify_self (h.andAcc.symm ▸ ht), Nat.testBit_and, Bool.and_eq_true]
    exact and_congr_right fun _ => ⟨fun hbit _ => hbit, fun hbit => hbit rfl⟩
  · rw [getD_modify_of_ne hne]
    exact ⟨fun hset => ⟨hset, fun heq => absurd heq hne⟩, And.left⟩

lemma anySet_record (h : acc.Sized nb) (ht : t < 2 * nb + 1) :
    (acc.record m s).anySet t k = true ↔ acc.anySet t k = true ∨ s = t ∧ m.testBit k = true := by
  rw [anySet, anySet, record]
  rcases eq_or_ne s t with rfl | hne
  · rw [getD_modify_self (h.orAcc.symm ▸ ht), Nat.testBit_or, Bool.or_eq_true]
    exact or_congr_right ⟨fun hbit => ⟨rfl, hbit⟩, And.right⟩
  · rw [getD_modify_of_ne hne]
    exact ⟨.inl, fun hor => hor.resolve_right fun hboth => hne hboth.1⟩

lemma foldl_record (h : acc.Sized nb) (ht : t < 2 * nb + 1) (l : List ℕ) :
    (l.foldl (fun acc s => acc.record m s) acc).Sized nb ∧
    (l.foldl (fun acc s => acc.record m s) acc).nFeasible = acc.nFeasible ∧
    ((l.foldl (fun acc s => acc.record m s) acc).allSet t k = true ↔
      acc.allSet t k = true ∧ (t ∈ l → m.testBit k = true)) ∧
    ((l.foldl (fun acc s => acc.record m s) acc).anySet t k = true ↔
      acc.anySet t k = true ∨ t ∈ l ∧ m.testBit k = true) := by
  induction l generalizing acc with
  | nil => simp [h]
  | cons s l ih =>
    rw [foldl_cons]
    obtain ⟨hsized, hcount, hall, hany⟩ := ih (h.record (m := m) (s := s))
    refine ⟨hsized, hcount, ?_, ?_⟩
    · rw [hall, allSet_record h ht, mem_cons, and_assoc, or_imp]
      rw [eq_comm (a := t)]
    · rw [hany, anySet_record h ht, mem_cons, or_and_right, or_assoc]
      rw [eq_comm (a := t)]

lemma mem_slots {nb m s : ℕ} : s ∈ slots nb m ↔
    s = 2 * nb ∨ ∃ j < nb, 2 * j + (m.testBit j).toNat = s := by
  have hbit : ∀ j, (m >>> j) &&& 1 = (m.testBit j).toNat := by
    intro j
    rw [Nat.and_one_is_mod, Nat.shiftRight_eq_div_pow, Nat.toNat_testBit]
  simp only [slots, mem_cons, mem_map, mem_range, hbit]

lemma mem_slots_condition {nb m j : ℕ} (hj : j < nb) (a : Bool) :
    2 * j + a.toNat ∈ slots nb m ↔ m.testBit j = a := by
  rw [mem_slots]
  have ha := toNat_lt a
  constructor
  · rintro (heq | ⟨i, hi, heq⟩)
    · omega
    · have hm := toNat_lt (m.testBit i)
      obtain rfl : i = j := by omega
      have hsame : (m.testBit i).toNat = a.toNat := by omega
      cases hbit : m.testBit i <;> cases a <;> simp_all
  · rintro rfl
    exact .inr ⟨j, hj, rfl⟩

end Record

structure Holds (nb : ℕ) (admits : ℕ → Bool) (l : List ℕ) (acc : ForcingMasks) : Prop where
  sized : acc.Sized nb
  none_iff : acc.nFeasible = 0 ↔ ∀ m ∈ l, admits m = false
  allSet : ∀ t < 2 * nb + 1, ∀ k < nb, acc.allSet t k = true ↔
    ∀ m ∈ l, admits m = true → t ∈ slots nb m → m.testBit k = true
  anySet : ∀ t < 2 * nb + 1, ∀ k < nb, acc.anySet t k = true ↔
    ∃ m ∈ l, admits m = true ∧ t ∈ slots nb m ∧ m.testBit k = true

lemma start_holds (nb : ℕ) (admits : ℕ → Bool) : (start nb).Holds nb admits [] where
  sized := ⟨length_replicate, length_replicate⟩
  none_iff := by simp [start]
  allSet t ht k hk := by
    have hset : ForcingMasks.allSet (start nb) t k = true := by
      rw [ForcingMasks.allSet, start, getD_eq_getElem _ _ (by rwa [length_replicate]),
        getElem_replicate, Nat.testBit_two_pow_sub_one]
      exact decide_eq_true hk
    exact ⟨nofun, fun _ => hset⟩
  anySet t ht k hk := by
    have hclear : ForcingMasks.anySet (start nb) t k = false := by
      rw [ForcingMasks.anySet, start, getD_eq_getElem _ _ (by rwa [length_replicate]),
        getElem_replicate, Nat.zero_testBit]
    rw [hclear]
    simp

lemma Holds.addPattern {nb : ℕ} {admits : ℕ → Bool} {acc : ForcingMasks}
    (h : acc.Holds nb admits l) (m : ℕ) :
    (addPattern nb admits acc m).Holds nb admits (l ++ [m]) := by
  rw [ForcingMasks.addPattern]
  have hlast : ∀ p : ℕ → Prop, (∀ x ∈ l ++ [m], p x) ↔ (∀ x ∈ l, p x) ∧ p m := by
    intro p
    rw [forall_mem_append, forall_mem_singleton]
  have hex : ∀ p : ℕ → Prop, (∃ x ∈ l ++ [m], p x) ↔ (∃ x ∈ l, p x) ∨ p m := by
    intro p
    simp only [mem_append, mem_singleton, or_and_right, exists_or, exists_eq_left]
  cases hadmitted : admits m with
  | false =>
    rw [if_neg Bool.false_ne_true]
    refine ⟨h.sized, ?_, fun t ht k hk => ?_, fun t ht k hk => ?_⟩
    · rw [h.none_iff, hlast, and_iff_left hadmitted]
    · rw [h.allSet t ht k hk, hlast, and_iff_left]
      rw [hadmitted]
      exact nofun
    · rw [h.anySet t ht k hk, hex, or_iff_left]
      rw [hadmitted]
      exact fun hfalse => absurd hfalse.1 Bool.false_ne_true
  | true =>
    rw [if_pos rfl]
    have hsized : ({ acc with nFeasible := acc.nFeasible + 1 } : ForcingMasks).Sized nb :=
      ⟨h.sized.andAcc, h.sized.orAcc⟩
    have hspec := fun t (ht : t < 2 * nb + 1) k =>
      foldl_record (m := m) (k := k) hsized ht (slots nb m)
    refine ⟨(hspec 0 (by omega) 0).1, ?_, fun t ht k hk => ?_, fun t ht k hk => ?_⟩
    · rw [(hspec 0 (by omega) 0).2.1, hlast, hadmitted]
      simp
    · rw [(hspec t ht k).2.2.1, hlast, hadmitted]
      exact and_congr (h.allSet t ht k hk) ⟨fun hbit _ => hbit, fun hbit => hbit rfl⟩
    · rw [(hspec t ht k).2.2.2, hex, hadmitted]
      exact or_congr (h.anySet t ht k hk) ⟨fun hbit => ⟨rfl, hbit⟩, And.right⟩

lemma accumulate_holds (nb : ℕ) (admits : ℕ → Bool) :
    (accumulate nb admits).Holds nb admits (range (2 ^ nb)) := by
  rw [accumulate]
  induction 2 ^ nb with
  | zero => exact start_holds nb admits
  | succ n ih =>
    rw [range_succ, foldl_concat]
    exact ih.addPattern n

end ForcingMasks

namespace BveCandidate

variable (cand : BveCandidate)

def Empty : Prop := ∀ m < 2 ^ cand.blk.nb, cand.admits m = false

def AllAt (j : ℕ) (b : Bool) : Prop :=
  ∀ m < 2 ^ cand.blk.nb, cand.admits m = true → m.testBit j = b

def Fixed (j : ℕ) : Prop := ∃ b, cand.AllAt j b

def Forces (j : ℕ) (a : Bool) (k : ℕ) (b : Bool) : Prop :=
  ∀ m < 2 ^ cand.blk.nb, cand.admits m = true → m.testBit j = a → m.testBit k = b

variable {cand}

lemma exists_of_not_allAt {j : ℕ} {b : Bool} (h : ¬ cand.AllAt j b) :
    ∃ m < 2 ^ cand.blk.nb, cand.admits m = true ∧ m.testBit j = !b := by
  rw [AllAt] at h
  push Not at h
  obtain ⟨m, hm, hadmitted, hne⟩ := h
  exact ⟨m, hm, hadmitted, Bool.eq_not_of_ne hne⟩

/-- Where `j` is not fixed each of its values occurs, so it forces at most one value. -/
lemma Forces.unique {j k : ℕ} {a b c : Bool} (hj : ¬ cand.Fixed j) (hb : cand.Forces j a k b)
    (hc : cand.Forces j a k c) : b = c := by
  obtain ⟨m, hm, hadmitted, hbit⟩ := exists_of_not_allAt fun h => hj ⟨!a, h⟩
  rw [Bool.not_not] at hbit
  exact (hb m hm hadmitted hbit).symm.trans (hc m hm hadmitted hbit)

section Masks

variable {acc : ForcingMasks} {j k : ℕ}

section

variable (h : acc.Holds cand.blk.nb cand.admits (range (2 ^ cand.blk.nb)))
  (hj : j < cand.blk.nb)
include h hj

lemma allSet_unconditional : acc.allSet (2 * cand.blk.nb) j = true ↔ cand.AllAt j true := by
  rw [h.allSet _ (by omega) j hj]
  constructor
  · intro hall m hm hadmitted
    exact hall m (mem_range.mpr hm) hadmitted (ForcingMasks.mem_slots.mpr (.inl rfl))
  · intro hall m hm hadmitted _
    exact hall m (mem_range.mp hm) hadmitted

lemma anySet_unconditional : acc.anySet (2 * cand.blk.nb) j = false ↔ cand.AllAt j false := by
  rw [← Bool.not_eq_true, h.anySet _ (by omega) j hj]
  constructor
  · intro hnone m hm hadmitted
    apply Bool.eq_false_of_not_eq_true
    intro hbit
    exact hnone ⟨m, mem_range.mpr hm, hadmitted, ForcingMasks.mem_slots.mpr (.inl rfl), hbit⟩
  · rintro hall ⟨m, hm, hadmitted, -, hbit⟩
    exact Bool.false_ne_true ((hall m (mem_range.mp hm) hadmitted).symm.trans hbit)

lemma allSet_condition (hk : k < cand.blk.nb) (a : Bool) :
    acc.allSet (2 * j + a.toNat) k = true ↔ cand.Forces j a k true := by
  have ha := toNat_lt a
  rw [h.allSet _ (by omega) k hk]
  constructor
  · intro hall m hm hadmitted hbit
    exact hall m (mem_range.mpr hm) hadmitted ((ForcingMasks.mem_slots_condition hj a).mpr hbit)
  · intro hall m hm hadmitted hslot
    exact hall m (mem_range.mp hm) hadmitted ((ForcingMasks.mem_slots_condition hj a).mp hslot)

lemma anySet_condition (hk : k < cand.blk.nb) (a : Bool) :
    acc.anySet (2 * j + a.toNat) k = false ↔ cand.Forces j a k false := by
  have ha := toNat_lt a
  rw [← Bool.not_eq_true, h.anySet _ (by omega) k hk]
  constructor
  · intro hnone m hm hadmitted hbit
    apply Bool.eq_false_of_not_eq_true
    intro hset
    exact hnone ⟨m, mem_range.mpr hm, hadmitted,
      (ForcingMasks.mem_slots_condition hj a).mpr hbit, hset⟩
  · rintro hall ⟨m, hm, hadmitted, hslot, hset⟩
    have hclear := hall m (mem_range.mp hm) hadmitted
      ((ForcingMasks.mem_slots_condition hj a).mp hslot)
    exact Bool.false_ne_true (hclear.symm.trans hset)

lemma testBit_fixedMask : (acc.fixedMask cand.blk.nb).testBit j = true ↔ cand.Fixed j := by
  have hand := allSet_unconditional h hj
  have hor := anySet_unconditional h hj
  rw [ForcingMasks.allSet] at hand
  rw [ForcingMasks.anySet] at hor
  rw [ForcingMasks.fixedMask, Nat.testBit_or, Nat.testBit_ldiff, Nat.testBit_two_pow_sub_one,
    decide_eq_true hj, Bool.true_and, Bool.or_eq_true, Bool.not_eq_true', hand, hor]
  constructor
  · rintro (h | h)
    · exact ⟨true, h⟩
    · exact ⟨false, h⟩
  · rintro ⟨b, hb⟩
    cases b with
    | false => exact .inr hb
    | true => exact .inl hb

end

end Masks

section Extract

variable {acc : ForcingMasks} {j k : ℕ}

lemma forcedAt_eq_some_iff (h : acc.Holds cand.blk.nb cand.admits (range (2 ^ cand.blk.nb)))
    (hj : j < cand.blk.nb) (hk : k < cand.blk.nb) (hfree : ¬ cand.Fixed j) (a : Bool)
    (f : ProbeForcing) : forcedAt cand acc j a k = some f ↔
      k ≠ j ∧ ¬ cand.Fixed k ∧ ∃ b, cand.Forces j a k b ∧
        f = ⟨cand.boundary.getD j 0, cand.boundary.getD k 0, a, b⟩ := by
  have hall := allSet_condition h hj hk a
  have hany := anySet_condition h hj hk a
  rw [forcedAt]
  by_cases hskip : k = j ∨ (acc.fixedMask cand.blk.nb).testBit k = true
  · rw [if_pos hskip]
    constructor
    · intro hnone
      cases hnone
    · rintro ⟨hne, hk', -⟩
      rcases hskip with heq | hfixed
      · exact absurd heq hne
      · exact absurd ((testBit_fixedMask h hk).mp hfixed) hk'
  · rw [if_neg hskip]
    rw [not_or, testBit_fixedMask h hk] at hskip
    rw [and_iff_right hskip.1, and_iff_right hskip.2]
    by_cases hset : acc.allSet (2 * j + a.toNat) k = true
    · rw [if_pos hset]
      have hforce := hall.mp hset
      constructor
      · intro hf
        exact ⟨true, hforce, (Option.some.inj hf).symm⟩
      · rintro ⟨b, hb, rfl⟩
        rw [hforce.unique hfree hb]
    · rw [if_neg hset]
      cases hclear : acc.anySet (2 * j + a.toNat) k with
      | false =>
        have hforce := hany.mp hclear
        rw [if_pos (by rfl)]
        constructor
        · intro hf
          exact ⟨false, hforce, (Option.some.inj hf).symm⟩
        · rintro ⟨b, hb, rfl⟩
          rw [hforce.unique hfree hb]
      | true =>
        rw [if_neg (by simp)]
        constructor
        · intro hf
          cases hf
        · rintro ⟨b, hb, -⟩
          cases b with
          | false => exact absurd ((hany.mpr hb).symm.trans hclear) Bool.false_ne_true
          | true => exact absurd (hall.mpr hb) hset

end Extract

/-- What is emitted for a block that admits some pattern: the literals that hold throughout, and the
implications that hold between the other positions. -/
structure Exact (cand : BveCandidate) (fixings : List (ℕ × Bool)) (forcings : List ProbeForcing) :
    Prop where
  fixed : ∀ v b, (v, b) ∈ fixings ↔ ∃ j < cand.blk.nb, cand.boundary.getD j 0 = v ∧ cand.AllAt j b
  forced : ∀ f, f ∈ forcings ↔ ∃ j < cand.blk.nb, ∃ k < cand.blk.nb, k ≠ j ∧
    ¬ cand.Fixed j ∧ ¬ cand.Fixed k ∧ ∃ a b, cand.Forces j a k b ∧
      f = ⟨cand.boundary.getD j 0, cand.boundary.getD k 0, a, b⟩

lemma bveExtractForcings_spec (cand : BveCandidate) (out : ProbeFindings) :
    ∃ fixings forcings, bveExtractForcings cand out =
        ⟨out.forcings ++ forcings, out.fixings ++ fixings⟩ ∧
      (cand.Empty → fixings = [] ∧ forcings = []) ∧
      (¬ cand.Empty → cand.Exact fixings forcings) := by
  have h := ForcingMasks.accumulate_holds cand.blk.nb cand.admits
  have hempty : (ForcingMasks.accumulate cand.blk.nb cand.admits).nFeasible = 0 ↔ cand.Empty := by
    rw [h.none_iff]
    exact forall_congr' fun m => by rw [mem_range]
  rw [bveExtractForcings]
  dsimp only
  generalize ForcingMasks.accumulate cand.blk.nb cand.admits = acc at h hempty ⊢
  split_ifs with hzero
  · refine ⟨[], [], ?_, fun _ => ⟨rfl, rfl⟩, fun hne => absurd (hempty.mp hzero) hne⟩
    rw [append_nil, append_nil]
  · refine ⟨_, _, rfl, fun he => absurd (hempty.mpr he) hzero, fun hne => ⟨fun v b => ?_, fun f => ?_⟩⟩
    · rw [mem_filterMap]
      constructor
      · rintro ⟨j, hj, hsome⟩
        rw [mem_range] at hj
        split_ifs at hsome with hfixed
        cases hsome
        refine ⟨j, hj, rfl, ?_⟩
        obtain ⟨b, hb⟩ := (testBit_fixedMask h hj).mp hfixed
        cases hset : acc.allSet (2 * cand.blk.nb) j with
        | true => exact (allSet_unconditional h hj).mp hset
        | false =>
          cases b with
          | false => exact hb
          | true => exact absurd (hset.symm.trans ((allSet_unconditional h hj).mpr hb)) (by decide)
      · rintro ⟨j, hj, rfl, hall⟩
        refine ⟨j, mem_range.mpr hj, ?_⟩
        rw [if_pos ((testBit_fixedMask h hj).mpr ⟨b, hall⟩)]
        have hbit : acc.allSet (2 * cand.blk.nb) j = b := by
          cases b with
          | true => exact (allSet_unconditional h hj).mpr hall
          | false =>
            apply Bool.eq_false_of_not_eq_true
            intro hset
            -- a literal and its complement cannot both hold on an admitted pattern
            apply hne
            intro m hm
            by_contra hadmitted
            rw [Bool.not_eq_false] at hadmitted
            have htrue := (allSet_unconditional h hj).mp hset m hm hadmitted
            exact Bool.false_ne_true ((hall m hm hadmitted).symm.trans htrue)
        rw [hbit]
    · rw [mem_flatMap]
      constructor
      · rintro ⟨j, hj, hmem⟩
        rw [mem_range] at hj
        by_cases hfixed : (acc.fixedMask cand.blk.nb).testBit j = true
        · rw [if_pos hfixed] at hmem
          cases hmem
        · rw [if_neg hfixed, mem_flatMap] at hmem
          obtain ⟨a, -, hmem⟩ := hmem
          obtain ⟨k, hk, hsome⟩ := mem_filterMap.mp hmem
          rw [mem_range] at hk
          have hfree : ¬ cand.Fixed j := fun hj' => hfixed ((testBit_fixedMask h hj).mpr hj')
          obtain ⟨hkj, hkfree, b, hforce, rfl⟩ :=
            (forcedAt_eq_some_iff h hj hk hfree a f).mp hsome
          exact ⟨j, hj, k, hk, hkj, hfree, hkfree, a, b, hforce, rfl⟩
      · rintro ⟨j, hj, k, hk, hkj, hfree, hkfree, a, b, hforce, rfl⟩
        refine ⟨j, mem_range.mpr hj, ?_⟩
        rw [if_neg fun hfixed => hfree ((testBit_fixedMask h hj).mp hfixed), mem_flatMap]
        refine ⟨a, ?_, mem_filterMap.mpr ⟨k, mem_range.mpr hk, ?_⟩⟩
        · cases a with
          | false => exact mem_cons_self
          | true => exact mem_cons_of_mem _ mem_cons_self
        · exact (forcedAt_eq_some_iff h hj hk hfree a _).mpr ⟨hkj, hkfree, b, hforce, rfl⟩

end BveCandidate

namespace ProjectedCandidate

variable (cand : ProjectedCandidate)

lemma admitsNothing_iff : cand.admitsNothing = true ↔ cand.Empty := by
  rw [BveCandidate.admitsNothing, cand.isProjected, Bool.true_and, all_eq_true]
  constructor
  · intro h m hm
    rw [← cand.table_length] at hm
    rw [BveCandidate.admits, getD_eq_getElem _ _ hm, ← Bool.not_eq_true']
    exact h _ (getElem_mem hm)
  · intro h b hb
    obtain ⟨m, hm, rfl⟩ := mem_iff_getElem.mp hb
    have hfalse := h m (cand.table_length ▸ hm)
    rw [BveCandidate.admits, getD_eq_getElem _ _ hm] at hfalse
    rw [hfalse]
    rfl

variable {j k : ℕ}

lemma boundary_inj (hj : j < cand.blk.nb) (hk : k < cand.blk.nb)
    (h : cand.boundary.getD j 0 = cand.boundary.getD k 0) : j = k := by
  rw [← cand.boundary_length] at hj hk
  rw [getD_eq_getElem _ _ hj, getD_eq_getElem _ _ hk] at h
  exact (cand.boundary_nodup.getElem_inj_iff).mp h

lemma mem_forcings_iff {fixings : List (ℕ × Bool)} {forcings : List ProbeForcing}
    (h : cand.Exact fixings forcings) (hj : j < cand.blk.nb) (hk : k < cand.blk.nb) (hne : k ≠ j)
    (hfj : ¬ cand.Fixed j) (hfk : ¬ cand.Fixed k) (a b : Bool) :
    ⟨cand.boundary.getD j 0, cand.boundary.getD k 0, a, b⟩ ∈ forcings ↔ cand.Forces j a k b := by
  rw [h.forced]
  constructor
  · rintro ⟨j', hj', k', hk', -, -, -, a', b', hforce, heq⟩
    obtain ⟨hvar, hforced, rfl, rfl⟩ := ProbeForcing.mk.inj heq
    obtain rfl := cand.boundary_inj hj hj' hvar
    obtain rfl := cand.boundary_inj hk hk' hforced
    exact hforce
  · intro hforce
    exact ⟨j, hj, k, hk, hne, hfj, hfk, a, b, hforce, rfl⟩

def Related (j k : ℕ) (flip : Bool) : Prop :=
  ∀ m < 2 ^ cand.blk.nb, cand.admits m = true → m.testBit k = (m.testBit j ^^ flip)

lemma related_iff {fixings : List (ℕ × Bool)} {forcings : List ProbeForcing}
    (h : cand.Exact fixings forcings) (hj : j < cand.blk.nb) (hk : k < cand.blk.nb) (hne : k ≠ j)
    (hfj : ¬ cand.Fixed j) (hfk : ¬ cand.Fixed k) (flip : Bool) :
    cand.Related j k flip ↔
      ∀ a, ⟨cand.boundary.getD j 0, cand.boundary.getD k 0, a, a ^^ flip⟩ ∈ forcings := by
  constructor
  · intro hrel a
    rw [cand.mem_forcings_iff h hj hk hne hfj hfk]
    rintro m hm hadmitted rfl
    exact hrel m hm hadmitted
  · intro hall m hm hadmitted
    have hforce := (cand.mem_forcings_iff h hj hk hne hfj hfk _ _).mp (hall (m.testBit j))
    exact hforce m hm hadmitted rfl

end ProjectedCandidate

section Apply

structure ProbeFindings.Holds (findings : ProbeFindings) (x : ℕ → Bool) : Prop where
  fixings : ∀ f ∈ findings.fixings, x f.1 = f.2
  forcings : ∀ f ∈ findings.forcings, x f.var = f.value → x f.forcedVar = f.forcedValue

def BveCandidate.Assigns (cand : BveCandidate) (x : ℕ → Bool) : Prop :=
  ∃ m < 2 ^ cand.blk.nb, cand.admits m = true ∧
    ∀ j < cand.blk.nb, m.testBit j = x (cand.boundary.getD j 0)

variable {x : ℕ → Bool} {out : ProbeFindings}

lemma BveCandidate.Assigns.holds {cand : BveCandidate} (h : cand.Assigns x) (hout : out.Holds x) :
    (bveExtractForcings cand out).Holds x := by
  obtain ⟨m, hm, hadmitted, hx⟩ := h
  obtain ⟨fixings, forcings, heq, -, hexact⟩ := cand.bveExtractForcings_spec out
  have hne : ¬ cand.Empty := fun hempty =>
    Bool.false_ne_true ((hempty m hm).symm.trans hadmitted)
  have hspec := hexact hne
  rw [heq]
  refine ⟨fun f hf => ?_, fun f hf hvar => ?_⟩
  · rcases mem_append.mp hf with hf | hf
    · exact hout.fixings f hf
    · obtain ⟨j, hj, hv, hall⟩ := (hspec.fixed f.1 f.2).mp hf
      rw [← hv, ← hx j hj]
      exact hall m hm hadmitted
  · rcases mem_append.mp hf with hf | hf
    · exact hout.forcings f hf hvar
    · obtain ⟨j, hj, k, hk, -, -, -, a, b, hforce, rfl⟩ := (hspec.forced f).mp hf
      dsimp only at hvar ⊢
      rw [← hx j hj] at hvar
      rw [← hx k hk]
      exact hforce m hm hadmitted hvar

lemma foldl_extract_holds (cands : List BveCandidate) (h : ∀ cand ∈ cands, cand.Assigns x)
    (hout : out.Holds x) :
    (cands.foldl (fun findings cand => bveExtractForcings cand findings) out).Holds x := by
  induction cands generalizing out with
  | nil => exact hout
  | cons cand cands ih =>
    rw [foldl_cons]
    exact ih (fun c hc => h c (mem_cons_of_mem cand hc)) ((h cand mem_cons_self).holds hout)

lemma harvest_holds (variableMapping : ℕ → ℕ) {cands : List BveCandidate}
    (h : ∀ cand ∈ cands, cand.Assigns (x ∘ variableMapping)) (hout : out.Holds x) :
    (harvest variableMapping cands out).Holds x := by
  have hstart : (⟨[], []⟩ : ProbeFindings).Holds (x ∘ variableMapping) :=
    ⟨nofun, nofun⟩
  have hcurrent := foldl_extract_holds cands h hstart
  rw [harvest, exportFindings]
  refine ⟨fun f hf => ?_, fun f hf hvar => ?_⟩
  · rcases mem_append.mp hf with hf | hf
    · exact hout.fixings f hf
    · obtain ⟨g, hg, rfl⟩ := mem_map.mp hf
      exact hcurrent.fixings g hg
  · rcases mem_append.mp hf with hf | hf
    · exact hout.forcings f hf hvar
    · obtain ⟨g, hg, rfl⟩ := mem_map.mp hf
      exact hcurrent.forcings g hg hvar

variable {reverseOriginalIds : List ℤ} {nVariables : ℕ}

def Agree (l : List (ℕ × Bool)) : Prop := ∀ f ∈ l, ∀ g ∈ l, f.1 = g.1 → f.2 = g.2

variable {l : List (ℕ × Bool)}

/-- Every column that is not eliminated gets the value of a fixing. -/
lemma gatherFixings_of_agree {last : Option (ℕ × Bool)} (h : Agree (last.toList ++ l)) :
    ∃ updates, gatherFixings reverseOriginalIds nVariables last l = some updates ∧
      ∀ u ∈ updates, u.1 < nVariables ∧
        ∃ f ∈ l, reverseOriginalIds.getD f.1 (-1) = u.1 ∧ f.2 = u.2 := by
  induction l generalizing last with
  | nil => exact ⟨[], rfl, nofun⟩
  | cons f l ih =>
    have hagree : Agree ((some f).toList ++ l) := fun a ha b hb =>
      h a (mem_append_right _ ha) b (mem_append_right _ hb)
    obtain ⟨updates, hlater, hspec⟩ := ih hagree
    have hrest : ∀ u ∈ updates, u.1 < nVariables ∧
        ∃ g ∈ f :: l, reverseOriginalIds.getD g.1 (-1) = u.1 ∧ g.2 = u.2 := by
      intro u hu
      obtain ⟨hlt, g, hg, hrev⟩ := hspec u hu
      exact ⟨hlt, g, mem_cons_of_mem f hg, hrev⟩
    rw [gatherFixings]
    dsimp only
    rw [hlater]
    by_cases hsame : last.map Prod.fst = some f.1
    · rw [if_pos hsame]
      obtain ⟨p, rfl, hp⟩ := Option.map_eq_some_iff.mp hsame
      have hvalue : p.2 = f.2 := h p mem_cons_self f (mem_cons_of_mem p mem_cons_self) hp
      rw [Option.map_some, if_pos (congrArg some hvalue)]
      exact ⟨updates, rfl, hrest⟩
    · rw [if_neg hsame]
      by_cases hgone : reverseOriginalIds.getD f.1 (-1) < 0 ∨
          (nVariables : ℤ) ≤ reverseOriginalIds.getD f.1 (-1)
      · rw [if_pos hgone]
        exact ⟨updates, rfl, hrest⟩
      · rw [if_neg hgone]
        rw [not_or, not_lt, not_le] at hgone
        have hcast := Int.toNat_of_nonneg hgone.1
        refine ⟨_, rfl, fun u hu => ?_⟩
        rcases mem_cons.mp hu with rfl | hu
        · exact ⟨by dsimp only; omega, f, mem_cons_self, hcast.symm, rfl⟩
        · exact hrest u hu

lemma agree_sort_iff : Agree (l.insertionSort fixingLe) ↔ Agree l := by
  have hmem : ∀ f, f ∈ l.insertionSort fixingLe ↔ f ∈ l := fun f => mem_insertionSort _
  constructor
  · intro h f hf g hg
    exact h f ((hmem f).mpr hf) g ((hmem g).mpr hg)
  · intro h f hf g hg
    exact h f ((hmem f).mp hf) g ((hmem g).mp hg)

def ColumnBounds.Contains (b : ColumnBounds) (y : ℕ → ℚ) : Prop :=
  ∀ j, b.lower j ≤ y j ∧ y j ≤ b.upper j

variable {b : ColumnBounds} {y : ℕ → ℚ}

lemma ColumnBounds.Contains.fix (h : b.Contains y) {u : ℕ × Bool}
    (hu : y u.1 = if u.2 then 1 else 0) : (b.fix u).Contains y := by
  intro j
  rw [ColumnBounds.fix]
  dsimp only
  rcases eq_or_ne j u.1 with rfl | hne
  · rw [Function.update_self, Function.update_self, hu]
    exact ⟨le_rfl, le_rfl⟩
  · rw [Function.update_of_ne hne, Function.update_of_ne hne]
    exact h j

lemma ColumnBounds.Contains.foldl_fix (updates : List (ℕ × Bool))
    (hupdates : ∀ u ∈ updates, y u.1 = if u.2 then 1 else 0) (h : b.Contains y) :
    (updates.foldl ColumnBounds.fix b).Contains y := by
  induction updates generalizing b with
  | nil => exact h
  | cons u updates ih =>
    rw [foldl_cons]
    exact ih (fun v hv => hupdates v (mem_cons_of_mem u hv)) (h.fix (hupdates u mem_cons_self))

def Restricts (reverseOriginalIds : List ℤ) (nVariables : ℕ) (x : ℕ → Bool) (y : ℕ → ℚ) : Prop :=
  ∀ id, ∀ column < nVariables, reverseOriginalIds.getD id (-1) = (column : ℤ) →
    y column = if x id then 1 else 0

lemma applyBveFixings_keeps {fixings : List (ℕ × Bool)} (hx : ∀ f ∈ fixings, x f.1 = f.2)
    (hy : Restricts reverseOriginalIds nVariables x y) (hb : b.Contains y) :
    ∃ b' nApplied, applyBveFixings reverseOriginalIds nVariables b fixings = some (b', nApplied) ∧
      b'.Contains y := by
  have hagree : Agree (fixings.insertionSort fixingLe) := by
    rw [agree_sort_iff]
    intro f hf g hg heq
    rw [← hx f hf, ← hx g hg, heq]
  obtain ⟨updates, hsome, hspec⟩ := @gatherFixings_of_agree reverseOriginalIds nVariables
    (fixings.insertionSort fixingLe) none hagree
  refine ⟨_, _, by rw [applyBveFixings, hsome]; rfl, hb.foldl_fix updates fun u hu => ?_⟩
  obtain ⟨hlt, f, hf, hrev, hvalue⟩ := hspec u hu
  rw [hy f.1 u.1 hlt hrev, hx f ((mem_insertionSort _).mp hf), hvalue]

/-- The equivalences between positions that are not fixed are the pairs of opposite forcings. -/
def ProjectedCandidate.EquivalencesRead (cand : ProjectedCandidate)
    (forcings : List ProbeForcing) : Prop :=
  ∀ j < cand.blk.nb, ∀ k < cand.blk.nb, k ≠ j → ¬ cand.Fixed j → ¬ cand.Fixed k → ∀ flip,
    cand.Related j k flip ↔
      ∀ a, ⟨cand.boundary.getD j 0, cand.boundary.getD k 0, a, a ^^ flip⟩ ∈ forcings

/-- The findings of a block are exact, a block that admits nothing is what the caller reports, and
the points that a batch of blocks admits satisfy its findings and stay within the fixed bounds. -/
theorem bveForcings_exact (cand : ProjectedCandidate) (out : ProbeFindings) :
    (cand.admitsNothing = true ↔ cand.Empty) ∧
    (∃ fixings forcings, bveExtractForcings cand.toBveCandidate out =
        ⟨out.forcings ++ forcings, out.fixings ++ fixings⟩ ∧
      (cand.Empty → fixings = [] ∧ forcings = []) ∧
      (¬ cand.Empty → cand.Exact fixings forcings ∧ cand.EquivalencesRead forcings)) ∧
    ∀ (variableMapping : ℕ → ℕ) (cands : List BveCandidate) (x : ℕ → Bool),
      (∀ c ∈ cands, c.Assigns (x ∘ variableMapping)) → out.Holds x →
      (harvest variableMapping cands out).Holds x ∧
      ∀ (reverseOriginalIds : List ℤ) (nVariables : ℕ) (b : ColumnBounds) (y : ℕ → ℚ),
        Restricts reverseOriginalIds nVariables x y → b.Contains y →
        ∃ b' nApplied, applyBveFixings reverseOriginalIds nVariables b
            (harvest variableMapping cands out).fixings = some (b', nApplied) ∧ b'.Contains y := by
  refine ⟨cand.admitsNothing_iff, ?_, fun variableMapping cands x hcands hout => ?_⟩
  · obtain ⟨fixings, forcings, heq, hempty, hexact⟩ := cand.toBveCandidate.bveExtractForcings_spec out
    refine ⟨fixings, forcings, heq, hempty, fun hne => ⟨hexact hne, ?_⟩⟩
    intro j hj k hk hkj hfj hfk flip
    exact cand.related_iff (hexact hne) hj hk hkj hfj hfk flip
  · have hfindings := harvest_holds variableMapping hcands hout
    refine ⟨hfindings, fun reverseOriginalIds nVariables b y hy hb => ?_⟩
    exact applyBveFixings_keeps hfindings.fixings hy hb

def implicationBlock : ProjectedCandidate where
  interior := [2]
  boundary := [0, 1]
  rows := [0]
  blk := ⟨1, 2, [⟨[(1, -1), (2, 1)], some 0, none⟩]⟩
  projection := ⟨[true, false, true, true], [0, 0, 0, 0], true⟩
  boundary_length := rfl
  boundary_nodup := by decide
  table_length := rfl
  isProjected := rfl

theorem bveForcings_exact_implication : implicationBlock.admitsNothing = false ∧
    (bveExtractForcings implicationBlock.toBveCandidate ⟨[], []⟩).forcings =
      [⟨0, 1, true, true⟩, ⟨1, 0, false, false⟩] ∧
    (applyBveFixings [0, 1, 2] 3 ⟨fun _ => 0, fun _ => 1⟩
      (harvest id [implicationBlock.toBveCandidate] ⟨[], []⟩).fixings).isSome = true := by
  refine ⟨by decide, by decide +kernel, ?_⟩
  obtain ⟨-, -, happly⟩ := bveForcings_exact implicationBlock ⟨[], []⟩
  obtain ⟨-, hkeep⟩ := happly id [implicationBlock.toBveCandidate] (fun _ => true) (fun c hc => by
    obtain rfl := List.mem_singleton.mp hc
    exact ⟨3, by decide, by decide, by decide⟩) ⟨by simp, by simp⟩
  obtain ⟨b', nApplied, hsome, -⟩ := hkeep [0, 1, 2] 3 ⟨fun _ => 0, fun _ => 1⟩ (fun _ => 1)
    (fun _ _ _ _ => rfl) (fun _ => ⟨zero_le_one, le_rfl⟩)
  rw [hsome]
  rfl

/-- A returned relation need not be an equivalence. -/
theorem forcing_not_equivalence :
    ¬ ∀ cand : ProjectedCandidate, ¬ cand.Empty →
      ∀ f ∈ (bveExtractForcings cand.toBveCandidate ⟨[], []⟩).forcings,
        ∃ j < cand.blk.nb, ∃ k < cand.blk.nb, cand.boundary.getD j 0 = f.var ∧
          cand.boundary.getD k 0 = f.forcedVar ∧ ∃ flip, cand.Related j k flip := by
  intro h
  have hne : ¬ implicationBlock.Empty := fun hempty => absurd (hempty 0 (by decide)) (by decide)
  obtain ⟨j, hj, k, hk, hvar, hforced, flip, hrel⟩ :=
    h implicationBlock hne ⟨0, 1, true, true⟩ (by decide +kernel)
  obtain rfl : j = 0 := implicationBlock.boundary_inj hj (by decide) hvar
  obtain rfl : k = 1 := implicationBlock.boundary_inj hk (by decide) hforced
  -- the patterns 00 and 01 are both admitted
  have hboth := hrel 0 (by decide) (by decide)
  have hhigh := hrel 2 (by decide) (by decide)
  cases flip with
  | false => exact absurd hhigh (by decide)
  | true => exact absurd hboth (by decide)

end Apply

end CuOpt.Presolve
