import CuOpt.Grpc.IncumbentFlow

/-! What the callback of a client has seen when its job is reported as completed: every incumbent of the
worker in order, unless the last look at the tracker came before an incumbent did. -/

namespace CuOpt.Grpc.Incumbents

open List Function
open Option (getD_some map_some)

variable {V : Type}

def calls (l : List (IncumbentEntry V)) : List (Call V) :=
  l.mapIdx fun i inc => ⟨i, inc.objective, inc.assignment⟩

@[simp] lemma length_calls (l : List (IncumbentEntry V)) : (calls l).length = l.length := by
  simp [calls]

/-- The answer to a client that has the first `n` incumbents. -/
lemma getIncumbents_from (info : JobInfo V) {n : ℕ} (hn : n ≤ info.incumbents.length) :
    (getIncumbents info n 0).nextIndex = info.incumbents.length ∧
      calls (info.incumbents.take n) ++ (getIncumbents info n 0).incumbents.map Incumbent.call =
        calls info.incumbents := by
  have hneg : ¬ (n : ℤ) < 0 := by omega
  have hbig : ¬ (info.incumbents.length : ℤ) < n := by omega
  have hcount : ((info.incumbents.length : ℤ) - n).toNat = info.incumbents.length - n := by omega
  constructor
  · simp only [getIncumbents, if_neg hneg, if_neg hbig, lt_irrefl, false_and, if_false]
    omega
  · simp only [getIncumbents, if_neg hneg, if_neg hbig, lt_irrefl, false_and, if_false, hcount,
      Int.toNat_natCast]
    apply ext_getElem?
    intro i
    by_cases hi : i < n
    · rw [getElem?_append_left (by simp; omega)]
      simp [calls, getElem?_take_of_lt hi]
    · rw [getElem?_append_right (by simp; omega)]
      have hlength : (calls (info.incumbents.take n)).length = n := by simp [hn]
      have hindex : n + (i - n) = i := by omega
      rw [hlength, take_of_length_le (by simp)]
      simp only [getElem?_map, getElem?_mapIdx, getElem?_drop, hindex, calls, Option.map_map]
      congr 1
      funext inc
      simp only [comp_apply, Incumbent.call, Call.mk.injEq, and_true]
      omega

namespace State

def handed (s : State V) (jobId : ℕ) : List (IncumbentEntry V) :=
  match s.incumbentHand with
  | some (j, inc) => if j = jobId then [inc] else []
  | none => []

def inFlight (s : State V) (jobId : ℕ) : List (IncumbentEntry V) :=
  s.handed jobId ++ ((s.runner jobId).map fun w => s.piped w jobId).getD []

/-- Every incumbent that was emitted is stored, on its way or lost, and in order if none is lost. -/
structure Accounted (s : State V) : Prop where
  total : ∀ j, (s.emitted j).length =
    (s.stored j).length + (s.inFlight j).length + (s.lost j).length
  order : ∀ j, s.lost j = [] → s.emitted j = s.stored j ++ s.inFlight j
  stray : ∀ w j, s.runner j ≠ some w → s.piped w j = []
  fresh : ∀ j, s.used j = false → s.tracker j = none ∧ s.runner j = none
  solving : ∀ w j, s.worker w = .solving j → s.runner j = some w ∧ s.published j = false
  results : ∀ j st, (j, st) ∈ s.results → s.published j = true
  resultHand : ∀ j st, s.resultHand = some (j, st) → s.published j = true
  ran : ∀ j, s.published j = true → s.runner j ≠ none
  completed : ∀ j info, s.tracker j = some info → info.status = .completed → s.published j = true

lemma initial_accounted : (initial : State V).Accounted := by
  constructor <;> intros <;> simp_all [initial, stored, inFlight, handed, piped]

variable {c : Config V} {s s' : State V}

lemma stored_map (s : State V) (j k : ℕ) (f : JobInfo V → JobInfo V)
    (hf : ∀ info, (f info).incumbents = info.incumbents) :
    ({ s with tracker := update s.tracker j ((s.tracker j).map f) } : State V).stored k =
      s.stored k := by
  by_cases hk : k = j
  · subst hk
    cases htracker : s.tracker k <;> simp [stored, htracker, hf]
  · simp [stored, update_of_ne hk]

lemma piped_append (s : State V) (w v j k : ℕ) (inc : IncumbentEntry V) :
    ({ s with pipe := update s.pipe w (s.pipe w ++ [(k, inc)]) } : State V).piped v j =
      s.piped v j ++ if v = w ∧ k = j then [inc] else [] := by
  by_cases hv : v = w
  · subst hv
    by_cases hk : k = j <;> simp [piped, hk, filterMap_append]
  · simp [piped, hv]

variable {w j : ℕ}

lemma piped_tail (s : State V) {k : ℕ} {inc : IncumbentEntry V}
    {rest : List (ℕ × IncumbentEntry V)} (hpipe : s.pipe w = (k, inc) :: rest) (v j : ℕ) :
    s.piped v j = (if v = w ∧ k = j then [inc] else []) ++
      ({ s with pipe := update s.pipe w rest } : State V).piped v j := by
  by_cases hv : v = w
  · subst hv
    by_cases hk : k = j <;> simp [piped, hpipe, hk]
  · simp [piped, hv]

lemma Accounted.map_info (h : s.Accounted) (j : ℕ) (f : JobInfo V → JobInfo V)
    (hf : ∀ info, (f info).incumbents = info.incumbents)
    (hdone : ∀ info, s.tracker j = some info → (f info).status = .completed → s.published j = true) :
    ({ s with tracker := update s.tracker j ((s.tracker j).map f) } : State V).Accounted := by
  refine { h with total := ?_, order := ?_, fresh := ?_, completed := ?_ }
  · intro k
    rw [stored_map s j k f hf]
    exact h.total k
  · intro k hk
    rw [stored_map s j k f hf]
    exact h.order k hk
  · intro k hk
    obtain ⟨hnone, hrunner⟩ := h.fresh k hk
    refine ⟨?_, hrunner⟩
    by_cases hkj : k = j
    · subst hkj
      simp [hnone]
    · simp only [update_of_ne hkj, hnone]
  · intro k info hinfo hstatus
    by_cases hkj : k = j
    · subst hkj
      simp only [update_self, Option.map_eq_some_iff] at hinfo
      obtain ⟨old, hold, rfl⟩ := hinfo
      exact hdone old hold hstatus
    · simp only [update_of_ne hkj] at hinfo
      exact h.completed k info hinfo hstatus

section

variable (h : s.Accounted)
include h

lemma submit_accounted (hstep : s.submit j = some s') : s'.Accounted := by
  simp only [submit] at hstep
  split_ifs at hstep with hnew
  cases hstep
  obtain ⟨hnone, hrunner⟩ := h.fresh j hnew
  have hstored : ∀ k, ({ s with
      tracker := update s.tracker j (some ⟨.queued, [], ""⟩)
      used := update s.used j true } : State V).stored k = s.stored k := by
    intro k
    by_cases hk : k = j
    · simp [stored, hk, hnone]
    · simp [stored, update_of_ne hk]
  refine { h with total := ?_, order := ?_, fresh := ?_, completed := ?_ }
  · intro k
    rw [hstored]
    exact h.total k
  · intro k hk
    rw [hstored]
    exact h.order k hk
  · intro k hk
    have hkj : k ≠ j := by
      rintro rfl
      simp at hk
    simp only [update_of_ne hkj] at hk ⊢
    exact h.fresh k hk
  · intro k info hinfo hstatus
    by_cases hk : k = j
    · simp only [hk, update_self, Option.some.injEq] at hinfo
      subst hinfo
      cases hstatus
    · simp only [update_of_ne hk] at hinfo
      exact h.completed k info hinfo hstatus

lemma claim_accounted (hstep : s.claim w j = some s') : s'.Accounted := by
  simp only [claim] at hstep
  split_ifs at hstep with hguard
  obtain ⟨hused, hrunner, hidle⟩ := hguard
  cases hstep
  -- nothing of the job is in the pipe of the worker yet
  have hflight : ∀ k, ({ s with
      worker := update s.worker w (.solving j)
      runner := update s.runner j (some w) } : State V).inFlight k = s.inFlight k := by
    intro k
    by_cases hk : k = j
    · subst hk
      have hempty : s.piped w k = [] := h.stray w k (by simp [hrunner])
      have hpiped : ({ s with
          worker := update s.worker w (.solving k)
          runner := update s.runner k (some w) } : State V).piped w k = [] := hempty
      simp only [inFlight, update_self, hrunner, map_some, Option.map_none,
        getD_some, Option.getD_none, hpiped]
      rfl
    · simp only [inFlight, update_of_ne hk]
      rfl
  have hnew : s.published j = false := by
    by_contra hpub
    rw [Bool.not_eq_false] at hpub
    exact h.ran j hpub hrunner
  refine { h with total := ?_, order := ?_, stray := ?_, fresh := ?_, solving := ?_, ran := ?_ }
  · intro k
    rw [hflight]
    exact h.total k
  · intro k hk
    rw [hflight]
    exact h.order k hk
  · intro v k hv
    apply h.stray v k
    by_cases hk : k = j
    · simp [hk, hrunner]
    · simpa only [update_of_ne hk] using hv
  · intro k hk
    have hkj : k ≠ j := by
      rintro rfl
      rw [hused] at hk
      cases hk
    simp only [update_of_ne hkj]
    exact h.fresh k hk
  · intro v k hv
    by_cases hvw : v = w
    · simp only [hvw, update_self, WorkerPc.solving.injEq] at hv
      subst hv
      simp [hvw, hnew]
    · simp only [update_of_ne hvw] at hv
      obtain ⟨hrun, hpub⟩ := h.solving v k hv
      have hkj : k ≠ j := by
        rintro rfl
        rw [hrunner] at hrun
        cases hrun
      simp only [update_of_ne hkj]
      exact ⟨hrun, hpub⟩
  · intro k hk
    by_cases hkj : k = j
    · simp [hkj]
    · simp only [update_of_ne hkj]
      exact h.ran k hk

lemma emit_accounted {inc : IncumbentEntry V} (hstep : s.emit c w inc = some s') :
    s'.Accounted := by
  unfold emit at hstep
  cases hworker : s.worker w with
  | idle =>
    simp only [hworker] at hstep
    cases hstep
  | solving j =>
    simp only [hworker] at hstep
    obtain ⟨hrunner, hpub⟩ := h.solving w j hworker
    split_ifs at hstep with hsize
    · cases hstep
      refine { h with total := ?_, order := ?_ }
      · intro k
        have htotal := h.total k
        by_cases hk : k = j
        · subst hk
          simp only [update_self, length_append, length_singleton]
          change _ = (s.stored k).length + (s.inFlight k).length + _
          omega
        · simp only [update_of_ne hk]
          exact htotal
      · intro k hk
        by_cases hkj : k = j
        · subst hkj
          simp at hk
        · simp only [update_of_ne hkj] at hk ⊢
          exact h.order k hk
    · cases hstep
      have hflight : ∀ k, ({ s with
          emitted := update s.emitted j (s.emitted j ++ [inc])
          pipe := update s.pipe w (s.pipe w ++ [(j, inc)]) } : State V).inFlight k =
            s.inFlight k ++ if k = j then [inc] else [] := by
        intro k
        have hpiped := fun v => piped_append s w v k j inc
        by_cases hk : k = j
        · subst hk
          change s.handed k ++ ((s.runner k).map _).getD [] = _
          rw [hrunner, map_some, getD_some]
          change s.handed k ++ ({ s with
            pipe := update s.pipe w (s.pipe w ++ [(k, inc)]) } : State V).piped w k = _
          rw [hpiped, inFlight, hrunner]
          simp
        · change s.handed k ++ ((s.runner k).map fun v => ({ s with
            pipe := update s.pipe w (s.pipe w ++ [(j, inc)]) } : State V).piped v k).getD []
              = _
          simp only [hpiped, Ne.symm hk, and_false, if_false, append_nil, hk, inFlight]
      refine { h with total := ?_, order := ?_, stray := ?_ }
      · intro k
        rw [hflight]
        have htotal := h.total k
        by_cases hk : k = j
        · subst hk
          simp only [update_self, length_append, length_singleton, if_true]
          change _ = (s.stored k).length + _ + (s.lost k).length
          omega
        · simp only [update_of_ne hk, if_neg hk, append_nil]
          exact htotal
      · intro k hk
        rw [hflight]
        have horder := h.order k hk
        by_cases hkj : k = j
        · subst hkj
          simp only [update_self, if_true, horder, append_assoc]
          rfl
        · simp only [update_of_ne hkj, if_neg hkj, append_nil]
          exact horder
      · intro v k hv
        have hold := h.stray v k hv
        have hno : ¬ (v = w ∧ j = k) := by
          rintro ⟨rfl, rfl⟩
          exact hv hrunner
        have hpiped := piped_append s w v k j inc
        rw [if_neg hno, append_nil, hold] at hpiped
        exact hpiped

lemma publish_accounted {st : Tracker.ResultStatus} (hstep : s.publish w st = some s') :
    s'.Accounted := by
  unfold publish at hstep
  cases hworker : s.worker w with
  | idle =>
    simp only [hworker] at hstep
    cases hstep
  | solving j =>
    simp only [hworker] at hstep
    obtain ⟨hrunner, hpub⟩ := h.solving w j hworker
    cases hstep
    have hmono : ∀ k, s.published k = true → update s.published j true k = true := by
      intro k hk
      by_cases hkj : k = j
      · simp [hkj]
      · rw [update_of_ne hkj, hk]
    refine ⟨h.total, h.order, h.stray, h.fresh, ?_, ?_, ?_, ?_, ?_⟩
    · intro v k hv
      have hvw : v ≠ w := by
        rintro rfl
        simp at hv
      simp only [update_of_ne hvw] at hv
      obtain ⟨hrun, hnot⟩ := h.solving v k hv
      have hkj : k ≠ j := by
        rintro rfl
        rw [hrunner, Option.some.injEq] at hrun
        exact hvw hrun.symm
      simp only [update_of_ne hkj]
      exact ⟨hrun, hnot⟩
    · intro k st' hk
      rcases mem_append.mp hk with hk | hk
      · exact hmono k (h.results k st' hk)
      · simp only [mem_singleton, Prod.mk.injEq] at hk
        simp [hk.1]
    · intro k st' hk
      exact hmono k (h.resultHand k st' hk)
    · intro k hk
      by_cases hkj : k = j
      · rw [hkj, hrunner]
        simp
      · simp only [update_of_ne hkj] at hk
        exact h.ran k hk
    · intro k info hinfo hstatus
      exact hmono k (h.completed k info hinfo hstatus)

lemma respawn_accounted (w : ℕ) : (s.respawn w).Accounted := by
  have hpiped : ∀ v k, (s.respawn w).piped v k = if v = w then [] else s.piped v k := by
    intro v k
    by_cases hv : v = w
    · simp [piped, respawn, hv]
    · simp [piped, respawn, hv]
  have hflight : ∀ k, (s.inFlight k).length =
      ((s.respawn w).inFlight k).length + (s.piped w k).length := by
    intro k
    have hhanded : (s.respawn w).handed k = s.handed k := rfl
    have hrunner : (s.respawn w).runner k = s.runner k := rfl
    rw [inFlight, inFlight, hhanded, hrunner]
    cases hrun : s.runner k with
    | none => simp [h.stray w k (by simp [hrun])]
    | some v =>
      by_cases hv : v = w
      · simp [hpiped, hv]
      · simp [hpiped, hv, h.stray w k (by simp [hrun, hv])]
  refine { h with total := ?_, order := ?_, stray := ?_, solving := ?_ }
  · intro k
    have htotal := h.total k
    have hlength := hflight k
    change (s.emitted k).length = (s.stored k).length + _ + (s.lost k ++ s.piped w k).length
    rw [length_append]
    omega
  · intro k hk
    change s.lost k ++ s.piped w k = [] at hk
    obtain ⟨hlost, hgone⟩ := append_eq_nil_iff.mp hk
    have hsame : (s.respawn w).inFlight k = s.inFlight k := by
      change s.handed k ++ ((s.runner k).map fun v => (s.respawn w).piped v k).getD [] = _
      have hsamePiped : (fun v => (s.respawn w).piped v k) = fun v => s.piped v k := by
        funext v
        rw [hpiped]
        by_cases hv : v = w
        · rw [if_pos hv, hv, hgone]
        · rw [if_neg hv]
      rw [inFlight, hsamePiped]
    rw [hsame]
    exact h.order k hlost
  · intro v k hv
    rw [hpiped]
    split_ifs
    · rfl
    · exact h.stray v k hv
  · intro v k hv
    by_cases hvw : v = w
    · simp [respawn, hvw] at hv
    · simp only [respawn, update_of_ne hvw] at hv
      exact h.solving v k hv

lemma receive_accounted (hstep : s.receive c w = some s') : s'.Accounted := by
  unfold receive at hstep
  cases hhand : s.incumbentHand with
  | some msg =>
    simp only [hhand] at hstep
    cases hstep
  | none =>
    cases hpipe : s.pipe w with
    | nil =>
      simp only [hhand, hpipe] at hstep
      cases hstep
    | cons msg rest =>
      obtain ⟨j, inc⟩ := msg
      have htail := fun v k => piped_tail s hpipe v k
      have hrunner : s.runner j = some w := by
        by_contra hne
        have hempty := h.stray w j hne
        rw [htail] at hempty
        simp at hempty
      have hstray : ∀ v k, s.runner k ≠ some v → ({ s with
          pipe := update s.pipe w rest } : State V).piped v k = [] := by
        intro v k hv
        have hempty := h.stray v k hv
        rw [htail] at hempty
        exact (append_eq_nil_iff.mp hempty).2
      have hflight : ∀ k, s.inFlight k = (if k = j then [inc] else []) ++
          ((s.runner k).map fun v => ({ s with
            pipe := update s.pipe w rest } : State V).piped v k).getD [] := by
        intro k
        rw [inFlight, handed, hhand, nil_append]
        by_cases hk : k = j
        · rw [hk, hrunner]
          simp only [map_some, getD_some, if_true]
          rw [htail, if_pos ⟨rfl, rfl⟩]
          rfl
        · have hno : ∀ v, ¬ (v = w ∧ j = k) := fun v hv => hk hv.2.symm
          have hsamePiped : (fun v => s.piped v k) = fun v => ({ s with
              pipe := update s.pipe w rest } : State V).piped v k := by
            funext v
            rw [htail, if_neg (hno v), nil_append]
          rw [if_neg hk, nil_append, hsamePiped]
          rfl
      simp only [hhand, hpipe] at hstep
      split_ifs at hstep with hjammed hsize
      · rw [← hhand] at hstep
        cases hstep
        exact { h with }
      · cases hstep
        have hnow : ∀ k, ({ s with
            pipe := update s.pipe w rest
            incumbentHand := some (j, inc) } : State V).inFlight k = s.inFlight k := by
          intro k
          rw [hflight]
          simp only [inFlight, handed, eq_comm (a := k)]
          rfl
        refine { h with total := ?_, order := ?_, stray := hstray }
        · intro k
          rw [hnow]
          exact h.total k
        · intro k hk
          rw [hnow]
          exact h.order k hk

lemma storeIncumbent_accounted (hstep : s.storeIncumbent = some s') :
    s'.Accounted := by
  unfold storeIncumbent at hstep
  cases hhand : s.incumbentHand with
  | none =>
    simp only [hhand] at hstep
    cases hstep
  | some msg =>
    obtain ⟨j, inc⟩ := msg
    have hhanded : ∀ k, s.handed k = if k = j then [inc] else [] := by
      intro k
      simp only [handed, hhand, eq_comm (a := k)]
    cases htracker : s.tracker j with
    | some info =>
      simp only [hhand, htracker] at hstep
      cases hstep
      have hstored : ∀ k, ({ s with
          tracker := update s.tracker j
            (some { info with incumbents := info.incumbents ++ [inc] })
          incumbentHand := none } : State V).stored k = s.stored k ++ s.handed k := by
        intro k
        rw [hhanded]
        by_cases hk : k = j
        · subst hk
          simp [stored, htracker]
        · simp [stored, hk]
      refine { h with total := ?_, order := ?_, fresh := ?_, resultHand := ?_, completed := ?_ }
      · intro k
        have htotal := h.total k
        rw [hstored]
        simp only [inFlight, length_append] at htotal ⊢
        simp only [handed, hhand, length_nil] at htotal ⊢
        change _ = _ + (_ + (((s.runner k).map fun v => s.piped v k).getD []).length) + _
        omega
      · intro k hk
        have horder := h.order k hk
        rw [hstored, horder, inFlight, append_assoc]
        rfl
      · intro k hk
        obtain ⟨hnone, hrunner⟩ := h.fresh k hk
        have hkj : k ≠ j := by
          rintro rfl
          rw [htracker] at hnone
          cases hnone
        simp only [update_of_ne hkj]
        exact ⟨hnone, hrunner⟩
      · exact h.resultHand
      · intro k info' hinfo hstatus
        by_cases hk : k = j
        · simp only [hk, update_self, Option.some.injEq] at hinfo
          subst hinfo
          rw [hk]
          exact h.completed j info htracker hstatus
        · simp only [update_of_ne hk] at hinfo
          exact h.completed k info' hinfo hstatus
    | none =>
      simp only [hhand, htracker] at hstep
      cases hstep
      refine { h with total := ?_, order := ?_ }
      · intro k
        have htotal := h.total k
        rw [inFlight, hhanded] at htotal
        simp only [inFlight, handed, nil_append]
        change _ = (s.stored k).length + (((s.runner k).map fun v => s.piped v k).getD []).length + _
        by_cases hk : k = j
        · subst hk
          simp only [if_true, length_append, length_singleton] at htotal
          simp only [update_self, length_append, length_singleton]
          omega
        · rw [if_neg hk, nil_append] at htotal
          simp only [update_of_ne hk]
          exact htotal
      · intro k hk
        have hkj : k ≠ j := by
          rintro rfl
          simp at hk
        simp only [update_of_ne hkj] at hk
        have horder := h.order k hk
        rw [inFlight, hhanded, if_neg hkj, nil_append] at horder
        exact horder

lemma retrieve_accounted {k : ℕ} (hstep : s.retrieve k = some s') :
    s'.Accounted := by
  unfold retrieve at hstep
  cases hhand : s.resultHand with
  | some entry =>
    simp only [hhand] at hstep
    cases hstep
  | none =>
    cases hentry : s.results[k]? with
    | none =>
      simp only [hhand, hentry] at hstep
      cases hstep
    | some entry =>
      simp only [hhand, hentry] at hstep
      cases hstep
      refine { h with results := ?_, resultHand := ?_ }
      · intro j st hj
        exact h.results j st (mem_of_mem_eraseIdx hj)
      · intro j st hj
        cases hj
        exact h.results j st (mem_of_getElem? hentry)

lemma deliver_accounted {message : String} (hstep : s.deliver message = some s') :
    s'.Accounted := by
  unfold deliver at hstep
  cases hhand : s.resultHand with
  | none =>
    simp only [hhand] at hstep
    cases hstep
  | some entry =>
    obtain ⟨j, st⟩ := entry
    simp only [hhand] at hstep
    cases hstep
    have htaken : ({ s with resultHand := none } : State V).Accounted := by
      exact { h with resultHand := nofun }
    exact htaken.map_info j _ (fun _ => rfl) fun info hinfo hstatus => h.resultHand j st hhand

lemma delete_accounted (j : ℕ) : (s.delete j).Accounted := by
  have hstored : ∀ k, (s.delete j).stored k = if k = j then [] else s.stored k := by
    intro k
    by_cases hk : k = j
    · simp [stored, delete, hk]
    · simp [stored, delete, hk]
  refine { h with total := ?_, order := ?_, fresh := ?_, completed := ?_ }
  · intro k
    have htotal := h.total k
    rw [hstored]
    by_cases hk : k = j
    · subst hk
      simp only [delete, update_self, if_true, length_append, length_nil]
      change _ = 0 + (s.inFlight k).length + _
      omega
    · simp only [delete, update_of_ne hk, if_neg hk]
      exact htotal
  · intro k hk
    rw [hstored]
    by_cases hkj : k = j
    · subst hkj
      simp only [delete, update_self, append_eq_nil_iff] at hk
      have horder : s.emitted k = s.stored k ++ s.inFlight k := h.order k hk.2
      rw [hk.1] at horder
      simp only [if_true]
      exact horder
    · simp only [delete, update_of_ne hkj] at hk
      rw [if_neg hkj]
      exact h.order k hk
  · intro k hk
    obtain ⟨hnone, hrunner⟩ := h.fresh k hk
    refine ⟨?_, hrunner⟩
    by_cases hkj : k = j
    · simp [delete, hkj]
    · simp only [delete, update_of_ne hkj, hnone]
  · intro k info hinfo hstatus
    by_cases hkj : k = j
    · simp [delete, hkj] at hinfo
    · simp only [delete, update_of_ne hkj] at hinfo
      exact h.completed k info hinfo hstatus

end

variable {due : Bool} {error : Option String}

/-- A step of the client changes at most the status of a job on the server. -/
lemma clientStep_server (hstep : s.clientStep c due error = some s') :
    ∃ f : JobInfo V → JobInfo V, (∀ info, (f info).incumbents = info.incumbents) ∧
      (∀ info, (f info).status = .completed → info.status = .completed) ∧
      s' = { s with
        tracker := update s.tracker c.jobId ((s.tracker c.jobId).map f)
        client := s'.client
        pollCount := s'.pollCount
        incumbentNextIndex := s'.incumbentNextIndex
        cancelRequested := s'.cancelRequested
        called := s'.called
        callFailed := s'.callFailed } := by
  have hsame : update s.tracker c.jobId ((s.tracker c.jobId).map id) = s.tracker := by
    rw [Option.map_id, id, update_eq_self]
  unfold clientStep at hstep
  cases hclient : s.client with
  | poll =>
    simp only [hclient] at hstep
    split_ifs at hstep
    · cases hstep
      refine ⟨fun info => if info.status.terminal then info
        else { info with status := .cancelled, errorMessage := "Job cancelled by user" },
        ?_, ?_, rfl⟩
      · intro info
        dsimp only
        split_ifs <;> rfl
      · intro info
        dsimp only
        split_ifs
        · exact id
        · intro hstatus
          cases hstatus
    · cases hstep
      exact ⟨id, fun _ => rfl, fun _ => id, by rw [hsame]⟩
    · cases hstep
      exact ⟨id, fun _ => rfl, fun _ => id, by rw [hsame]⟩
    · cases hstep
      exact ⟨id, fun _ => rfl, fun _ => id, by rw [hsame]; rfl⟩
  | askIncumbents =>
    simp only [hclient] at hstep
    split at hstep <;> cases hstep <;> exact ⟨id, fun _ => rfl, fun _ => id, by rw [hsame]⟩
  | callbacks todo next =>
    simp only [hclient] at hstep
    cases todo with
    | nil =>
      cases hstep
      exact ⟨id, fun _ => rfl, fun _ => id, by rw [hsame]⟩
    | cons inc todo =>
      simp only at hstep
      split_ifs at hstep <;> cases hstep <;>
        exact ⟨id, fun _ => rfl, fun _ => id, by rw [hsame]; rfl⟩
  | askStatus =>
    simp only [hclient] at hstep
    split at hstep
    · rename_i info htracker
      have hchecked : update s.tracker c.jobId (some (s.checkedStatus c.jobId info)) =
          update s.tracker c.jobId ((s.tracker c.jobId).map (s.checkedStatus c.jobId)) := by
        rw [htracker, map_some]
      refine ⟨s.checkedStatus c.jobId, ?_, ?_, ?_⟩
      · intro info
        rw [checkedStatus]
        split_ifs <;> rfl
      · intro info
        rw [checkedStatus]
        split_ifs
        · intro hstatus
          cases hstatus
        · exact id
      · rw [hchecked] at hstep
        split at hstep
        · split_ifs at hstep <;> (cases hstep; rfl)
        · cases hstep
          rfl
        · cases hstep
          rfl
        · cases hstep
          rfl
    · cases hstep
      exact ⟨id, fun _ => rfl, fun _ => id, by rw [hsame]⟩
    · cases hstep
      exact ⟨id, fun _ => rfl, fun _ => id, by rw [hsame]; rfl⟩
  | drain =>
    simp only [hclient] at hstep
    split at hstep
    · cases hstep
      exact ⟨id, fun _ => rfl, fun _ => id, by rw [hsame]⟩
    · cases hstep
      exact ⟨id, fun _ => rfl, fun _ => id, by rw [hsame]; rfl⟩
  | drainCallbacks todo =>
    simp only [hclient] at hstep
    cases todo <;> cases hstep <;> exact ⟨id, fun _ => rfl, fun _ => id, by rw [hsame]; rfl⟩
  | returned result =>
    simp only [hclient] at hstep
    cases hstep

variable {a : Action V}

lemma step_accounted (h : s.Accounted) (hstep : s.step c a = some s') : s'.Accounted := by
  cases a with
  | submit j => exact submit_accounted h hstep
  | claim w j => exact claim_accounted h hstep
  | emit w inc => exact emit_accounted h hstep
  | publish w st => exact publish_accounted h hstep
  | respawn w =>
    cases hstep
    exact respawn_accounted h w
  | receive w => exact receive_accounted h hstep
  | storeIncumbent => exact storeIncumbent_accounted h hstep
  | retrieve k => exact retrieve_accounted h hstep
  | deliver message => exact deliver_accounted h hstep
  | workerFailed j message =>
    cases hstep
    exact h.map_info j _ (fun _ => rfl) nofun
  | delete j =>
    cases hstep
    exact delete_accounted h j
  | client due error =>
    obtain ⟨f, hf, hdone, heq⟩ := clientStep_server hstep
    have hmap := h.map_info c.jobId f hf fun info hinfo hstatus =>
      h.completed c.jobId info hinfo (hdone info hstatus)
    rw [heq]
    exact { hmap with }

def Deleted (s : State V) (j : ℕ) : Prop := s.used j = true ∧ s.tracker j = none

def Stopped (c : Config V) (s : State V) : Prop :=
  ∃ l, l <+: s.called ∧ l ≠ [] ∧ c.callback l = false

structure ServerFrame (c : Config V) (s s' : State V) : Prop where
  client : s'.client = s.client := by rfl
  called : s'.called = s.called := by rfl
  nextIndex : s'.incumbentNextIndex = s.incumbentNextIndex := by rfl
  callFailed : s.callFailed = true → s'.callFailed = true := by exact id
  published : s.published c.jobId = true → s'.published c.jobId = true := by exact id
  deleted : s.Deleted c.jobId → s'.Deleted c.jobId := by exact id
  kept : s.stored c.jobId <+: s'.stored c.jobId ∨ s'.Deleted c.jobId := by
    exact .inl (prefix_refl _)

/-- A step that changes the tracker's entry of one job. -/
lemma ServerFrame.of_map (j : ℕ) (f : JobInfo V → JobInfo V)
    (hf : ∀ info, info.incumbents <+: (f info).incumbents) :
    ServerFrame c s
      { s with tracker := update s.tracker j ((s.tracker j).map f) } := by
  refine { deleted := ?_, kept := .inl ?_ }
  · rintro ⟨hused, hnone⟩
    refine ⟨hused, ?_⟩
    by_cases hj : c.jobId = j
    · simp only [← hj, hnone, Option.map_none, update_self]
    · simp only [update_of_ne hj, hnone]
  · by_cases hj : c.jobId = j
    · subst hj
      cases htracker : s.tracker c.jobId with
      | none => simp [stored, htracker]
      | some info => simpa [stored, htracker] using hf info
    · simp [stored, update_of_ne hj]

lemma step_server (h : s.Accounted) (ha : ∀ due error, a ≠ .client due error)
    (hstep : s.step c a = some s') : ServerFrame c s s' := by
  cases a with
  | submit j =>
    simp only [step, submit] at hstep
    split_ifs at hstep with hnew
    cases hstep
    obtain ⟨hnone, -⟩ := h.fresh j hnew
    refine { deleted := ?_, kept := .inl ?_ }
    · rintro ⟨hused, hgone⟩
      have hj : c.jobId ≠ j := by
        rintro rfl
        rw [hnew] at hused
        cases hused
      exact ⟨by simp only [update_of_ne hj, hused], by simp only [update_of_ne hj, hgone]⟩
    · by_cases hj : c.jobId = j
      · simp [stored, hj, hnone]
      · simp [stored, update_of_ne hj]
  | claim w j =>
    simp only [step, claim] at hstep
    split_ifs at hstep
    cases hstep
    exact {}
  | emit w inc =>
    simp only [step, emit] at hstep
    split at hstep
    · split_ifs at hstep <;> (cases hstep; exact {})
    · cases hstep
  | publish w st =>
    simp only [step, publish] at hstep
    split at hstep
    · cases hstep
      refine { published := fun hpub => ?_ }
      rename_i j _
      by_cases hj : c.jobId = j
      · simp [hj]
      · simp only [update_of_ne hj, hpub]
    · cases hstep
  | respawn w =>
    cases hstep
    exact {}
  | receive w =>
    simp only [step, receive] at hstep
    split at hstep
    · split_ifs at hstep
      · cases hstep
        exact { callFailed := fun _ => rfl }
      · cases hstep
        exact {}
    · cases hstep
  | storeIncumbent =>
    simp only [step, storeIncumbent] at hstep
    split at hstep
    · rename_i j inc _
      split at hstep
      · rename_i info htracker
        cases hstep
        have hframe := ServerFrame.of_map (c := c) (s := s) j
          (fun info => { info with incumbents := info.incumbents ++ [inc] })
          fun info => prefix_append _ _
        rw [htracker, map_some] at hframe
        exact { deleted := hframe.deleted, kept := hframe.kept }
      · cases hstep
        exact {}
    · cases hstep
  | retrieve k =>
    simp only [step, retrieve] at hstep
    split at hstep
    · cases hstep
      exact {}
    · cases hstep
  | deliver message =>
    simp only [step, deliver] at hstep
    split at hstep
    · rename_i j st _
      cases hstep
      have hframe := ServerFrame.of_map (c := c) (s := s) j (fun info => { info with
        status := st.verdict
        errorMessage := if st.verdict = .completed then info.errorMessage else message })
        fun info => prefix_refl _
      exact { deleted := hframe.deleted, kept := hframe.kept }
    · cases hstep
  | workerFailed j message =>
    cases hstep
    exact .of_map j _ fun info => prefix_refl _
  | delete j =>
    cases hstep
    by_cases hj : c.jobId = j
    · by_cases hused : s.used j = true
      · have hdeleted : (s.delete j).Deleted c.jobId := by
          refine ⟨by rw [hj]; exact hused, ?_⟩
          simp [delete, hj]
        exact { deleted := fun _ => hdeleted, kept := .inr hdeleted }
      · rw [Bool.not_eq_true] at hused
        obtain ⟨hnone, -⟩ := h.fresh j hused
        have hsame : (s.delete j).tracker = s.tracker := by
          simp only [delete]
          rw [← hnone, update_eq_self]
        refine { deleted := fun hgone => ?_, kept := .inl ?_ }
        · exact ⟨hgone.1, hsame ▸ hgone.2⟩
        · rw [stored, stored, hsame]
    · refine { deleted := ?_, kept := .inl ?_ }
      · rintro ⟨hused, hgone⟩
        exact ⟨hused, by simp only [delete, update_of_ne hj, hgone]⟩
      · simp [stored, delete, update_of_ne hj]
  | client due error => exact absurd rfl (ha due error)

/-- The client has been given the first incumbents of the tracker's list, up to its cursor. -/
def UpToDate (c : Config V) (s : State V) : Prop :=
  s.incumbentNextIndex = s.called.length ∧
    s.called = calls ((s.stored c.jobId).take s.called.length)

def Reading (c : Config V) (s : State V) : Prop :=
  match s.client with
  | .poll | .askIncumbents | .askStatus => s.UpToDate c
  | .callbacks todo next => ∃ n, n ≤ (s.stored c.jobId).length ∧ next = n ∧
      s.called ++ todo.map Incumbent.call = calls ((s.stored c.jobId).take n)
  | .drain => s.UpToDate c ∧ s.published c.jobId = true
  | .drainCallbacks _ | .returned _ => True

def Complete (c : Config V) (s : State V) : Prop :=
  match s.client with
  | .drainCallbacks todo => s.published c.jobId = true ∧
      s.called ++ todo.map Incumbent.call = calls (s.emitted c.jobId)
  | .returned result => result.completed = true → s.published c.jobId = true ∧
      s.called = calls (s.emitted c.jobId)
  | _ => True

def Short (c : Config V) (s : State V) : Prop :=
  (∃ todo, s.client = .drainCallbacks todo ∧
    s.called.length + todo.length < (s.emitted c.jobId).length) ∨
  (∃ result, s.client = .returned result ∧ s.called.length < (s.emitted c.jobId).length)

lemma UpToDate.le_length (h : s.UpToDate c) : s.called.length ≤ (s.stored c.jobId).length := by
  have hlength := congrArg length h.2
  rw [length_calls, length_take] at hlength
  omega

lemma UpToDate.mono (h : s.UpToDate c) (hcalled : s'.called = s.called)
    (hnext : s'.incumbentNextIndex = s.incumbentNextIndex)
    (hstored : s.stored c.jobId <+: s'.stored c.jobId) : s'.UpToDate c := by
  obtain ⟨extra, hextra⟩ := hstored
  rw [UpToDate, hcalled, hnext, ← hextra, take_append_of_le_length h.le_length]
  exact h

/-- A job gets a further incumbent from the worker that solves it. -/
lemma emitted_step (hstep : s.step c a = some s') (j : ℕ) :
    s'.emitted j = s.emitted j ∨
      ∃ w inc, s.worker w = .solving j ∧ s'.emitted j = s.emitted j ++ [inc] := by
  cases a with
  | emit w inc =>
    simp only [step, emit] at hstep
    split at hstep
    · rename_i k hworker
      by_cases hk : j = k
      · subst hk
        refine .inr ⟨w, inc, hworker, ?_⟩
        split_ifs at hstep <;> (cases hstep; exact update_self ..)
      · refine .inl ?_
        split_ifs at hstep <;> (cases hstep; exact update_of_ne hk ..)
    · cases hstep
  | client due error =>
    obtain ⟨f, -, -, heq⟩ := clientStep_server hstep
    rw [heq]
    exact .inl rfl
  | _ =>
    refine .inl ?_
    simp only [step, submit, claim, publish, respawn, receive, storeIncumbent, retrieve, deliver,
      workerFailed, delete] at hstep
    repeat' split at hstep
    all_goals first | cases hstep; rfl | cases hstep

lemma emitted_of_published (h : s.Accounted) (hpub : s.published j = true)
    (hstep : s.step c a = some s') : s'.emitted j = s.emitted j := by
  rcases emitted_step hstep j with hsame | ⟨w, inc, hworker, -⟩
  · exact hsame
  · rw [(h.solving w j hworker).2] at hpub
    cases hpub

lemma emitted_grows (hstep : s.step c a = some s') (j : ℕ) :
    (s.emitted j).length ≤ (s'.emitted j).length := by
  rcases emitted_step hstep j with hsame | ⟨w, inc, -, hmore⟩
  · rw [hsame]
  · rw [hmore, length_append]
    omega

/-- The last look of the client at the tracker finds all that its job's worker has emitted: nothing is
on its way to the tracker, and nothing was lost. -/
def Timely (c : Config V) (s : State V) : Action V → Prop
  | .client _ none => s.client = .drain → s.inFlight c.jobId = [] ∧ s.lost c.jobId = []
  | _ => True

def Excused (c : Config V) (s : State V) : Prop := s.callFailed = true ∨ s.Stopped c

/-- What holds in every state of a run as long as no call fails and the callback goes on. -/
def Following (c : Config V) (s : State V) : Prop :=
  s.Accounted ∧ (s.Excused c ∨ ((s.Deleted c.jobId ∨ s.Reading c) ∧ s.Complete c))

lemma initial_following : (initial : State V).Following c := by
  refine ⟨initial_accounted, .inr ⟨.inr ?_, trivial⟩⟩
  simp [Reading, UpToDate, initial, calls]

lemma Excused.step (h : s.Excused c) (hacc : s.Accounted) (hstep : s.step c a = some s') :
    s'.Excused c := by
  by_cases ha : ∃ due error, a = .client due error
  · obtain ⟨due, error, rfl⟩ := ha
    have hcalled : s.called <+: s'.called ∧ (s.callFailed = true → s'.callFailed = true) := by
      simp only [State.step, clientStep] at hstep
      repeat' split at hstep
      all_goals first
        | cases hstep
          exact ⟨by simp [cancelJob, returned, invoke], by simp [cancelJob, returned, invoke]⟩
        | cases hstep
    rcases h with hfailed | ⟨l, hl, hne, hstop⟩
    · exact .inl (hcalled.2 hfailed)
    · exact .inr ⟨l, hl.trans hcalled.1, hne, hstop⟩
  · have hframe := step_server (c := c) hacc (fun due error he => ha ⟨due, error, he⟩) hstep
    rcases h with hfailed | ⟨l, hl, hne, hstop⟩
    · exact .inl (hframe.callFailed hfailed)
    · exact .inr ⟨l, by rw [hframe.called]; exact hl, hne, hstop⟩

lemma Reading.server (h : s.Reading c) (hframe : ServerFrame c s s')
    (hstored : s.stored c.jobId <+: s'.stored c.jobId) : s'.Reading c := by
  unfold Reading at h ⊢
  rw [hframe.client]
  cases hclient : s.client <;> rw [hclient] at h
  case callbacks todo next =>
    obtain ⟨n, hn, hnext, hcalls⟩ := h
    obtain ⟨extra, hextra⟩ := hstored
    refine ⟨n, ?_, hnext, ?_⟩
    · rw [← hextra, length_append]
      omega
    · rw [hframe.called, ← hextra, take_append_of_le_length hn]
      exact hcalls
  case drain => exact ⟨h.1.mono hframe.called hframe.nextIndex hstored, hframe.published h.2⟩
  case drainCallbacks | returned => trivial
  all_goals exact UpToDate.mono h hframe.called hframe.nextIndex hstored

lemma Complete.server (h : s.Complete c) (hacc : s.Accounted) (hframe : ServerFrame c s s')
    (hstep : s.step c a = some s') : s'.Complete c := by
  unfold Complete at h ⊢
  rw [hframe.client]
  cases hclient : s.client <;> rw [hclient] at h
  case drainCallbacks todo =>
    obtain ⟨hpub, hcalls⟩ := h
    refine ⟨hframe.published hpub, ?_⟩
    rw [hframe.called, emitted_of_published hacc hpub hstep]
    exact hcalls
  case returned result =>
    intro hcompleted
    obtain ⟨hpub, hcalls⟩ := h hcompleted
    refine ⟨hframe.published hpub, ?_⟩
    rw [hframe.called, emitted_of_published hacc hpub hstep]
    exact hcalls
  all_goals trivial

/-- The answer of the server extends the list of an up-to-date client to the tracker's list. -/
lemma UpToDate.answer (h : s.UpToDate c) {info : JobInfo V} (htracker : s.tracker c.jobId = some info) :
    (getIncumbents info s.incumbentNextIndex 0).nextIndex = (s.stored c.jobId).length ∧
      s.called ++ (getIncumbents info s.incumbentNextIndex 0).incumbents.map Incumbent.call =
        calls (s.stored c.jobId) := by
  have hstored : s.stored c.jobId = info.incumbents := by simp [stored, htracker]
  have hle := h.le_length
  obtain ⟨hnext, hcalled⟩ := h
  rw [hstored] at hle hcalled ⊢
  obtain ⟨h1, h2⟩ := getIncumbents_from info hle
  rw [hnext]
  refine ⟨h1, ?_⟩
  rw [← hcalled] at h2
  exact h2

lemma clientStep_stored (hstep : s.clientStep c due error = some s') :
    s'.stored c.jobId = s.stored c.jobId := by
  obtain ⟨f, hf, -, heq⟩ := clientStep_server hstep
  rw [heq]
  exact stored_map s c.jobId c.jobId f hf

lemma Deleted.client (h : s.Deleted c.jobId) (hstep : s.clientStep c due error = some s') :
    s'.Deleted c.jobId := by
  obtain ⟨f, -, -, heq⟩ := clientStep_server hstep
  rw [heq]
  exact ⟨h.1, by simp [h.2]⟩

lemma UpToDate.client (h : s.UpToDate c) (hstep : s.clientStep c due error = some s')
    (hcalled : s'.called = s.called) (hnext : s'.incumbentNextIndex = s.incumbentNextIndex) :
    s'.UpToDate c :=
  h.mono hcalled hnext (by rw [clientStep_stored hstep])

lemma Reading.client (hacc : s.Accounted) (h : s.Reading c)
    (hstep : s.clientStep c due error = some s') : s'.Excused c ∨ s'.Reading c := by
  have hcopy := hstep
  have hstored := clientStep_stored hstep
  unfold clientStep at hstep
  unfold Reading at h
  cases hclient : s.client with
  | poll =>
    rw [hclient] at h
    simp only [hclient] at hstep
    refine .inr ?_
    split_ifs at hstep
    · cases hstep
      trivial
    · cases hstep
      exact UpToDate.client h hcopy rfl rfl
    · cases hstep
      exact UpToDate.client h hcopy rfl rfl
    · cases hstep
      trivial
  | askIncumbents =>
    rw [hclient] at h
    simp only [hclient] at hstep
    split at hstep
    · rename_i info htracker
      cases hstep
      obtain ⟨hnext, hcalls⟩ := UpToDate.answer h htracker
      refine .inr ⟨(s.stored c.jobId).length, le_of_eq (by rw [← hstored]), hnext, ?_⟩
      rw [← hstored] at hcalls ⊢
      rw [take_length]
      exact hcalls
    · cases hstep
      exact .inl (.inl rfl)
  | callbacks todo next =>
    rw [hclient] at h
    obtain ⟨n, hn, hnext, hcalls⟩ := h
    simp only [hclient] at hstep
    cases todo with
    | nil =>
      cases hstep
      rw [map_nil, append_nil] at hcalls
      have hlength : s.called.length = n := by
        rw [hcalls, length_calls, length_take]
        omega
      refine .inr ⟨?_, ?_⟩
      · rw [hnext, hlength]
      · rw [hstored]
        change s.called = calls (take s.called.length (s.stored c.jobId))
        rw [hlength]
        exact hcalls
    | cons inc todo =>
      simp only at hstep
      split_ifs at hstep with hgo
      · cases hstep
        refine .inr ⟨n, by rw [hstored]; exact hn, hnext, ?_⟩
        rw [hstored, ← hcalls]
        simp [invoke]
      · cases hstep
        rw [Bool.not_eq_true] at hgo
        exact .inl (.inr ⟨s.called ++ [inc.call], prefix_refl _, by simp, hgo⟩)
  | askStatus =>
    rw [hclient] at h
    simp only [hclient] at hstep
    split at hstep
    · rename_i info htracker
      have hcompleted : (s.checkedStatus c.jobId info).status = .completed →
          s.published c.jobId = true := by
        intro hstatus
        apply hacc.completed c.jobId info htracker
        rw [checkedStatus] at hstatus
        split_ifs at hstatus
        · exact hstatus
      split at hstep
      · rename_i hstatus
        split_ifs at hstep
        · cases hstep
          exact .inr ⟨UpToDate.client h hcopy rfl rfl, hcompleted hstatus⟩
        · cases hstep
          exact .inr trivial
      · cases hstep
        exact .inr trivial
      · cases hstep
        exact .inr trivial
      · cases hstep
        exact .inr (UpToDate.client h hcopy rfl rfl)
    · cases hstep
      exact .inr (UpToDate.client h hcopy rfl rfl)
    · cases hstep
      exact .inl (.inl rfl)
  | drain =>
    simp only [hclient] at hstep
    split at hstep <;> (cases hstep; exact .inr trivial)
  | drainCallbacks todo =>
    simp only [hclient] at hstep
    cases todo <;> (cases hstep; exact .inr trivial)
  | returned result =>
    simp only [hclient] at hstep
    cases hstep

lemma Complete.client (hcb : c.hasCallback = true) (hacc : s.Accounted)
    (hread : s.Deleted c.jobId ∨ s.Reading c) (h : s.Complete c)
    (htimely : s.Timely c (.client due error)) (hstep : s.clientStep c due error = some s') :
    s'.Excused c ∨ s'.Complete c := by
  unfold clientStep at hstep
  unfold Complete at h
  cases hclient : s.client with
  | poll =>
    simp only [hclient] at hstep
    refine .inr ?_
    split_ifs at hstep <;> cases hstep
    · intro hcompleted
      cases hcompleted
    · trivial
    · trivial
    · intro hcompleted
      cases hcompleted
  | askIncumbents =>
    simp only [hclient] at hstep
    split at hstep <;> (cases hstep; exact .inr trivial)
  | callbacks todo next =>
    simp only [hclient] at hstep
    cases todo with
    | nil =>
      cases hstep
      exact .inr trivial
    | cons inc todo =>
      simp only at hstep
      split_ifs at hstep <;> (cases hstep; exact .inr trivial)
  | askStatus =>
    simp only [hclient, hcb, if_true] at hstep
    refine .inr ?_
    split at hstep
    · split at hstep
      · cases hstep
        trivial
      · cases hstep
        intro hcompleted
        cases hcompleted
      · cases hstep
        intro hcompleted
        cases hcompleted
      · cases hstep
        trivial
    · cases hstep
      trivial
    · cases hstep
      intro hcompleted
      cases hcompleted
  | drain =>
    simp only [hclient] at hstep
    split at hstep
    · rename_i info htracker
      cases hstep
      rcases hread with hgone | hread
      · rw [hgone.2] at htracker
        cases htracker
      · simp only [Reading, hclient] at hread
        obtain ⟨hup, hpub⟩ := hread
        obtain ⟨hflight, hlost⟩ := htimely hclient
        have horder := hacc.order c.jobId hlost
        rw [hflight, append_nil] at horder
        refine .inr ⟨hpub, ?_⟩
        change s.called ++ _ = calls (s.emitted c.jobId)
        rw [horder]
        exact (hup.answer htracker).2
    · cases hstep
      exact .inl (.inl rfl)
  | drainCallbacks todo =>
    rw [hclient] at h
    simp only [hclient] at hstep
    refine .inr ?_
    cases todo with
    | nil =>
      cases hstep
      intro _
      simp only [map_nil, append_nil] at h
      exact h
    | cons inc todo =>
      cases hstep
      refine ⟨h.1, ?_⟩
      change s.called ++ [inc.call] ++ todo.map Incumbent.call = calls (s.emitted c.jobId)
      rw [← h.2]
      simp
  | returned result =>
    simp only [hclient] at hstep
    cases hstep

lemma Following.step (hcb : c.hasCallback = true) (h : s.Following c) (htimely : s.Timely c a)
    (hstep : s.step c a = some s') : s'.Following c := by
  obtain ⟨hacc, hstate⟩ := h
  refine ⟨step_accounted hacc hstep, ?_⟩
  rcases hstate with hexcused | ⟨hread, hcomplete⟩
  · exact .inl (hexcused.step hacc hstep)
  by_cases ha : ∃ due error, a = .client due error
  · obtain ⟨due, error, rfl⟩ := ha
    rcases hcomplete.client hcb hacc hread htimely hstep with hexcused | hcomplete'
    · exact .inl hexcused
    · rcases hread with hgone | hread
      · exact .inr ⟨.inl (hgone.client hstep), hcomplete'⟩
      · rcases hread.client hacc hstep with hexcused | hread'
        · exact .inl hexcused
        · exact .inr ⟨.inr hread', hcomplete'⟩
  · have hframe := step_server (c := c) hacc (fun due error he => ha ⟨due, error, he⟩) hstep
    refine .inr ⟨?_, hcomplete.server hacc hframe hstep⟩
    rcases hread with hgone | hread
    · exact .inl (hframe.deleted hgone)
    · rcases hframe.kept with hkept | hgone
      · exact .inr (hread.server hframe hkept)
      · exact .inl hgone

/-- A client that has looked too early never gets the rest. -/
lemma Short.step (h : s.Short c) (hacc : s.Accounted) (hstep : s.step c a = some s') :
    s'.Short c := by
  have hgrows := emitted_grows hstep c.jobId
  by_cases ha : ∃ due error, a = .client due error
  · obtain ⟨due, error, rfl⟩ := ha
    rcases h with ⟨todo, hclient, hlength⟩ | ⟨result, hclient, hlength⟩
    · simp only [State.step, clientStep, hclient] at hstep
      cases todo with
      | nil =>
        cases hstep
        rw [length_nil, Nat.add_zero] at hlength
        exact .inr ⟨_, rfl, hlength⟩
      | cons inc todo =>
        cases hstep
        refine .inl ⟨todo, rfl, ?_⟩
        simp only [invoke, length_append, length_cons, length_nil] at hlength ⊢
        omega
    · simp only [State.step, clientStep, hclient] at hstep
      cases hstep
  · have hframe := step_server (c := c) hacc (fun due error he => ha ⟨due, error, he⟩) hstep
    rcases h with ⟨todo, hclient, hlength⟩ | ⟨result, hclient, hlength⟩
    · exact .inl ⟨todo, by rw [hframe.client, hclient], by rw [hframe.called]; omega⟩
    · exact .inr ⟨result, by rw [hframe.client, hclient], by rw [hframe.called]; omega⟩

lemma Following.short (h : s.Following c) (hlate : ¬ s.Timely c a) (hstep : s.step c a = some s')
    : s'.Excused c ∨ s'.Short c := by
  obtain ⟨hacc, hstate⟩ := h
  rcases hstate with hexcused | ⟨hread, -⟩
  · exact .inl (hexcused.step hacc hstep)
  cases a with
  | client due error =>
    cases error with
    | some message => exact absurd trivial hlate
    | none =>
      simp only [Timely, Classical.not_imp] at hlate
      obtain ⟨hclient, hrest⟩ := hlate
      simp only [State.step, clientStep, hclient] at hstep
      cases htracker : s.tracker c.jobId with
      | none =>
        simp only [htracker] at hstep
        cases hstep
        exact .inl (.inl rfl)
      | some info =>
        simp only [htracker] at hstep
        cases hstep
        rcases hread with hgone | hread
        · rw [hgone.2] at htracker
          cases htracker
        · simp only [Reading, hclient] at hread
          have hanswer := congrArg length (hread.1.answer htracker).2
          rw [length_append, length_map, length_calls] at hanswer
          have htotal := hacc.total c.jobId
          have hmissing : 0 < (s.inFlight c.jobId).length + (s.lost c.jobId).length := by
            by_contra hzero
            have hflight : (s.inFlight c.jobId).length = 0 := by omega
            have hlost : (s.lost c.jobId).length = 0 := by omega
            exact hrest ⟨length_eq_zero_iff.mp hflight, length_eq_zero_iff.mp hlost⟩
          refine .inr (.inl ⟨_, rfl, ?_⟩)
          change s.called.length + _ < (s.emitted c.jobId).length
          omega
  | _ => exact absurd trivial hlate

end State

/-- When `poll_for_completion` reports a completed job, no call having failed and the callback never
having asked to stop, the callback was called once for each incumbent that the worker emitted, in order,
if and only if the last look at the tracker found all of them there. -/
theorem incumbents_delivered_iff (c : Config V) (hcb : c.hasCallback = true) {as : List (Action V)}
    {s : State V} (hrun : State.initial.run c as = some s) {result : PollResult}
    (hreturned : s.client = .returned result) (hcompleted : result.completed = true)
    (hcalls : s.callFailed = false) (hgo : ∀ l, l <+: s.called → l ≠ [] → c.callback l = true) :
    s.called = calls (s.emitted c.jobId) ↔
      Along (State.step c) (State.Timely c) State.initial as := by
  have hexcused : ¬ s.Excused c := by
    rintro (hfailed | ⟨l, hl, hne, hstop⟩)
    · rw [hcalls] at hfailed
      cases hfailed
    · rw [hgo l hl hne] at hstop
      cases hstop
  constructor
  · intro hall
    by_contra hlate
    obtain ⟨before, a, after, t, t', -, halong, hbefore, ha, hstep, hafter⟩ :=
      exists_of_not_along hlate hrun
    have hfollowing : t.Following c := invariant_of_along
      (fun _ _ _ h htimely hs => State.Following.step hcb h htimely hs) State.initial_following
      halong hbefore
    have hinv : s.Accounted ∧ (s.Excused c ∨ s.Short c) := by
      have hstart : t'.Accounted ∧ (t'.Excused c ∨ t'.Short c) :=
        ⟨State.step_accounted hfollowing.1 hstep, hfollowing.short ha hstep⟩
      refine invariant_of_run (I := fun u => u.Accounted ∧ (u.Excused c ∨ u.Short c)) ?_ hstart
        hafter
      rintro u b u' ⟨hacc, hbad⟩ hu
      refine ⟨State.step_accounted hacc hu, ?_⟩
      rcases hbad with hbad | hbad
      · exact .inl (hbad.step hacc hu)
      · exact .inr (hbad.step hacc hu)
    rcases hinv.2 with hbad | ⟨todo, hclient, -⟩ | ⟨result', -, hlength⟩
    · exact hexcused hbad
    · rw [hreturned] at hclient
      cases hclient
    · rw [hall, length_calls] at hlength
      omega
  · intro halong
    have hfollowing : s.Following c := invariant_of_along
      (fun _ _ _ h htimely hs => State.Following.step hcb h htimely hs) State.initial_following
      halong hrun
    rcases hfollowing.2 with hbad | ⟨-, hcomplete⟩
    · exact absurd hbad hexcused
    · simp only [State.Complete, hreturned] at hcomplete
      exact (hcomplete hcompleted).2

def oneJob : Config ℕ := ⟨1, true, fun _ => true, 10, fun _ => 16⟩

/-- The client has had the first incumbent when the worker publishes the result. -/
def timelyRun : List (Action ℕ) :=
  [.submit 1, .claim 0 1, .emit 0 ⟨5, 3, [1]⟩, .emit 0 ⟨4, 3, [0]⟩, .receive 0, .storeIncumbent,
    .client true none, .client false none, .client false none, .client false none,
    .client false none, .publish 0 .success, .receive 0, .storeIncumbent, .retrieve 0, .deliver "",
    .client false none, .client false none, .client false none, .client false none,
    .client false none]

theorem incumbents_delivered_one : ∃ s, State.initial.run oneJob timelyRun = some s ∧
    s.called = [⟨0, 5, [1]⟩, ⟨1, 4, [0]⟩] ∧ (s.called = calls (s.emitted oneJob.jobId) ↔
      Along (State.step oneJob) (State.Timely oneJob) State.initial timelyRun) :=
  ⟨_, rfl, rfl, incumbents_delivered_iff oneJob rfl
    (show State.initial.run oneJob timelyRun = some _ from rfl) rfl rfl rfl fun _ _ _ => rfl⟩

/-- The status changes, and the client has its last look, before the incumbent thread has read the
pipe. -/
def lateRun : List (Action ℕ) :=
  [.submit 1, .claim 0 1, .emit 0 ⟨5, 3, [1]⟩, .publish 0 .success, .retrieve 0, .deliver "",
    .client false none, .client false none, .client false none, .client false none, .receive 0,
    .storeIncumbent]

theorem late_incumbent_missed : ∃ s, State.initial.run oneJob lateRun = some s ∧
    s.client = .returned ⟨true, false, ""⟩ ∧ s.callFailed = false ∧
    (∀ l, oneJob.callback l = true) ∧ s.called ≠ calls (s.emitted oneJob.jobId) :=
  ⟨_, rfl, rfl, rfl, fun _ => rfl, (cons_ne_nil _ _).symm⟩

end CuOpt.Grpc.Incumbents
