import CuOpt.BranchAndBound.DeterministicRun

/-! The sync callback does not see in which order heuristic solutions arrived, and a run depends on
their timestamps only. -/

namespace CuOpt.BranchAndBound

open Sorting List
open Multiset (coe_eq_coe)

/-- Timestamp, objective and solution: all that the replay reads of a heuristic solution. -/
def QueuedIntegerSolution.replayKey (sol : QueuedIntegerSolution) : ℚ ×ₗ ℚ ×ₗ List ℚ :=
  toLex (sol.workTimestamp, toLex (sol.objective, sol.solution))

lemma tieBreak_iff {κ : Type} [LinearOrder κ] (x y : κ) (rest : Bool) :
    (if x ≠ y then decide (x < y) else rest) = true ↔ x < y ∨ x = y ∧ rest = true := by
  rcases eq_or_ne x y with rfl | hne
  · simp
  · simp [hne]

lemma heuristicLess_byKey : ByKey heuristicLess QueuedIntegerSolution.replayKey := by
  intro a b
  unfold heuristicLess QueuedIntegerSolution.replayKey
  rw [tieBreak_iff, tieBreak_iff, decide_eq_true_eq, Prod.Lex.toLex_lt_toLex,
    Prod.Lex.toLex_lt_toLex]

lemma map_toReplayItem_of_keys {l l' : List QueuedIntegerSolution}
    (h : l.map QueuedIntegerSolution.replayKey = l'.map QueuedIntegerSolution.replayKey) :
    l.map QueuedIntegerSolution.toReplayItem = l'.map QueuedIntegerSolution.toReplayItem := by
  let item : ℚ ×ₗ ℚ ×ₗ List ℚ → ReplayItem := fun k =>
    .heuristic (ofLex k).1 (ofLex (ofLex k).2).1 (ofLex (ofLex k).2).2
  have hitem := congrArg (map item) h
  rw [map_map, map_map] at hitem
  exact hitem

lemma mergeEvent_congr (e : BbEvent) {rest : List QueuedIntegerSolution → List ReplayItem}
    (hrest : ∀ sols sols' : List QueuedIntegerSolution,
      sols.map QueuedIntegerSolution.toReplayItem = sols'.map QueuedIntegerSolution.toReplayItem →
        rest sols = rest sols')
    {sols sols' : List QueuedIntegerSolution}
    (h : sols.map QueuedIntegerSolution.toReplayItem =
      sols'.map QueuedIntegerSolution.toReplayItem) :
    mergeEvent e rest sols = mergeEvent e rest sols' := by
  induction sols generalizing sols' with
  | nil =>
    have hnil : sols' = [] := map_eq_nil_iff.mp h.symm
    rw [hnil]
  | cons sol sols ih =>
    cases sols' with
    | nil => cases h
    | cons sol' sols' =>
      obtain ⟨hhead, htail⟩ := cons.inj h
      have htime : sol.workTimestamp = sol'.workTimestamp := (ReplayItem.heuristic.inj hhead).1
      simp only [mergeEvent, htime, hhead, hrest _ _ h, ih htail]

lemma mergeReplay_congr (events : List BbEvent) {sols sols' : List QueuedIntegerSolution}
    (h : sols.map QueuedIntegerSolution.toReplayItem =
      sols'.map QueuedIntegerSolution.toReplayItem) :
    mergeReplay events sols = mergeReplay events sols' := by
  induction events generalizing sols sols' with
  | nil => exact h
  | cons e events ih => exact mergeEvent_congr e (fun _ _ => ih) h

section ArrivalOrder

variable (cfg : SolverConfig) (s : SolverState)

def replayOf (queue : List QueuedIntegerSolution) : List ReplayItem :=
  mergeReplay (collectAndSortEvents cfg s.workers).1 (cfg.std.sort heuristicLess
    (queue.filter fun sol => sol.workTimestamp < s.currentHorizon))

/-- The state after the callback, but for its heuristic queue, as a function of the replay. -/
def afterReplay (replay : List ReplayItem) : SolverState :=
  finishSync cfg (applyReplay cfg replay
    { s with workers := (collectAndSortEvents cfg s.workers).2, heuristicQueue := [] })

lemma syncCallback_eq (queue : List QueuedIntegerSolution) :
    syncCallback cfg { s with heuristicQueue := queue } =
      { state := { afterReplay cfg s (replayOf cfg s queue) with
          heuristicQueue := queue.filter fun sol => ¬ sol.workTimestamp < s.currentHorizon }
        replayed := replayOf cfg s queue
        lowerBound := computeLowerBound (afterReplay cfg s (replayOf cfg s queue)) } := rfl

lemma replayOf_eq {queue queue' : List QueuedIntegerSolution}
    (hbelow : (queue.filter fun sol => sol.workTimestamp < s.currentHorizon).Perm
      (queue'.filter fun sol => sol.workTimestamp < s.currentHorizon)) :
    replayOf cfg s queue = replayOf cfg s queue' :=
  mergeReplay_congr _ (map_toReplayItem_of_keys (cfg.std.map_key_eq heuristicLess_byKey hbelow))

/-- Two executions of a horizon that differ only in the arrival order of the heuristic solutions
below the horizon replay the same sequence and end in the same state, up to the order of the queue
left for the next horizon. -/
theorem syncCallback_arrivalOrder (queue queue' : List QueuedIntegerSolution)
    (hbelow : (queue.filter fun sol => sol.workTimestamp < s.currentHorizon).Perm
      (queue'.filter fun sol => sol.workTimestamp < s.currentHorizon))
    (hfuture : ∀ sol, ¬ sol.workTimestamp < s.currentHorizon → (sol ∈ queue ↔ sol ∈ queue')) :
    let r := syncCallback cfg { s with heuristicQueue := queue }
    let r' := syncCallback cfg { s with heuristicQueue := queue' }
    r.replayed = r'.replayed ∧ r.state.incumbent = r'.state.incumbent ∧
      r.state.upperBound = r'.state.upperBound ∧ r.lowerBound = r'.lowerBound ∧
      r.state = { r'.state with heuristicQueue := r.state.heuristicQueue } ∧
      ∀ sol, sol ∈ r.state.heuristicQueue ↔ sol ∈ r'.state.heuristicQueue := by
  have hreplay := replayOf_eq cfg s hbelow
  simp only [syncCallback_eq, hreplay, true_and]
  intro sol
  simp only [mem_filter, decide_eq_true_eq]
  constructor
  · rintro ⟨hmem, hlate⟩
    exact ⟨(hfuture sol hlate).mp hmem, hlate⟩
  · rintro ⟨hmem, hlate⟩
    exact ⟨(hfuture sol hlate).mpr hmem, hlate⟩

end ArrivalOrder

def arrivals : List QueuedIntegerSolution :=
  [⟨4, [1], 0, -1, 0, 1 / 2⟩, ⟨3, [0], 0, -1, 0, 1 / 2⟩, ⟨2, [2], 0, -1, 0, 3⟩]

theorem arrivals_reversed :
    let s := { initialState 2 0 0 ⊤ none with currentHorizon := 1 }
    let r := syncCallback plainConfig { s with heuristicQueue := arrivals }
    let r' := syncCallback plainConfig { s with heuristicQueue := arrivals.reverse }
    r.replayed = r'.replayed ∧ r.state.incumbent = r'.state.incumbent ∧
      r.state.upperBound = r'.state.upperBound ∧ r.lowerBound = r'.lowerBound ∧
      r.state = { r'.state with heuristicQueue := r.state.heuristicQueue } ∧
      ∀ sol, sol ∈ r.state.heuristicQueue ↔ sol ∈ r'.state.heuristicQueue :=
  syncCallback_arrivalOrder plainConfig { initialState 2 0 0 ⊤ none with currentHorizon := 1 }
    arrivals arrivals.reverse ((reverse_perm arrivals).symm.filter _)
    fun _ _ => (reverse_perm arrivals).symm.mem_iff

section ArrivalTimes

variable {cfg : SolverConfig} {s s' : SolverState} {a : Action} {l l' : List Action}
  {q : List QueuedIntegerSolution}

def SolverState.unordered (s : SolverState) : SolverState × Multiset QueuedIntegerSolution :=
  ({ s with heuristicQueue := [] }, s.heuristicQueue)

open SolverState (unordered)

def Action.arrivals : Action → List QueuedIntegerSolution
  | .arrive objective solution workTimestamp => [⟨objective, solution, 0, -1, 0, workTimestamp⟩]
  | _ => []

def Action.horizonAfter (cfg : SolverConfig) (horizon : ℚ) : Action → ℚ
  | .sync => horizon + cfg.horizonStep
  | _ => horizon

/-- In the second run one arrival comes one action later, but not after the sync that waits for it
(`wait_for_producers`). -/
inductive Later (cfg : SolverConfig) : ℚ → List Action → List Action → Prop
  | here {horizon time : ℚ} (objective : ℚ) (solution : List ℚ) (a : Action) (l : List Action)
      (h : a = .sync → horizon ≤ time) :
      Later cfg horizon (.arrive objective solution time :: a :: l)
        (a :: .arrive objective solution time :: l)
  | next {horizon : ℚ} {l l' : List Action} (a : Action)
      (h : Later cfg (a.horizonAfter cfg horizon) l l') : Later cfg horizon (a :: l) (a :: l')

lemma step_frame (ha : a ≠ .sync) (q : List QueuedIntegerSolution) :
    step cfg { s with heuristicQueue := q } a = (step cfg s a).map fun r =>
      { r with heuristicQueue := q ++ a.arrivals, currentHorizon := s.currentHorizon } := by
  have hworker : ∀ i f, workerStep { s with heuristicQueue := q } i f = (workerStep s i f).map
      fun r => { r with heuristicQueue := q ++ [], currentHorizon := s.currentHorizon } := by
    intro i f
    unfold workerStep
    rw [append_nil]
    cases s.workers[i]? with
    | none => rfl
    | some w =>
      change (f s.tree w).map _ = ((f s.tree w).map _).map _
      rw [Option.map_map]
      rfl
  cases a with
  | beginNode i => exact hworker i beginNode
  | finishNode i result => exact hworker i fun tree w => finishNode cfg tree w result
  | arrive objective solution time => rfl
  | dive i sol =>
    simp only [Action.arrivals, append_nil]
    rfl
  | sync => exact absurd rfl ha

lemma step_currentHorizon (h : step cfg s a = some s') :
    s'.currentHorizon = a.horizonAfter cfg s.currentHorizon := by
  by_cases ha : a = .sync
  · subst ha
    cases h
    rfl
  · have hs : step cfg s a = _ := step_frame ha s.heuristicQueue
    obtain ⟨r, -, rfl⟩ := Option.map_eq_some_iff.mp (hs.symm.trans h)
    cases a <;> first | rfl | exact absurd rfl ha

lemma sync_congr (h : q.Perm s.heuristicQueue) :
    (syncCallback cfg { s with heuristicQueue := q }).state.unordered =
      (syncCallback cfg s).state.unordered := by
  have hqueue := h.filter fun sol => ¬ sol.workTimestamp < s.currentHorizon
  rw [syncCallback_eq, replayOf_eq cfg s (h.filter _)]
  exact Prod.ext rfl (coe_eq_coe.mpr hqueue)

lemma step_congr (h : s.unordered = s'.unordered) (a : Action) :
    (step cfg s a).map unordered = (step cfg s' a).map unordered := by
  obtain ⟨q, hperm, rfl⟩ : ∃ q, q.Perm s.heuristicQueue ∧ s' = { s with heuristicQueue := q } := by
    obtain ⟨hrest, hqueue⟩ := Prod.mk.inj h
    exact ⟨_, (coe_eq_coe.mp hqueue).symm, by cases s; cases s'; cases hrest; rfl⟩
  by_cases ha : a = .sync
  · subst ha
    exact congrArg some (sync_congr hperm).symm
  · have hs : step cfg s a = _ := step_frame ha s.heuristicQueue
    rw [step_frame ha q, hs]
    cases step cfg s a with
    | none => rfl
    | some r =>
      have hqueue : (s.heuristicQueue ++ a.arrivals).Perm (q ++ a.arrivals) :=
        hperm.symm.append_right _
      exact congrArg some (Prod.ext rfl (coe_eq_coe.mpr hqueue))

lemma step_swap {objective time : ℚ} {solution : List ℚ}
    (h : a = .sync → s.currentHorizon ≤ time) :
    ((step cfg s (.arrive objective solution time)).bind (step cfg · a)).map unordered =
      ((step cfg s a).bind (step cfg · (.arrive objective solution time))).map unordered := by
  set sol : QueuedIntegerSolution := ⟨objective, solution, 0, -1, 0, time⟩ with hsol
  change (step cfg { s with heuristicQueue := s.heuristicQueue ++ [sol] } a).map _ = _
  by_cases ha : a = .sync
  · have hlate : ¬ sol.workTimestamp < s.currentHorizon := not_lt.mpr (h ha)
    subst ha
    -- the sync leaves the solution in the queue
    rw [step, syncCallback_eq, replayOf, filter_append, filter_append,
      filter_cons_of_neg (by simpa using hlate), filter_cons_of_pos (by simpa using hlate),
      filter_nil, filter_nil, append_nil]
    rfl
  · have hs : step cfg s a = _ := step_frame ha s.heuristicQueue
    rw [step_frame ha (s.heuristicQueue ++ [sol]), hs]
    cases step cfg s a with
    | none => rfl
    | some r =>
      have hqueue : (s.heuristicQueue ++ [sol] ++ a.arrivals).Perm
          (s.heuristicQueue ++ a.arrivals ++ [sol]) := by
        simp only [append_assoc]
        exact perm_append_comm.append_left _
      exact congrArg some (Prod.ext rfl (coe_eq_coe.mpr hqueue))

lemma bind_run_congr {o o' : Option SolverState} (h : o.map unordered = o'.map unordered)
    (l : List Action) :
    (o.bind (run cfg · l)).map unordered = (o'.bind (run cfg · l)).map unordered := by
  induction l generalizing o o' with
  | nil => simpa [run] using h
  | cons a l ih =>
    simp only [run, ← Option.bind_assoc]
    apply ih
    cases o with
    | none =>
      cases o' with
      | none => rfl
      | some s' => cases h
    | some s =>
      cases o' with
      | none => cases h
      | some s' => exact step_congr (Option.some.inj h) a

lemma Later.run_eq {horizon : ℚ} (h : Later cfg horizon l l') (hs : s.currentHorizon = horizon) :
    (run cfg s l).map unordered = (run cfg s l').map unordered := by
  induction h generalizing s with
  | here objective solution a l htime =>
    simp only [run, ← Option.bind_assoc]
    exact bind_run_congr (step_swap (hs ▸ htime)) l
  | next a _ ih =>
    simp only [run]
    cases hstep : step cfg s a with
    | none => rfl
    | some s' => exact ih (hs ▸ step_currentHorizon hstep)

/-- A run does not depend on when heuristic solutions arrive before the syncs that wait for them. -/
theorem run_arrivalTimes (h : Relation.EqvGen (Later cfg s.currentHorizon) l l') :
    (run cfg s l).map SolverState.unordered = (run cfg s l').map SolverState.unordered := by
  induction h with
  | rel l l' h => exact h.run_eq rfl
  | refl l => rfl
  | symm l l' _ ih => exact ih.symm
  | trans l₁ l₂ l₃ _ _ ih₁ ih₂ => exact ih₁.trans ih₂

theorem run_arrivalTimes_twoSyncs :
    let s := initialState 2 0 0 ⊤ none
    (run plainConfig s [.arrive 3 [0] (1 / 2), .sync, .sync]).map SolverState.unordered =
      (run plainConfig s [.sync, .arrive 3 [0] (1 / 2), .sync]).map SolverState.unordered :=
  run_arrivalTimes (.rel _ _ (.here _ _ _ _ fun _ => by norm_num [initialState]))

end ArrivalTimes

end CuOpt.BranchAndBound
