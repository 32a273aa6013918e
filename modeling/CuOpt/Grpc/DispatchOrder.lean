import CuOpt.Grpc.SlotContents

/-! Jobs are dispatched in the order of their tickets: for operations on the queue that are not
interrupted, and for a claim among the loads and stores of others. -/

namespace CuOpt.Grpc

open List (range replicate)
open Option (any_eq_true)

structure JobQueue where
  slot : ℕ → JobQueueEntry
  nextSeq : ℕ

namespace JobQueue

def storeAll (q : JobQueue) (i : ℕ) (stores : List Store) : JobQueue :=
  { q with slot := Function.update q.slot i (stores.foldl JobQueueEntry.store (q.slot i)) }

def publishReadyJobSlot (q : JobQueue) (i : ℕ) : JobQueue :=
  { q.storeAll i (publishStores q.nextSeq) with nextSeq := q.nextSeq + 1 }

def resetJobSlot (q : JobQueue) (i : ℕ) : JobQueue := q.storeAll i resetStores

def consider (q : JobQueue) (best : Option (ℕ × ℕ)) (i : ℕ) : Option (ℕ × ℕ) :=
  let seq := (q.slot i).enqueueSeq
  if (q.slot i).ready = false then best
  else if (q.slot i).claimed then best
  else if seq = 0 then best
  else
    match best with
    | none => some (i, seq)
    | some (_, bestSeq) => if seq < bestSeq then some (i, seq) else best

/-- The slot that is returned, `none` for -1. The loop is left without an answer after the given number
of rounds. -/
def claimReadyJobSlot (nJobs workerId workerPid : ℕ) : ℕ → JobQueue → Option (Option ℕ × JobQueue)
  | 0, _ => none
  | rounds + 1, q =>
    match (range nJobs).foldl q.consider none with
    | none => some (none, q)
    | some (slot, seq) =>
      if (q.slot slot).claimed then claimReadyJobSlot nJobs workerId workerPid rounds q
      else
        let q := q.storeAll slot [.claimed true]
        if (q.slot slot).ready = false ∨ (q.slot slot).enqueueSeq ≠ seq then
          claimReadyJobSlot nJobs workerId workerPid rounds (q.storeAll slot [.claimed false])
        else some (some slot, q.storeAll slot [.workerPid workerPid, .workerIndex workerId])

inductive Op
  | publish (i : ℕ)
  | claim (workerId workerPid : ℕ)
  | reset (i : ℕ)

def step (nJobs rounds : ℕ) (q : JobQueue) : Op → Option JobQueue
  | .publish i => some (q.publishReadyJobSlot i)
  | .claim workerId workerPid =>
    (q.claimReadyJobSlot nJobs workerId workerPid rounds).map Prod.snd
  | .reset i => some (q.resetJobSlot i)

def initial : JobQueue := ⟨fun _ => JobQueueEntry.free, 1⟩

def Waits (q : JobQueue) (i : ℕ) : Prop := (q.slot i).ready = true ∧ (q.slot i).claimed = false

structure Ticketed (q : JobQueue) : Prop where
  pos : ∀ i, (q.slot i).ready = true → 0 < (q.slot i).enqueueSeq
  lt : ∀ i, (q.slot i).ready = true → (q.slot i).enqueueSeq < q.nextSeq
  inj : ∀ i j, (q.slot i).ready = true → (q.slot j).ready = true →
    (q.slot i).enqueueSeq = (q.slot j).enqueueSeq → i = j
  next : 0 < q.nextSeq

variable {q q' : JobQueue} {nJobs rounds i j slot : ℕ} {ops : List Op}

lemma storeAll_slot (q : JobQueue) (i j : ℕ) (stores : List Store) :
    (q.storeAll i stores).slot j =
      if j = i then stores.foldl JobQueueEntry.store (q.slot i) else q.slot j :=
  Function.update_apply _ _ _ _

def Best (q : JobQueue) (n : ℕ) : Option (ℕ × ℕ) → Prop
  | none => ∀ i < n, ¬q.Waits i
  | some (slot, seq) => slot < n ∧ q.Waits slot ∧ (q.slot slot).enqueueSeq = seq ∧
    ∀ i < n, q.Waits i → seq ≤ (q.slot i).enqueueSeq

lemma Best.consider {n : ℕ} {best : Option (ℕ × ℕ)} (hbest : q.Best n best) (h : q.Ticketed) :
    q.Best (n + 1) (q.consider best n) := by
  have hn := Nat.lt_succ_self n
  have hskip : ¬q.Waits n → q.Best (n + 1) best := by
    intro hnot
    cases best with
    | none => exact Nat.forall_lt_succ_right.mpr ⟨hbest, hnot⟩
    | some best =>
      obtain ⟨hslot, hwaits, hseq, hmin⟩ := hbest
      exact ⟨hslot.trans hn, hwaits, hseq,
        Nat.forall_lt_succ_right.mpr ⟨hmin, fun hwaits => absurd hwaits hnot⟩⟩
  unfold JobQueue.consider
  by_cases hready : (q.slot n).ready = false
  · rw [if_pos hready]
    exact hskip fun hwaits => by rw [hwaits.1] at hready; cases hready
  · rw [if_neg hready]
    rw [Bool.not_eq_false] at hready
    by_cases hclaimed : (q.slot n).claimed = true
    · rw [if_pos hclaimed]
      exact hskip fun hwaits => by rw [hwaits.2] at hclaimed; cases hclaimed
    · rw [if_neg hclaimed, if_neg (h.pos n hready).ne']
      rw [Bool.not_eq_true] at hclaimed
      cases best with
      | none =>
        exact ⟨hn, ⟨hready, hclaimed⟩, rfl, Nat.forall_lt_succ_right.mpr
          ⟨fun i hi hwaits => absurd hwaits (hbest i hi), fun _ => le_rfl⟩⟩
      | some best =>
        obtain ⟨hslot, hwaits, hseq, hmin⟩ := hbest
        dsimp only
        split_ifs with hlt
        · exact ⟨hn, ⟨hready, hclaimed⟩, rfl, Nat.forall_lt_succ_right.mpr
            ⟨fun i hi hwaits => hlt.le.trans (hmin i hi hwaits), fun _ => le_rfl⟩⟩
        · exact ⟨hslot.trans hn, hwaits, hseq,
            Nat.forall_lt_succ_right.mpr ⟨hmin, fun _ => not_lt.mp hlt⟩⟩

lemma scan_best (h : q.Ticketed) (n : ℕ) : q.Best n ((range n).foldl q.consider none) := by
  induction n with
  | zero => exact fun i hi => absurd hi (Nat.not_lt_zero i)
  | succ n ih =>
    rw [List.range_succ, List.foldl_append]
    exact ih.consider h

def claimedBy (q : JobQueue) (slot workerId workerPid : ℕ) : JobQueue :=
  (q.storeAll slot [.claimed true]).storeAll slot [.workerPid workerPid, .workerIndex workerId]

lemma claimedBy_slot (slot workerId workerPid i : ℕ) :
    (q.claimedBy slot workerId workerPid).slot i = if i = slot then
      { q.slot slot with claimed := true, workerPid := workerPid, workerIndex := workerId }
      else q.slot i := by
  rw [claimedBy, storeAll_slot, storeAll_slot, storeAll_slot, if_pos rfl]
  split_ifs
  · rfl
  · rfl

/-- Without interruption the first round has the answer. -/
lemma claim_eq (h : q.Ticketed) (nJobs rounds workerId workerPid : ℕ) :
    (q.claimReadyJobSlot nJobs workerId workerPid (rounds + 1) = some (none, q) ∧
        ∀ i < nJobs, ¬q.Waits i) ∨
      ∃ slot, q.claimReadyJobSlot nJobs workerId workerPid (rounds + 1) =
          some (some slot, q.claimedBy slot workerId workerPid) ∧ slot < nJobs ∧ q.Waits slot ∧
        ∀ i < nJobs, q.Waits i → (q.slot slot).enqueueSeq ≤ (q.slot i).enqueueSeq := by
  have hspec := scan_best h nJobs
  unfold claimReadyJobSlot
  cases hbest : (range nJobs).foldl q.consider none with
  | none =>
    rw [hbest] at hspec
    exact .inl ⟨rfl, hspec⟩
  | some best =>
    obtain ⟨slot, seq⟩ := best
    rw [hbest] at hspec
    obtain ⟨hslot, hwaits, rfl, hmin⟩ := hspec
    refine .inr ⟨slot, ?_, hslot, hwaits, hmin⟩
    have hkept : (q.storeAll slot [.claimed true]).slot slot =
        { q.slot slot with claimed := true } := by
      rw [storeAll_slot, if_pos rfl]
      rfl
    dsimp only
    rw [hkept, if_neg (by simp [hwaits.2]), if_neg (by simp [hwaits.1])]
    rfl

lemma initial_ticketed : initial.Ticketed := by
  constructor
  case pos | lt => exact nofun
  case inj => exact nofun
  case next => exact Nat.one_pos

/-- A slot is reset or keeps its ticket, or it gets the next one. -/
lemma step_slot {op : Op} (h : q.Ticketed) (hstep : q.step nJobs (rounds + 1) op = some q') :
    (∃ i, q'.nextSeq = q.nextSeq + 1 ∧ (q'.slot i).enqueueSeq = q.nextSeq ∧
        ∀ j, j ≠ i → q'.slot j = q.slot j) ∨
      (q'.nextSeq = q.nextSeq ∧ ∀ i, (q'.slot i).ready = true →
        (q.slot i).ready = true ∧ (q'.slot i).enqueueSeq = (q.slot i).enqueueSeq ∧
          ((q'.slot i).claimed = false → (q.slot i).claimed = false)) := by
  cases op with
  | publish i =>
    rw [← Option.some.inj hstep]
    refine .inl ⟨i, rfl, ?_, fun j hj => ?_⟩
    · show ((q.storeAll i (publishStores q.nextSeq)).slot i).enqueueSeq = _
      rw [storeAll_slot, if_pos rfl]
      rfl
    · show (q.storeAll i (publishStores q.nextSeq)).slot j = _
      rw [storeAll_slot, if_neg hj]
  | claim workerId workerPid =>
    right
    rcases claim_eq h nJobs rounds workerId workerPid with ⟨heq, -⟩ | ⟨slot, heq, -⟩
    · rw [step, heq] at hstep
      rw [← Option.some.inj hstep]
      exact ⟨rfl, fun i hi => ⟨hi, rfl, id⟩⟩
    · rw [step, heq] at hstep
      rw [← Option.some.inj hstep]
      refine ⟨rfl, fun i hi => ?_⟩
      simp only [claimedBy_slot] at hi ⊢
      by_cases hslot : i = slot
      · subst hslot
        rw [if_pos rfl] at hi
        simp only [if_true]
        exact ⟨hi, trivial, nofun⟩
      · rw [if_neg hslot] at hi
        simp only [if_neg hslot]
        exact ⟨hi, trivial, id⟩
  | reset k =>
    rw [← Option.some.inj hstep]
    refine .inr ⟨rfl, fun i hi => ?_⟩
    simp only [resetJobSlot, storeAll_slot] at hi ⊢
    by_cases hk : i = k
    · rw [if_pos hk] at hi
      cases hi
    · rw [if_neg hk] at hi
      simp only [if_neg hk]
      exact ⟨hi, trivial, id⟩

lemma step_ticketed {op : Op} (h : q.Ticketed)
    (hstep : q.step nJobs (rounds + 1) op = some q') : q'.Ticketed := by
  rcases step_slot h hstep with ⟨k, hnext, hseq, hother⟩ | ⟨hnext, hkept⟩
  · have hold : ∀ i, i ≠ k → (q'.slot i).ready = true →
        0 < (q'.slot i).enqueueSeq ∧ (q'.slot i).enqueueSeq < q.nextSeq := by
      intro i hi hready
      rw [hother i hi] at hready ⊢
      exact ⟨h.pos i hready, h.lt i hready⟩
    constructor
    case pos =>
      intro i hready
      by_cases hi : i = k
      · rw [hi, hseq]
        exact h.next
      · exact (hold i hi hready).1
    case lt =>
      intro i hready
      rw [hnext]
      by_cases hi : i = k
      · rw [hi, hseq]
        exact Nat.lt_succ_self _
      · exact (hold i hi hready).2.trans (Nat.lt_succ_self _)
    case inj =>
      intro i j hi hj heq
      by_cases hik : i = k
      · by_cases hjk : j = k
        · rw [hik, hjk]
        · rw [hik, hseq] at heq
          exact absurd heq (hold j hjk hj).2.ne'
      · by_cases hjk : j = k
        · rw [hjk, hseq] at heq
          exact absurd heq (hold i hik hi).2.ne
        · rw [hother i hik] at hi heq
          rw [hother j hjk] at hj heq
          exact h.inj i j hi hj heq
    case next =>
      rw [hnext]
      exact Nat.succ_pos _
  · constructor
    case pos =>
      intro i hready
      obtain ⟨hold, hseq, -⟩ := hkept i hready
      rw [hseq]
      exact h.pos i hold
    case lt =>
      intro i hready
      obtain ⟨hold, hseq, -⟩ := hkept i hready
      rw [hseq, hnext]
      exact h.lt i hold
    case inj =>
      intro i j hi hj heq
      obtain ⟨hi', hseqi, -⟩ := hkept i hi
      obtain ⟨hj', hseqj, -⟩ := hkept j hj
      rw [hseqi, hseqj] at heq
      exact h.inj i j hi' hj' heq
    case next =>
      rw [hnext]
      exact h.next

/-- A ticket that was taken and whose job does not wait is never seen again. -/
lemma step_gone {op : Op} {seq : ℕ} (h : q.Ticketed) (hlt : seq < q.nextSeq)
    (hgone : ∀ i, q.Waits i → (q.slot i).enqueueSeq ≠ seq)
    (hstep : q.step nJobs (rounds + 1) op = some q') :
    seq < q'.nextSeq ∧ ∀ i, q'.Waits i → (q'.slot i).enqueueSeq ≠ seq := by
  rcases step_slot h hstep with ⟨k, hnext, hseq, hother⟩ | ⟨hnext, hkept⟩
  · refine ⟨hnext ▸ hlt.trans (Nat.lt_succ_self _), fun i hi => ?_⟩
    by_cases hk : i = k
    · rw [hk, hseq]
      exact hlt.ne'
    · rw [Waits, hother i hk] at hi
      rw [hother i hk]
      exact hgone i hi
  · refine ⟨hnext ▸ hlt, fun i hi => ?_⟩
    obtain ⟨hready, hseq, hclaimed⟩ := hkept i hi.1
    rw [hseq]
    exact hgone i ⟨hready, hclaimed hi.2⟩

def Gone (seq : ℕ) (q : JobQueue) : Prop :=
  q.Ticketed ∧ seq < q.nextSeq ∧ ∀ i, q.Waits i → (q.slot i).enqueueSeq ≠ seq

lemma gone_claimedBy (h : q.Ticketed) {workerId workerPid : ℕ} (hwaits : q.Waits slot)
    (hstep : q.step nJobs (rounds + 1) (.claim workerId workerPid) =
      some (q.claimedBy slot workerId workerPid)) :
    Gone (q.slot slot).enqueueSeq (q.claimedBy slot workerId workerPid) := by
  refine ⟨step_ticketed h hstep, h.lt slot hwaits.1, fun i hi heq => ?_⟩
  rw [Waits, claimedBy_slot] at hi
  rw [claimedBy_slot] at heq
  by_cases hslot : i = slot
  · rw [if_pos hslot] at hi
    cases hi.2
  · rw [if_neg hslot] at hi heq
    exact hslot (h.inj i slot hi.1 hwaits.1 heq)

end JobQueue

namespace Server

variable {c : ServerConfig} {s s' : Server} {a : Action} {pid i t : ℕ}

def Waits (s : Server) (i t : ℕ) : Prop :=
  (s.slot i).ready = true ∧ (s.slot i).claimed = false ∧ (s.slot i).enqueueSeq = t ∧ 0 < t

instance (s : Server) (i t : ℕ) : Decidable (s.Waits i t) :=
  inferInstanceAs (Decidable (_ ∧ _ ∧ _ ∧ _))

/-- A worker that scanned past the slot knows of a ticket that is at most this one. -/
def Knows (i t : ℕ) : WorkerPc → Prop
  | .scan k best | .scanClaimed k best | .scanSeq k best =>
    i < k → ∃ slot seq, best = some (slot, seq) ∧ seq ≤ t
  | .claim _ seq | .checkReady _ seq | .checkSeq _ seq => seq ≤ t
  | _ => True

lemma knows_scan_zero (i t : ℕ) : Knows i t (.scan 0 none) :=
  fun hi => absurd hi (Nat.not_lt_zero i)

/-- A slot that is passed over does not have the job. -/
lemma Knows.skip {k : ℕ} {best : Option (ℕ × ℕ)}
    (h : i < k → ∃ slot seq, best = some (slot, seq) ∧ seq ≤ t) (hk : i ≠ k) :
    Knows i t (.scan (k + 1) best) := by
  intro hi
  apply h
  omega

lemma workStep_knows (h : Knows i t (s.worker pid)) (hwaits : s.Waits i t) (hi : i < c.maxJobs)
    (hstep : s.workStep c pid = some s') : Knows i t (s'.worker pid) := by
  obtain ⟨hready, hclaimed, hseq, hpos⟩ := hwaits
  have hset : ∀ (s₀ : Server) pc, Knows i t pc → Knows i t ((s₀.setWorker pid pc).worker pid) := by
    intro s₀ pc hpc
    rw [setWorker_worker]
    exact hpc
  unfold workStep at hstep
  by_cases halive : s.alive pid = false
  · rw [if_pos halive] at hstep
    cases hstep
  rw [if_neg halive] at hstep
  cases hpc : s.worker pid <;> rw [hpc] at h <;> simp only [hpc] at hstep
  case exited => cases hstep
  case scan k best =>
    split_ifs at hstep with hend hr
    · cases best with
      | none =>
        cases hstep
        exact hset _ _ (knows_scan_zero i t)
      | some best =>
        cases hstep
        obtain ⟨slot, seq, heq, hle⟩ := h (hi.trans_le hend)
        cases heq
        exact hset _ _ hle
    · cases hstep
      exact hset _ _ h
    · cases hstep
      exact hset _ _ (Knows.skip h fun hk => hr (hk ▸ hready))
  case scanClaimed k best =>
    split_ifs at hstep with hc
    · cases hstep
      refine hset _ _ (Knows.skip h fun hk => ?_)
      rw [← hk, hclaimed] at hc
      cases hc
    · cases hstep
      exact hset _ _ h
  case scanSeq k best =>
    split_ifs at hstep with hzero hbetter
    · cases hstep
      refine hset _ _ (Knows.skip h fun hk => ?_)
      rw [← hk, hseq] at hzero
      exact hpos.ne' hzero
    · cases hstep
      apply hset
      intro hlt
      refine ⟨k, _, rfl, ?_⟩
      rcases Nat.lt_succ_iff_lt_or_eq.mp hlt with hk | rfl
      · obtain ⟨slot, seq, rfl, hle⟩ := h hk
        exact (of_decide_eq_true hbetter).le.trans hle
      · exact hseq.le
    · cases hstep
      apply hset
      intro hlt
      rcases Nat.lt_succ_iff_lt_or_eq.mp hlt with hk | rfl
      · exact h hk
      · cases best with
        | none => exact absurd rfl hbetter
        | some best =>
          refine ⟨best.1, best.2, rfl, ?_⟩
          rw [← hseq]
          exact not_lt.mp fun hlt => hbetter (decide_eq_true hlt)
  case claim slot seq =>
    split_ifs at hstep
    · cases hstep
      exact hset _ _ (knows_scan_zero i t)
    · cases hstep
      exact hset _ _ h
  case checkReady slot seq =>
    split_ifs at hstep
    · cases hstep
      exact hset _ _ h
    · cases hstep
      exact hset _ _ trivial
  case checkSeq slot seq | checkCancelled slot jobId =>
    split_ifs at hstep
    · cases hstep
      exact hset _ _ trivial
    · cases hstep
      exact hset _ _ trivial
  case read slot jobId =>
    split_ifs at hstep
    · cases hstep
      exact hset _ _ trivial
    · cases hpipe : s.pipe (c.workerId pid) <;> simp only [hpipe] at hstep
      · cases hstep
      · cases hstep
        exact hset _ _ trivial
  case reset slot todo =>
    cases todo with
    | nil =>
      cases hstep
      exact hset _ _ (knows_scan_zero i t)
    | cons st todo =>
      cases hstep
      exact hset _ _ trivial
  case release slot =>
    cases hstep
    exact hset _ _ (knows_scan_zero i t)
  all_goals
    cases hstep
    exact hset _ _ trivial

lemma step_knows (h : Knows i t (s.worker pid)) (hwaits : s.Waits i t) (hi : i < c.maxJobs)
    (hstep : s.step c a = some s') : Knows i t (s'.worker pid) := by
  by_cases ha : a = .work pid
  · subst ha
    exact workStep_knows h hwaits hi hstep
  · rcases step_worker hstep ha with heq | heq | heq
    · rw [heq]
      exact h
    · rw [heq]
      trivial
    · rw [heq]
      exact knows_scan_zero i t

/-- A worker comes to store its process id from the check of the ticket. -/
lemma checked_of_storePid {slot : ℕ} (hstep : s.workStep c pid = some s')
    (hpc : s'.worker pid = .storePid slot) :
    ∃ seq, s.worker pid = .checkSeq slot seq ∧ (s.slot slot).enqueueSeq = seq := by
  have hset : ∀ (s₀ : Server) pc, (s₀.setWorker pid pc).worker pid = .storePid slot →
      pc = .storePid slot := by
    intro s₀ pc h
    rwa [setWorker_worker] at h
  unfold workStep at hstep
  split_ifs at hstep
  cases hold : s.worker pid <;> simp only [hold] at hstep
  case checkSeq k seq =>
    split_ifs at hstep with hseq
    · cases hstep
      cases hset s _ hpc
      exact ⟨seq, rfl, hseq⟩
    · cases hstep
      cases hset s _ hpc
  case exited => cases hstep
  case scan k best =>
    split_ifs at hstep
    · cases best <;> (cases hstep; cases hset s _ hpc)
    · cases hstep
      cases hset s _ hpc
    · cases hstep
      cases hset s _ hpc
  case read k jobId =>
    split_ifs at hstep
    · cases hstep
      cases hset s _ hpc
    · cases hpipe : s.pipe (c.workerId pid) <;> simp only [hpipe] at hstep
      · cases hstep
      · cases hstep
        cases hset s _ hpc
  case reset k todo => cases todo <;> (cases hstep; cases hset _ _ hpc)
  case release | storePid | storeIndex | copyId | solve => cases hstep; cases hset _ _ hpc
  all_goals split_ifs at hstep <;> (cases hstep; cases hset _ _ hpc)

end Server

/-- Every claim returns the waiting job with the smallest ticket, and -1 just if no job waits, so that
of two jobs that waited together the one with the smaller ticket is claimed first. Among the steps of
others, no job is returned while one with a smaller ticket waits throughout. -/
theorem dispatched_in_order :
    (∀ (nJobs rounds : ℕ) (ops : List JobQueue.Op) (q : JobQueue),
      runFrom (JobQueue.step nJobs (rounds + 1)) JobQueue.initial ops = some q →
      ∀ workerId workerPid, ∃ answer q',
        q.claimReadyJobSlot nJobs workerId workerPid (rounds + 1) = some (answer, q') ∧
        (answer = none ↔ ∀ i < nJobs, ¬q.Waits i) ∧
        ∀ slot, answer = some slot → slot < nJobs ∧ q.Waits slot ∧
          ∀ i < nJobs, q.Waits i → (i ≠ slot → (q.slot slot).enqueueSeq < (q.slot i).enqueueSeq) ∧
            ∀ ops' later workerId' workerPid' slot' last,
              runFrom (JobQueue.step nJobs (rounds + 1)) q' ops' = some later →
              later.claimReadyJobSlot nJobs workerId' workerPid' (rounds + 1) =
                some (some slot', last) → (q.slot i).enqueueSeq = (later.slot slot').enqueueSeq →
              (q.slot slot).enqueueSeq < (later.slot slot').enqueueSeq) ∧
    ∀ (c : ServerConfig) (as : List Action) (s s' s'' : Server) (pid slot i t : ℕ),
      s.worker pid = .scan 0 none → s.run c as = some s' →
      i < c.maxJobs → Along (Server.step c) (fun s _ => s.Waits i t) s as → s'.Waits i t →
      s'.step c (.work pid) = some s'' → s''.worker pid = .storePid slot →
      (s'.slot slot).enqueueSeq ≤ t := by
  constructor
  · intro nJobs rounds ops q hrun workerId workerPid
    have h : q.Ticketed := invariant_of_run (fun _ _ _ hq hstep => JobQueue.step_ticketed hq hstep)
      JobQueue.initial_ticketed hrun
    rcases JobQueue.claim_eq h nJobs rounds workerId workerPid with
      ⟨heq, hnone⟩ | ⟨slot, heq, hslot, hwaits, hmin⟩
    · exact ⟨none, q, heq, iff_of_true rfl hnone, nofun⟩
    · refine ⟨some slot, _, heq, iff_of_false nofun fun hnone => hnone slot hslot hwaits, ?_⟩
      intro slot' hslot'
      cases hslot'
      refine ⟨hslot, hwaits, fun i hi hi' => ⟨fun hne => ?_, ?_⟩⟩
      · exact lt_of_le_of_ne (hmin i hi hi') fun hseq =>
          hne (h.inj i slot hi'.1 hwaits.1 hseq.symm)
      · intro ops' later workerId' workerPid' slot' last hlater hclaim hsame
        have hstep : q.step nJobs (rounds + 1) (.claim workerId workerPid) =
            some (q.claimedBy slot workerId workerPid) := by
          rw [JobQueue.step, heq]
          rfl
        have hgone : JobQueue.Gone (q.slot slot).enqueueSeq later :=
          invariant_of_run (fun q op q' hq hstep => ⟨JobQueue.step_ticketed hq.1 hstep,
            JobQueue.step_gone hq.1 hq.2.1 hq.2.2 hstep⟩) (JobQueue.gone_claimedBy h hwaits hstep) hlater
        rcases JobQueue.claim_eq hgone.1 nJobs rounds workerId' workerPid' with
          ⟨hother, -⟩ | ⟨k, hother, -, hk, -⟩
        · rw [hother] at hclaim
          cases hclaim
        · rw [hother] at hclaim
          cases hclaim
          rw [← hsame]
          exact lt_of_le_of_ne (hmin i hi hi') fun hseq =>
            hgone.2.2 slot' hk (hsame.symm.trans hseq.symm)
  · intro c as s s' s'' pid slot i t hstart hrun hi halong hwaits hstep hclaimed
    have hknows : Server.Knows i t (s'.worker pid) := by
      refine invariant_of_along (I := fun s => Server.Knows i t (s.worker pid))
        (fun s a s' hs ha hstep => Server.step_knows hs ha hi hstep) ?_ halong hrun
      rw [hstart]
      exact Server.knows_scan_zero i t
    obtain ⟨seq, hpc, hseq⟩ := Server.checked_of_storePid hstep hclaimed
    rw [hpc] at hknows
    rw [hseq]
    exact hknows

/-- Two jobs are published, and process 7 claims the one with the first ticket. -/
theorem dispatched_in_order_two :
    (∃ answer q', ((JobQueue.initial.publishReadyJobSlot 1).publishReadyJobSlot 0).claimReadyJobSlot
        2 0 7 1 = some (answer, q') ∧ (answer = none ↔
          ∀ i < 2, ¬((JobQueue.initial.publishReadyJobSlot 1).publishReadyJobSlot 0).Waits i)) ∧
    ∃ s s' s'', Server.initial.run Server.twoSlots (replicate 18 (.submit 1) ++
        replicate 19 (.submit 2) ++ [.spawn 7]) = some s ∧
      s.run Server.twoSlots (replicate 9 (.work 7)) = some s' ∧
      s'.step Server.twoSlots (.work 7) = some s'' ∧ s''.worker 7 = .storePid 0 ∧
      (s'.slot 0).enqueueSeq ≤ 2 := by
  constructor
  · obtain ⟨answer, q', hclaim, hanswer, -⟩ :=
      dispatched_in_order.1 2 0 [.publish 1, .publish 0] _ rfl 0 7
    exact ⟨answer, q', hclaim, hanswer⟩
  · have hany : (Server.initial.run Server.twoSlots (replicate 18 (.submit 1) ++
        replicate 19 (.submit 2) ++ [.spawn 7])).any (fun s => decide (s.worker 7 = .scan 0 none ∧
          Along (Server.step Server.twoSlots) (fun s _ => s.Waits 1 2) s (replicate 9 (.work 7)) ∧
          (s.run Server.twoSlots (replicate 9 (.work 7))).any fun s' => decide (s'.Waits 1 2 ∧
            (s'.step Server.twoSlots (.work 7)).any fun s'' => decide (s''.worker 7 = .storePid 0)))) = true := by
      decide +kernel
    obtain ⟨s, hs, hfacts⟩ := (any_eq_true _ _).mp hany
    rw [decide_eq_true_iff] at hfacts
    obtain ⟨hstart, halong, hlater⟩ := hfacts
    obtain ⟨s', hs', hfacts⟩ := (any_eq_true _ _).mp hlater
    rw [decide_eq_true_iff] at hfacts
    obtain ⟨hwaits, hlast⟩ := hfacts
    obtain ⟨s'', hs'', hclaimed⟩ := (any_eq_true _ _).mp hlast
    rw [decide_eq_true_iff] at hclaimed
    exact ⟨s, s', s'', hs, hs', hs'', hclaimed, dispatched_in_order.2 Server.twoSlots _ s s' s'' 7 0 1 2
      hstart hs' (by decide) halong hwaits hs'' hclaimed⟩

end CuOpt.Grpc
