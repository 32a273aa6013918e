import CuOpt.Library.Sorting

/-! The node queues with both of their heaps: an entry is shared by the best-first heap and the
diving heap, and taking its node from the first leaves a null entry in the second. -/

namespace CuOpt.BranchAndBound

open Function (update)

/-- `heap_entry_t`, with what it copied from its node. -/
structure SharedEntry where
  node : Option ℕ
  lowerBound : WithTop ℚ
  score : WithTop ℚ

structure QueuedNode where
  lowerBound : WithTop ℚ
  objectiveEstimate : WithTop ℚ
  canDive : Bool

structure DivingQueue where
  bestFirstHeap : List ℕ
  divingHeap : List ℕ
  lowerBound : WithTop ℚ

structure Queues (ι : Type) where
  entry : ℕ → SharedEntry
  numEntries : ℕ
  queue : ι → DivingQueue
  node : ℕ → QueuedNode
  nullDeref : Bool

inductive QueueEvent (ι : Type)
  | pushed (i : ι) (n : ℕ)
  | popped (i : ι) (n : ℕ)
  | stolen (victim i : ι) (n : ℕ)
  | dived (i : ι) (n : ℕ)

inductive QueueOp (ι : Type)
  | push (i : ι) (n : ℕ)
  | pop (i : ι) (k : ℕ)
  | stealFrom (i victim : ι) (ks : List ℕ)
  | divingInit (i : ι) (ks : List ℕ)
  | write (n : ℕ) (lowerBound objectiveEstimate : WithTop ℚ)

namespace Queues

variable {ι : Type}

def lowerBoundComp (entry : ℕ → SharedEntry) (a b : ℕ) : Bool :=
  (entry b).lowerBound < (entry a).lowerBound

def scoreComp (entry : ℕ → SharedEntry) (a b : ℕ) : Bool := (entry b).score < (entry a).score

def topBound (entry : ℕ → SharedEntry) (heap : List ℕ) : WithTop ℚ :=
  match Sorting.popTop (lowerBoundComp entry) heap with
  | none => ⊤
  | some (top, _) => (entry top).lowerBound

def waiting (s : Queues ι) (i : ι) : List ℕ :=
  (s.queue i).bestFirstHeap.filterMap fun e => (s.entry e).node

variable [DecidableEq ι]

def pushLockfree (s : Queues ι) (i : ι) (n : ℕ) : Queues ι :=
  let e := s.numEntries
  let entry := update s.entry e
    ⟨some n, (s.node n).lowerBound, (s.node n).objectiveEstimate⟩
  let q := s.queue i
  let heap := q.bestFirstHeap ++ [e]
  { s with
    entry := entry
    numEntries := e + 1
    queue := update s.queue i
      { bestFirstHeap := heap
        divingHeap := if (s.node n).canDive then q.divingHeap ++ [e] else q.divingHeap
        lowerBound := topBound entry heap } }

def popEntry (s : Queues ι) (i : ι) (k : ℕ) : Option (Option ℕ × Queues ι) :=
  let q := s.queue i
  match Sorting.topAt (lowerBoundComp s.entry) q.bestFirstHeap k with
  | none => none
  | some e =>
    let heap := q.bestFirstHeap.eraseIdx k
    some ((s.entry e).node, { s with
      entry := update s.entry e { s.entry e with node := none }
      queue := update s.queue i
        { q with bestFirstHeap := heap, lowerBound := topBound s.entry heap } })

/-- `pop`; a null pointer is returned as `none`. The entry popped must carry a node. -/
def pop (s : Queues ι) (i : ι) (k : ℕ) : Option (Option ℕ × Queues ι) :=
  if (s.queue i).bestFirstHeap.isEmpty then some (none, s)
  else
    match s.popEntry i k with
    | none => none
    | some (none, s) => some (none, { s with nullDeref := true })
    | some (some n, s) => some (some n, s)

/-- The loop of `steal_from`, one element of the list for each iteration. -/
def stealLoop (nodesToSteal : ℕ) (i victim : ι) :
    List ℕ → Queues ι → Option (Queues ι × List (QueueEvent ι))
  | [], s => some (s, [])
  | k :: ks, s =>
    if (s.queue victim).bestFirstHeap.length < nodesToSteal then some (s, [])
    else
      match s.popEntry victim k with
      | none => none
      | some (none, s) => some ({ s with nullDeref := true }, [])
      | some (some n, s) =>
        match stealLoop nodesToSteal i victim ks (s.pushLockfree i n) with
        | none => none
        | some (s, events) => some (s, .stolen victim i n :: events)

/-- `pop_diving`: null entries are dropped on the way. -/
def popDiving (i : ι) : List ℕ → Queues ι → Option (Option ℕ × Queues ι)
  | ks, s =>
    let q := s.queue i
    if q.divingHeap.isEmpty then some (none, s)
    else
      match ks with
      | [] => none
      | k :: ks =>
        match Sorting.topAt (scoreComp s.entry) q.divingHeap k with
        | none => none
        | some e =>
          let s' := { s with
            queue := update s.queue i { q with divingHeap := q.divingHeap.eraseIdx k } }
          match (s.entry e).node with
          | some n => some (some n, { s' with
              node := update s.node n { s.node n with canDive := false } })
          | none => popDiving i ks s'

variable [Fintype ι]

def step (s : Queues ι) : QueueOp ι → Option (Queues ι × List (QueueEvent ι))
  | .push i n => some (s.pushLockfree i n, [.pushed i n])
  | .pop i k =>
    match s.pop i k with
    | none => none
    | some (none, s) => some (s, [])
    | some (some n, s) => some (s, [.popped i n])
  | .stealFrom i victim ks =>
    if i = victim then none else stealLoop ks.length i victim ks s
  | .divingInit i ks =>
    match popDiving i ks s with
    | none => none
    | some (none, s) => some (s, [])
    | some (some n, s) => some (s, [.dived i n])
  | .write n lowerBound objectiveEstimate =>
    -- a node in a queue belongs to nobody who writes its bound
    if ∀ i, n ∉ s.waiting i then
      let written := { s.node n with
        lowerBound := lowerBound
        objectiveEstimate := objectiveEstimate }
      some ({ s with node := update s.node n written }, [])
    else none

def run (s : Queues ι) : List (QueueOp ι) → Option (Queues ι × List (QueueEvent ι))
  | [] => some (s, [])
  | op :: ops =>
    match s.step op with
    | none => none
    | some (s, events) =>
      match run s ops with
      | none => none
      | some (s, later) => some (s, events ++ later)

def initial (lowerBound objectiveEstimate : ℕ → WithTop ℚ) : Queues ι where
  entry := fun _ => ⟨none, ⊤, ⊤⟩
  numEntries := 0
  queue := fun _ => ⟨[], [], ⊤⟩
  node := fun n => ⟨lowerBound n, objectiveEstimate n, true⟩
  nullDeref := false

def freshPush (s : Queues ι) : QueueOp ι → Bool
  | .push _ n => decide (∀ j, n ∉ s.waiting j)
  | _ => true

def pushesFresh (s : Queues ι) : List (QueueOp ι) → Bool
  | [] => true
  | op :: ops =>
    s.freshPush op &&
    match s.step op with
    | none => true
    | some (s, _) => pushesFresh s ops

end Queues

end CuOpt.BranchAndBound
