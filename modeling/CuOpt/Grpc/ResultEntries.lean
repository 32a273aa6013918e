import CuOpt.Grpc.ResultQueue

/-! The entries of the result queue: who fills them, what they hold, and what the retrieval thread has
seen of them, in runs whose steps are orderly. -/

namespace CuOpt.Grpc.Results

open List Function

/-- Whether the pid of a worker is still missing in the slot of its job. -/
def WorkerPc.claimsJob : WorkerPc → Bool
  | .claimed _ => true
  | _ => false

def WorkerPc.writing : WorkerPc → Option (Result × WritePc)
  | .write r pc => some (r, pc)
  | _ => none

def MonitorPc.writing (pid : ℕ) : MonitorPc → Option (Result × WritePc)
  | .write pid' r pc => if pid' = pid then some (r, pc) else none
  | _ => none

/-- The entry that a writer has claimed, until its result is ready in it. -/
def WritePc.fills : WritePc → Option ℕ
  | .recheck i => some i
  | .fill i todo => if .ready true ∈ todo then some i else none
  | _ => none

namespace State

def writing (s : State) : Party → Option (Result × WritePc)
  | .worker pid => (s.worker pid).writing
  | .monitor pid => s.monitor.writing pid

/-- No writer needs the claim on the entry any more. -/
def Unneeded (s : State) (i : ℕ) : Prop :=
  ∀ x ∈ s.holder i, (s.writing x).bind (fun w => w.2.fills) ≠ some i

instance (s : State) (i : ℕ) : Decidable (s.Unneeded i) := by
  unfold Unneeded
  infer_instance

/-- A scan finds an entry before the end of the queue, and a claim is cleared when no other writer needs
it. -/
def ClaimsFree (c : Config) (s : State) : WritePc → Prop
  | .scan i => i < c.maxResults
  | .release i | .fill i (.claimed false :: _) => s.Unneeded i
  | _ => True

instance (c : Config) (s : State) (pc : WritePc) : Decidable (s.ClaimsFree c pc) := by
  unfold ClaimsFree
  split <;> infer_instance

def WorkOrderly (c : Config) (s : State) (writeOk : Bool) : WorkerPc → Prop
  | .write _ pc => s.ClaimsFree c pc
  | .stream _ _ (_ :: _) => writeOk = true
  | _ => True

/-- Payloads are read in the order in which their results were placed, a read does not fail, and a claim
is cleared when no writer needs it. -/
def ReadOrderly (s : State) (readOk : Bool) : ReaderPc → Prop
  | .loadSize i _ workerIdx => 0 < (s.entry i).dataSize →
      (s.awaiting workerIdx.toNat).head? = s.unretrieved i
  | .read _ _ _ => readOk = true
  | .recycle i (.claimed false :: _) => s.Unneeded i
  | _ => True

/-- What the steps of a run have to meet. A worker is replaced when every payload of its index was
read; and one that has claimed a job dies only after its pid is in the slot and before a result is
placed. -/
def Orderly (c : Config) (s : State) : Action → Prop
  | .spawn pid => s.awaiting (c.workerId pid) = []
  | .work pid writeOk => s.WorkOrderly c writeOk (s.worker pid)
  | .crash pid => (s.worker pid).claimsJob = false ∧ ∀ jobId ∈ s.working pid, s.placed jobId = []
  | .monitor _ =>
    match s.monitor with
    | .write _ _ pc => s.ClaimsFree c pc
    | _ => True
  | .retrieve readOk => s.ReadOrderly readOk s.reader
  | _ => True

instance (c : Config) (s : State) (writeOk : Bool) (pc : WorkerPc) :
    Decidable (s.WorkOrderly c writeOk pc) := by
  unfold WorkOrderly
  split <;> infer_instance

instance (s : State) (readOk : Bool) (pc : ReaderPc) : Decidable (s.ReadOrderly readOk pc) := by
  unfold ReadOrderly
  split <;> infer_instance

instance (c : Config) (s : State) (a : Action) : Decidable (s.Orderly c a) := by
  unfold Orderly
  split
  case h_4 => split <;> infer_instance
  all_goals infer_instance

end State

structure Result.InEntry (r : Result) (e : ResultQueueEntry) : Prop where
  jobId : e.jobId = r.jobId
  status : e.status = r.status
  dataSize : e.dataSize = r.dataSize
  workerIndex : e.workerIndex = r.workerIndex
  errorMessage : ∀ m ∈ r.errorMessage, e.errorMessage = m
  retrieved : e.retrieved = false

lemma Result.contentStores_inEntry (r : Result) (e : ResultQueueEntry) :
    r.InEntry (r.contentStores.foldl ResultQueueEntry.store e) := by
  cases hm : r.errorMessage with
  | none | some m =>
    simp only [contentStores, hm]
    constructor <;> simp [ResultQueueEntry.store, hm]

lemma Result.InEntry.claimed {r : Result} {e : ResultQueueEntry} (h : r.InEntry e) (v : Bool) :
    r.InEntry (e.store (.claimed v)) :=
  { h with }

def Store.IsContent : Store → Prop
  | .claimed _ | .ready _ => False
  | _ => True

variable {st : Store}

lemma Result.isContent_of_mem {r : Result} (h : st ∈ r.contentStores) : st.IsContent := by
  unfold contentStores at h
  simp only [cons_append, nil_append, mem_cons, mem_append, mem_map, not_mem_nil, or_false] at h
  rcases h with rfl | rfl | rfl | rfl | ⟨m, _, rfl⟩ | rfl <;> trivial

lemma Store.IsContent.claimed (h : st.IsContent) (e : ResultQueueEntry) :
    (e.store st).claimed = e.claimed := by
  cases st <;> first | rfl | exact h.elim

lemma Store.IsContent.ready (h : st.IsContent) (e : ResultQueueEntry) :
    (e.store st).ready = e.ready := by
  cases st <;> first | rfl | exact h.elim

lemma Result.stores_cases {r : Result} {done todo : List Store}
    (h : done ++ st :: todo = r.stores) :
    (st.IsContent ∧ .ready true ∈ todo ∧ .claimed false ∈ todo) ∨
      (st = .ready true ∧ todo = [.claimed false] ∧ done = r.contentStores) ∨
      (st = .claimed false ∧ todo = []) := by
  unfold stores at h
  rcases append_eq_append_iff.mp h with ⟨middle, hcontent, htodo⟩ | ⟨middle, hdone, htodo⟩
  · cases middle with
    | nil =>
      rw [append_nil] at hcontent
      cases htodo
      exact .inr (.inl ⟨rfl, rfl, hcontent.symm⟩)
    | cons first middle =>
      cases htodo
      refine .inl ⟨isContent_of_mem (r := r) ?_, ?_, ?_⟩
      · rw [hcontent]
        exact mem_append_right _ mem_cons_self
      · simp
      · simp
  · cases middle with
    | nil =>
      rw [append_nil] at hdone
      cases htodo
      exact .inr (.inl ⟨rfl, rfl, hdone⟩)
    | cons first middle =>
      cases middle with
      | nil =>
        cases htodo
        exact .inr (.inr ⟨rfl, rfl⟩)
      | cons second middle =>
        have hlength := congrArg length htodo
        simp at hlength

lemma Result.ready_mem_stores (r : Result) : Store.ready true ∈ r.stores := by
  simp [stores]

lemma claimed_of_mem_recycleStores (h : st ∈ recycleStores) (hne : st ≠ .claimed false)
    (e : ResultQueueEntry) : (e.store st).claimed = e.claimed := by
  simp only [recycleStores, mem_cons, not_mem_nil, or_false] at h
  rcases h with rfl | rfl | rfl | rfl
  · rfl
  · rfl
  · exact absurd rfl hne
  · rfl

/-- Only the last store of the retrieval thread clears `ready`. -/
lemma recycleStores_cases {todo : List Store} (h : st :: todo <:+ recycleStores) :
    (todo = [] ∧ st = .ready false) ∨
      (todo ≠ [] ∧ ∀ e : ResultQueueEntry, (e.store st).ready = e.ready) := by
  simp only [recycleStores, suffix_cons_iff, List.cons.injEq, suffix_nil,
    reduceCtorEq, or_false] at h
  rcases h with ⟨rfl, rfl⟩ | ⟨rfl, rfl⟩ | ⟨rfl, rfl⟩ | ⟨rfl, rfl⟩
  · exact .inr ⟨cons_ne_nil _ _, fun e => rfl⟩
  · exact .inr ⟨cons_ne_nil _ _, fun e => rfl⟩
  · exact .inr ⟨cons_ne_nil _ _, fun e => rfl⟩
  · exact .inl ⟨rfl, rfl⟩

def WritePc.placed : WritePc → Bool
  | .fill _ todo => decide (.ready true ∉ todo)
  | _ => false

namespace State

variable {c : Config} {s s' : State} {a : Action} {x y : Party} {r : Result} {pc : WritePc}
  {i pid : ℕ}

variable {pc' : WritePc}

lemma writing_of_monitor (h : s.monitor = .write pid r pc) :
    s.writing (.monitor pid) = some (r, pc) := by
  show s.monitor.writing pid = _
  rw [h]
  exact if_pos rfl

lemma writing_setWrite (h : s.writing x = some (r, pc)) (y : Party) :
    (s.setWrite r pc' x).writing y = if y = x then some (r, pc') else s.writing y := by
  cases x with
  | worker pid =>
    cases y with
    | worker pid' =>
      show (update s.worker pid (.write r pc') pid').writing = _
      by_cases heq : pid' = pid
      · rw [heq, update_self, if_pos rfl]
        rfl
      · rw [update_of_ne heq, if_neg (by simpa using heq)]
        rfl
    | monitor pid' => rfl
  | monitor pid =>
    cases y with
    | worker pid' => rfl
    | monitor pid' =>
      have hmonitor : s.monitor = .write pid r pc := by
        simp only [writing, MonitorPc.writing] at h
        split at h
        · split_ifs at h with heq
          cases h
          rw [← heq]
          assumption
        · cases h
      show (MonitorPc.write pid r pc').writing pid' = _
      simp only [writing, hmonitor, MonitorPc.writing, Party.monitor.injEq]
      by_cases heq : pid = pid'
      · rw [if_pos heq, if_pos heq.symm]
      · rw [if_neg heq, if_neg (Ne.symm heq), if_neg heq]

structure Held (s : State) (i : ℕ) (x : Party) : Prop where
  holder : s.holder i = some x
  claimed : (s.entry i).claimed = true

structure Reserved (s : State) (i : ℕ) : Prop where
  notReady : (s.entry i).ready = false
  none : s.unretrieved i = none

structure Entries (s : State) : Prop where
  held : ∀ x r pc i, s.writing x = some (r, pc) → pc.fills = some i → s.Held i x
  reserved : ∀ x r i todo, s.writing x = some (r, .fill i todo) → .ready true ∈ todo → s.Reserved i
  written : ∀ x r i todo, s.writing x = some (r, .fill i todo) →
    ∃ done, done ++ todo = r.stores ∧ (Store.ready true ∈ todo →
      ∃ e, s.entry i = done.foldl ResultQueueEntry.store e)
  noFull : ∀ x r, s.writing x ≠ some (r, .full)
  kept : ∀ i r, s.unretrieved i = some r → (s.entry i).ready = true ∧ r.InEntry (s.entry i)
  ready : ∀ i, (s.entry i).ready = true →
    (∃ r, s.unretrieved i = some r) ∨ ∃ todo, s.reader = .recycle i todo ∧ todo ≠ []
  recycling : ∀ i todo, s.reader = .recycle i todo → todo <:+ recycleStores ∧
    (todo ≠ [] → (s.entry i).ready = true) ∧
    (todo ≠ [] → todo ≠ recycleStores → s.unretrieved i = none)

variable {todo : List Store}

lemma fills_of_mem (h : Store.ready true ∈ todo) : (WritePc.fill i todo).fills = some i :=
  if_pos h

/-- An entry is reserved for at most one writer. -/
lemma Entries.eq_of_fills (h : s.Entries) {r' : Result} (hx : s.writing x = some (r, pc))
    (hi : pc.fills = some i) (hy : s.writing y = some (r', pc')) (hi' : pc'.fills = some i) :
    x = y := by
  have hholder := (h.held x r pc i hx hi).holder
  rw [(h.held y r' pc' i hy hi').holder] at hholder
  exact (Option.some.inj hholder).symm

/-- A writer that still needs an entry is the one whose claim would be cleared. -/
lemma Entries.not_fills (h : s.Entries) (hfree : s.Unneeded i) (hy : s.writing y = some (r, pc)) :
    pc.fills ≠ some i := by
  intro hi
  refine hfree y (h.held y r pc i hy hi).holder ?_
  rw [hy]
  exact hi

section Frame

variable (s : State) (r : Result) (pc : WritePc) (x : Party) (i : ℕ) (st : Store)

@[simp] lemma setWrite_entry : (s.setWrite r pc x).entry = s.entry := by cases x <;> rfl

@[simp] lemma setWrite_holder : (s.setWrite r pc x).holder = s.holder := by cases x <;> rfl

@[simp] lemma setWrite_unretrieved : (s.setWrite r pc x).unretrieved = s.unretrieved := by
  cases x <;> rfl

@[simp] lemma setWrite_reader : (s.setWrite r pc x).reader = s.reader := by cases x <;> rfl

@[simp] lemma note_entry : (s.note r i st).entry = s.entry := by
  unfold note
  split <;> rfl

@[simp] lemma note_reader : (s.note r i st).reader = s.reader := by
  unfold note
  split <;> rfl

@[simp] lemma note_writing (y : Party) : (s.note r i st).writing y = s.writing y := by
  unfold note
  split <;> cases y <;> rfl

@[simp] lemma put_writing (y : Party) : (s.put i st).writing y = s.writing y := by
  cases y <;> rfl

lemma put_entry_self : (s.put i st).entry i = (s.entry i).store st :=
  update_self i _ s.entry

lemma put_entry_of_ne {j : ℕ} (h : j ≠ i) : (s.put i st).entry j = s.entry j :=
  update_of_ne h _ s.entry

end Frame

variable {st : Store}

lemma note_of_isContent (h : st.IsContent) : s.note r i st = s := by
  cases st <;> first | rfl | exact h.elim

structure EntryOk (s : State) (i : ℕ) : Prop where
  kept : ∀ r, s.unretrieved i = some r → (s.entry i).ready = true ∧ r.InEntry (s.entry i)
  ready : (s.entry i).ready = true →
    (∃ r, s.unretrieved i = some r) ∨ ∃ todo, s.reader = .recycle i todo ∧ todo ≠ []
  recycling : ∀ todo, s.reader = .recycle i todo → todo <:+ recycleStores ∧
    (todo ≠ [] → (s.entry i).ready = true) ∧
    (todo ≠ [] → todo ≠ recycleStores → s.unretrieved i = none)

structure WriterOk (s : State) (x : Party) (r : Result) (pc : WritePc) : Prop where
  held : ∀ i, pc.fills = some i → s.Held i x
  reserved : ∀ i todo, pc = .fill i todo → .ready true ∈ todo → s.Reserved i
  written : ∀ i todo, pc = .fill i todo → ∃ done, done ++ todo = r.stores ∧
    (Store.ready true ∈ todo → ∃ e, s.entry i = done.foldl ResultQueueEntry.store e)
  noFull : pc ≠ .full

lemma Entries.ok (h : s.Entries) (i : ℕ) : s.EntryOk i :=
  ⟨h.kept i, h.ready i, h.recycling i⟩

lemma Entries.writer (h : s.Entries) (hx : s.writing x = some (r, pc)) : s.WriterOk x r pc where
  held i := h.held x r pc i hx
  reserved i todo heq := h.reserved x r i todo (heq ▸ hx)
  written i todo heq := h.written x r i todo (heq ▸ hx)
  noFull heq := h.noFull x r (heq ▸ hx)

lemma Entries.of_oks (hwriter : ∀ x r pc, s.writing x = some (r, pc) → s.WriterOk x r pc)
    (hok : ∀ i, s.EntryOk i) : s.Entries where
  held y r pc j hy := (hwriter y r pc hy).held j
  reserved y r j todo hy := (hwriter y r _ hy).reserved j todo rfl
  written y r j todo hy := (hwriter y r _ hy).written j todo rfl
  noFull y r hy := (hwriter y r _ hy).noFull rfl
  kept j := (hok j).kept
  ready j := (hok j).ready
  recycling j := (hok j).recycling

lemma initial_entries : initial.Entries := by
  have hnone : ∀ x, initial.writing x = none := by
    intro x
    cases x <;> rfl
  refine .of_oks (fun x r pc h => nomatch (hnone x).symm.trans h) fun i => ?_
  exact ⟨nofun, nofun, nofun⟩

lemma Reserved.of_same (h : s.Reserved i) (hentry : s'.entry i = s.entry i)
    (hunretrieved : s'.unretrieved i = s.unretrieved i) : s'.Reserved i := by
  constructor
  · rw [hentry]
    exact h.notReady
  · rw [hunretrieved]
    exact h.none

/-- What a writer needs of the entry that it has claimed, and of one that it fills. -/
lemma WriterOk.of_same (h : s.WriterOk x r pc)
    (hheld : ∀ j, pc.fills = some j →
      s'.holder j = s.holder j ∧ (s'.entry j).claimed = (s.entry j).claimed)
    (hfill : ∀ j todo, pc = .fill j todo → .ready true ∈ todo →
      s'.entry j = s.entry j ∧ s'.unretrieved j = s.unretrieved j) : s'.WriterOk x r pc := by
  constructor
  case held =>
    intro j hj
    obtain ⟨hholder, hclaimed⟩ := hheld j hj
    exact ⟨hholder.trans (h.held j hj).holder, hclaimed.trans (h.held j hj).claimed⟩
  case reserved =>
    intro j todo hpc hmem
    obtain ⟨hentry, hunretrieved⟩ := hfill j todo hpc hmem
    exact (h.reserved j todo hpc hmem).of_same hentry hunretrieved
  case written =>
    intro j todo hpc
    obtain ⟨done, hdone, hholds⟩ := h.written j todo hpc
    refine ⟨done, hdone, fun hmem => ?_⟩
    rw [(hfill j todo hpc hmem).1]
    exact hholds hmem
  case noFull => exact h.noFull

/-- The values in the entry may change while nobody waits for them. -/
lemma EntryOk.of_same (h : s.EntryOk i) (hunretrieved : s'.unretrieved i = s.unretrieved i)
    (hreader : ∀ todo, s'.reader = .recycle i todo ↔ s.reader = .recycle i todo)
    (hready : (s'.entry i).ready = (s.entry i).ready)
    (hin : ∀ r, s.unretrieved i = some r → r.InEntry (s.entry i) → r.InEntry (s'.entry i)) :
    s'.EntryOk i := by
  constructor
  case kept =>
    intro r hr
    rw [hunretrieved] at hr
    rw [hready]
    exact ⟨(h.kept r hr).1, hin r hr (h.kept r hr).2⟩
  case ready =>
    simp only [hunretrieved, hready, hreader]
    exact h.ready
  case recycling =>
    simp only [hunretrieved, hready, hreader]
    exact h.recycling

def Looking : WritePc → Prop
  | .scan _ | .claim _ | .release _ => True
  | _ => False

lemma WriterOk.of_looking (hlook : Looking pc) : s.WriterOk x r pc := by
  cases pc with
  | scan i | claim i | release i => exact ⟨nofun, nofun, nofun, nofun⟩
  | recheck i | fill i todo | full => exact hlook.elim

lemma Entries.of_same (h : s.Entries) (hentry : s'.entry = s.entry)
    (hholder : s'.holder = s.holder) (hunretrieved : s'.unretrieved = s.unretrieved)
    (hwriting : ∀ y r pc, s'.writing y = some (r, pc) → s.writing y = some (r, pc) ∨ Looking pc)
    (hreader : s'.reader = s.reader ∨
      (∀ i todo, s.reader = .recycle i todo → todo = []) ∧
        ∀ i todo, s'.reader = .recycle i todo →
          todo = recycleStores ∧ (s.entry i).ready = true) : s'.Entries := by
  refine .of_oks (fun y r pc hy => ?_) fun i => ?_
  · rcases hwriting y r pc hy with hy | hlook
    · refine (h.writer hy).of_same (fun j _ => ⟨congrFun hholder j, ?_⟩)
        fun j todo _ _ => ⟨congrFun hentry j, congrFun hunretrieved j⟩
      rw [hentry]
    · exact .of_looking hlook
  · rcases hreader with hsame | ⟨hdone, hstart⟩
    · refine (h.ok i).of_same (congrFun hunretrieved i) (fun todo => by rw [hsame]) ?_ ?_
      · rw [hentry]
      · rw [hentry]
        exact fun _ _ hin => hin
    · constructor
      case kept =>
        rw [hunretrieved, hentry]
        exact h.kept i
      case ready =>
        intro hi
        rw [hentry] at hi
        rw [hunretrieved]
        refine (h.ready i hi).imp_right ?_
        rintro ⟨todo, htodo, hne⟩
        exact absurd (hdone i todo htodo) hne
      case recycling =>
        intro todo htodo
        obtain ⟨rfl, hready⟩ := hstart i todo htodo
        rw [hentry]
        exact ⟨suffix_refl _, fun _ => hready, fun _ hne => absurd rfl hne⟩

lemma Entries.look (h : s.Entries) (hx : s.writing x = some (r, pc)) (hlook : Looking pc') :
    (s.setWrite r pc' x).Entries := by
  apply h.of_same
  · exact setWrite_entry s r pc' x
  · exact setWrite_holder s r pc' x
  · exact setWrite_unretrieved s r pc' x
  · intro y r' pc'' hy
    rw [writing_setWrite hx] at hy
    split_ifs at hy
    · cases hy
      exact .inr hlook
    · exact .inl hy
  · exact .inl (setWrite_reader s r pc' x)

/-- A step that leaves all entries but one, and the writers but those that need this one. -/
lemma Entries.of_entry (h : s.Entries)
    (hwriting : ∀ y r pc, s'.writing y = some (r, pc) → s'.WriterOk y r pc ∨
      (s.writing y = some (r, pc) ∧ pc.fills ≠ some i))
    (hentry : ∀ j, j ≠ i → s'.entry j = s.entry j) (hholder : ∀ j, j ≠ i → s'.holder j = s.holder j)
    (hunretrieved : ∀ j, j ≠ i → s'.unretrieved j = s.unretrieved j)
    (hreader : ∀ j, j ≠ i → ∀ todo, s'.reader = .recycle j todo ↔ s.reader = .recycle j todo)
    (hi : s'.EntryOk i) : s'.Entries := by
  refine .of_oks (fun y r pc hy => ?_) fun j => ?_
  · rcases hwriting y r pc hy with hok | ⟨hold, hfills⟩
    · exact hok
    have hne : ∀ j, pc.fills = some j → j ≠ i := by
      rintro j hj rfl
      exact hfills hj
    refine (h.writer hold).of_same (fun j hj => ?_) ?_
    · rw [hentry j (hne j hj)]
      exact ⟨hholder j (hne j hj), rfl⟩
    · rintro j todo rfl hmem
      have hji := hne j (fills_of_mem hmem)
      exact ⟨hentry j hji, hunretrieved j hji⟩
  · by_cases hji : j = i
    · rw [hji]
      exact hi
    refine (h.ok j).of_same (hunretrieved j hji) (hreader j hji) ?_ ?_
    · rw [hentry j hji]
    · rw [hentry j hji]
      exact fun _ _ hin => hin

/-- A step of one writer at an entry that no other writer needs. -/
lemma Entries.of_writer (h : s.Entries)
    (hwriting : ∀ y, s'.writing y = if y = x then some (r, pc) else s.writing y)
    (hother : ∀ y r pc, s.writing y = some (r, pc) → y ≠ x → pc.fills ≠ some i)
    (hentry : ∀ j, j ≠ i → s'.entry j = s.entry j) (hholder : ∀ j, j ≠ i → s'.holder j = s.holder j)
    (hunretrieved : ∀ j, j ≠ i → s'.unretrieved j = s.unretrieved j)
    (hreader : s'.reader = s.reader) (hself : s'.WriterOk x r pc) (hi : s'.EntryOk i) :
    s'.Entries := by
  refine h.of_entry (i := i) ?_ hentry hholder hunretrieved (fun j _ todo => by rw [hreader]) hi
  intro y r' pc' hy
  rw [hwriting] at hy
  split_ifs at hy with heq
  · cases hy
    exact .inl (heq ▸ hself)
  · exact .inr ⟨hy, hother y r' pc' hy heq⟩

/-- A claim of an entry, which may still be ready. -/
lemma Entries.take (h : s.Entries) (hx : s.writing x = some (r, .claim i))
    (hunclaimed : (s.entry i).claimed = false) :
    Entries { (s.put i (.claimed true)).setWrite r (.recheck i) x with
      holder := update s.holder i (some x) } := by
  set s' : State := { (s.put i (.claimed true)).setWrite r (.recheck i) x with
    holder := update s.holder i (some x) } with hs'
  have hentry : s'.entry = (s.put i (.claimed true)).entry := setWrite_entry _ r _ x
  have hunretrieved : s'.unretrieved = s.unretrieved := setWrite_unretrieved _ r _ x
  have hreader : s'.reader = s.reader := setWrite_reader _ r _ x
  have hwriting : ∀ y, s'.writing y = if y = x then some (r, .recheck i) else s.writing y := by
    intro y
    have hput : (s.put i (.claimed true)).writing x = some (r, .claim i) := by
      rw [put_writing]
      exact hx
    rw [← put_writing s i (.claimed true) y, ← writing_setWrite hput y]
    cases y <;> rfl
  apply h.of_writer (i := i) hwriting
  · intro y r' pc' hy _ hi
    cases hunclaimed.symm.trans (h.held y r' pc' i hy hi).claimed
  · intro j hj
    rw [hentry, put_entry_of_ne s i _ hj]
  · exact fun j hj => update_of_ne hj _ s.holder
  · exact fun j _ => congrFun hunretrieved j
  · exact hreader
  · constructor
    case held =>
      intro j hj
      cases hj
      refine ⟨update_self i _ s.holder, ?_⟩
      rw [hentry, put_entry_self]
      rfl
    case reserved | written => exact nofun
    case noFull => simp
  · apply (h.ok i).of_same (congrFun hunretrieved i) (fun _ => by rw [hreader])
    · rw [hentry, put_entry_self]
      rfl
    · rw [hentry, put_entry_self]
      exact fun r' _ hin => hin.claimed true

/-- A writer that finds its entry not ready starts to fill it. -/
lemma Entries.start (h : s.Entries) (hx : s.writing x = some (r, .recheck i))
    (hready : (s.entry i).ready = false) : (s.setWrite r (.fill i r.stores) x).Entries := by
  have hheld := h.held x r _ i hx rfl
  have hnone : s.unretrieved i = none := by
    cases hsome : s.unretrieved i with
    | none => rfl
    | some r' => cases hready.symm.trans (h.kept i r' hsome).1
  apply h.of_writer (i := i) (writing_setWrite hx)
  · exact fun y r' pc' hy hne hi => hne (h.eq_of_fills hy hi hx rfl)
  · exact fun j _ => congrFun (setWrite_entry ..) j
  · exact fun j _ => congrFun (setWrite_holder ..) j
  · exact fun j _ => congrFun (setWrite_unretrieved ..) j
  · exact setWrite_reader ..
  · constructor
    case held =>
      intro j hj
      obtain rfl : i = j := Option.some.inj ((fills_of_mem r.ready_mem_stores).symm.trans hj)
      exact ⟨by rw [setWrite_holder, hheld.holder], by rw [setWrite_entry, hheld.claimed]⟩
    case reserved =>
      intro j todo heq _
      cases heq
      exact ⟨by rw [setWrite_entry, hready], by rw [setWrite_unretrieved, hnone]⟩
    case written =>
      intro j todo heq
      cases heq
      exact ⟨[], rfl, fun _ => ⟨_, rfl⟩⟩
    case noFull => simp
  · apply (h.ok i).of_same
    · rw [setWrite_unretrieved]
    · exact fun _ => by rw [setWrite_reader]
    · rw [setWrite_entry]
    · rw [setWrite_entry]
      exact fun _ _ hin => hin

/-- A claim is cleared that no writer needs. -/
lemma Entries.clear (h : s.Entries) (hx : s.writing x = some (r, pc)) (hfree : s.Unneeded i)
    (hself : ∀ t : State, t.WriterOk x r pc') :
    (((s.put i (.claimed false)).note r i (.claimed false)).setWrite r pc' x).Entries := by
  have hput : ((s.put i (.claimed false)).note r i (.claimed false)).writing x = some (r, pc) := by
    rw [note_writing, put_writing]
    exact hx
  apply h.of_writer (i := i)
  · intro y
    rw [writing_setWrite hput, note_writing, put_writing]
  · exact fun y r' pc'' hy _ => h.not_fills hfree hy
  · intro j hj
    rw [setWrite_entry, note_entry, put_entry_of_ne s i _ hj]
  · intro j hj
    rw [setWrite_holder]
    exact update_of_ne hj _ s.holder
  · exact fun j _ => congrFun (setWrite_unretrieved ..) j
  · rw [setWrite_reader, note_reader]
    rfl
  · exact hself _
  · apply (h.ok i).of_same
    · exact congrFun (setWrite_unretrieved ..) i
    · exact fun _ => by rw [setWrite_reader, note_reader]; rfl
    · rw [setWrite_entry, note_entry, put_entry_self]
      rfl
    · rw [setWrite_entry, note_entry, put_entry_self]
      exact fun r' _ hin => hin.claimed false

lemma Entries.fill (h : s.Entries) (hx : s.writing x = some (r, .fill i (st :: todo)))
    (hfree : s.ClaimsFree c (.fill i (st :: todo))) :
    (((s.put i st).note r i st).setWrite r (.fill i todo) x).Entries := by
  obtain ⟨done, hdone, hwritten⟩ := h.written x r i _ hx
  have hput : ((s.put i st).note r i st).writing x = some (r, .fill i (st :: todo)) := by
    rw [note_writing, put_writing]
    exact hx
  set s' : State := ((s.put i st).note r i st).setWrite r (.fill i todo) x with hs'
  have hentry : s'.entry = (s.put i st).entry := by
    rw [hs', setWrite_entry, note_entry]
  have hreader : s'.reader = s.reader := by
    rw [hs', setWrite_reader, note_reader]
    rfl
  have hwriting : ∀ y, s'.writing y = if y = x then some (r, .fill i todo) else s.writing y := by
    intro y
    rw [hs', writing_setWrite hput, note_writing, put_writing]
  -- what is left is the entry itself, and what the store means for the history
  have hfinish : .ready true ∈ st :: todo → s'.holder = s.holder →
      (∀ j, j ≠ i → s'.unretrieved j = s.unretrieved j) →
      (Store.ready true ∈ todo → (s'.entry i).claimed = (s.entry i).claimed ∧ s'.Reserved i) →
      s'.EntryOk i → s'.Entries := by
    intro hready hholder hunretrieved hreserved hok
    have hfills := fills_of_mem (i := i) hready
    apply h.of_writer (i := i) hwriting
    · exact fun y r' pc' hy hne hi => hne (h.eq_of_fills hy hi hx hfills)
    · intro j hj
      rw [hentry, put_entry_of_ne s i _ hj]
    · exact fun j _ => congrFun hholder j
    · exact hunretrieved
    · exact hreader
    · have hheld := h.held x r _ i hx hfills
      constructor
      case held =>
        intro j hj
        simp only [WritePc.fills] at hj
        split_ifs at hj with hmem
        cases hj
        rw [hheld.claimed] at hreserved
        exact ⟨by rw [hholder, hheld.holder], (hreserved hmem).1⟩
      case reserved =>
        intro j todo' heq hmem
        cases heq
        exact (hreserved hmem).2
      case written =>
        intro j todo' heq
        cases heq
        refine ⟨done ++ [st], ?_, fun hmem => ?_⟩
        · rw [append_assoc]
          exact hdone
        · obtain ⟨e, he⟩ := hwritten hready
          rw [hentry, put_entry_self, he]
          exact ⟨e, by rw [foldl_concat]⟩
      case noFull => simp
    · exact hok
  rcases Result.stores_cases hdone with ⟨hcontent, hready, -⟩ | ⟨rfl, rfl, hfront⟩ | ⟨rfl, rfl⟩
  · -- the values
    have hnote : ∀ t : State, t.note r i st = t := fun t => note_of_isContent hcontent
    have hunretrieved : s'.unretrieved = s.unretrieved := by
      rw [hs', setWrite_unretrieved, hnote]
      rfl
    obtain ⟨hnotReady, hnone⟩ := h.reserved x r i _ hx (mem_cons_of_mem st hready)
    have hflag : (s'.entry i).ready = (s.entry i).ready := by
      rw [hentry, put_entry_self]
      exact hcontent.ready _
    apply hfinish (mem_cons_of_mem st hready)
    · rw [hs', setWrite_holder, hnote]
      rfl
    · exact fun j _ => congrFun hunretrieved j
    · intro _
      refine ⟨?_, hflag.trans hnotReady, (congrFun hunretrieved i).trans hnone⟩
      rw [hentry, put_entry_self, hcontent.claimed]
    · exact (h.ok i).of_same (congrFun hunretrieved i) (fun _ => by rw [hreader]) hflag
        fun r' hr' => nomatch hnone.symm.trans hr'
  · -- the entry becomes ready
    obtain ⟨e, he⟩ := hwritten mem_cons_self
    have hreserved := h.reserved x r i _ hx mem_cons_self
    have hunretrieved : s'.unretrieved = update s.unretrieved i (some r) := by
      rw [hs', setWrite_unretrieved]
      rfl
    apply hfinish mem_cons_self
    · rw [hs', setWrite_holder]
      rfl
    · intro j hj
      rw [hunretrieved, update_of_ne hj]
    · intro hmem
      simp at hmem
    · constructor
      case kept =>
        intro r' hr'
        rw [hunretrieved, update_self] at hr'
        cases hr'
        rw [hentry, put_entry_self, he, hfront]
        exact ⟨rfl, { r.contentStores_inEntry e with }⟩
      case ready =>
        rw [hunretrieved, update_self]
        exact fun _ => .inl ⟨r, rfl⟩
      case recycling =>
        intro todo' hj
        rw [hreader] at hj
        have hdone : todo' = [] := by
          by_contra hne
          cases hreserved.notReady.symm.trans ((h.recycling i todo' hj).2.1 hne)
        rw [hdone]
        exact ⟨nil_suffix, fun hne => absurd rfl hne, fun hne => absurd rfl hne⟩
  · -- the claim is cleared
    refine h.clear hx hfree fun t => ⟨nofun, ?_, ?_, nofun⟩
    · intro j todo heq hmem
      cases heq
      cases hmem
    · intro j todo heq
      cases heq
      exact ⟨r.stores, append_nil _, nofun⟩

lemma Entries.writeStep (h : s.Entries) (hx : s.writing x = some (r, pc))
    (hfree : s.ClaimsFree c pc) : (s.writeStep c x r pc).Entries := by
  cases pc with
  | scan i =>
    simp only [State.writeStep]
    rw [if_neg (not_le.mpr hfree)]
    split_ifs
    · exact h.look hx trivial
    · exact h.look hx trivial
  | claim i =>
    simp only [State.writeStep]
    split_ifs with hclaimed
    · exact h.look hx trivial
    · exact h.take hx (Bool.eq_false_iff.mpr hclaimed)
  | recheck i =>
    simp only [State.writeStep]
    split_ifs with hready
    · exact h.look hx trivial
    · exact h.start hx (Bool.eq_false_iff.mpr hready)
  | release i => exact h.clear hx hfree fun t => .of_looking trivial
  | fill i todo =>
    cases todo with
    | nil =>
      apply h.of_same
      · exact setWrite_entry s r _ x
      · exact setWrite_holder s r _ x
      · exact setWrite_unretrieved s r _ x
      · intro y r' pc' hy
        simp only [State.writeStep] at hy
        rw [writing_setWrite hx] at hy
        split_ifs at hy with heq
        · rw [heq, ← hy]
          exact .inl hx
        · exact .inl hy
      · exact .inl (setWrite_reader s r _ x)
    | cons st todo => exact h.fill hx hfree
  | full => exact absurd hx (h.noFull x r)

lemma Entries.recycle (h : s.Entries) (hreader : s.reader = .recycle i (st :: todo))
    (hfree : st = .claimed false → s.Unneeded i) :
    Entries { (s.put i st).noteRetrieved i st with reader := .recycle i todo } := by
  obtain ⟨hsuffix, hready, hnone⟩ := h.recycling i _ hreader
  have hready := hready (cons_ne_nil st todo)
  set s' : State := { (s.put i st).noteRetrieved i st with reader := .recycle i todo } with hs'
  have hentry : s'.entry = (s.put i st).entry := by
    rw [hs']
    simp only [noteRetrieved]
    split <;> rfl
  have hholder : s'.holder = s.holder := by
    rw [hs']
    simp only [noteRetrieved]
    split <;> rfl
  have hwriting : ∀ y, s'.writing y = s.writing y := by
    intro y
    rw [hs']
    simp only [noteRetrieved]
    split <;> cases y <;> rfl
  have hgone : s'.unretrieved i = none := by
    by_cases hfirst : st :: todo = recycleStores
    · cases hfirst
      exact update_self i none s.unretrieved
    · have hold := hnone (cons_ne_nil st todo) hfirst
      rw [hs']
      simp only [noteRetrieved]
      split
      · exact update_self i none s.unretrieved
      · exact hold
  apply h.of_entry (i := i)
  · intro y r' pc' hy
    rw [hwriting] at hy
    by_cases hfills : pc'.fills = some i
    · -- a writer that has claimed the ready entry keeps its claim
      refine .inl ((h.writer hy).of_same (fun j hj => ?_) ?_)
      · obtain rfl : i = j := Option.some.inj (hfills.symm.trans hj)
        rw [hentry, put_entry_self]
        refine ⟨congrFun hholder i, claimed_of_mem_recycleStores (hsuffix.subset mem_cons_self) ?_ _⟩
        exact fun hst => h.not_fills (hfree hst) hy hfills
      · rintro j todo' rfl hmem
        obtain rfl : i = j := Option.some.inj (hfills.symm.trans (fills_of_mem hmem))
        cases hready.symm.trans (h.reserved y r' i todo' hy hmem).notReady
    · exact .inr ⟨hy, hfills⟩
  · intro j hj
    rw [hentry, put_entry_of_ne s i st hj]
  · exact fun j _ => congrFun hholder j
  · intro j hj
    rw [hs']
    simp only [noteRetrieved]
    split
    · exact update_of_ne hj none s.unretrieved
    · rfl
  · intro j hj todo'
    simp [hs', hreader, hj.symm]
  · constructor
    case kept => exact fun r' hr' => nomatch hgone.symm.trans hr'
    case ready =>
      intro hflag
      rcases recycleStores_cases hsuffix with ⟨_, rfl⟩ | ⟨hne, _⟩
      · rw [hentry, put_entry_self] at hflag
        cases hflag
      · exact .inr ⟨todo, rfl, hne⟩
    case recycling =>
      intro todo' htodo
      cases htodo
      refine ⟨(suffix_cons st todo).trans hsuffix, fun hne => ?_, fun _ _ => hgone⟩
      rcases recycleStores_cases hsuffix with ⟨hnil, _⟩ | ⟨_, hflag⟩
      · exact absurd hnil hne
      · rw [hentry, put_entry_self, hflag]
        exact hready

section

variable (h : s.Entries)
include h

section

variable {working owner : ℕ → Option ℕ} {outcome : ℕ → Option Result} {finished : ℕ → Bool}

lemma Entries.of_worker (pc : WorkerPc) {forked : ℕ → Bool} {current : ℕ → ℕ}
    {pipe : ℕ → List Piece} (hpc : ∀ r wpc, pc.writing = some (r, wpc) → Looking wpc) :
    Entries { s with
      worker := update s.worker pid pc, forked := forked, current := current, pipe := pipe
      working := working, owner := owner, outcome := outcome, finished := finished } := by
  refine h.of_same rfl rfl rfl (fun y r wpc hy => ?_) (.inl rfl)
  cases y with
  | worker pid' =>
    have hy' : (update s.worker pid pc pid').writing = some (r, wpc) := hy
    by_cases heq : pid' = pid
    · rw [heq, update_self] at hy'
      exact .inr (hpc r wpc hy')
    · rw [update_of_ne heq] at hy'
      exact .inl hy'
  | monitor pid' => exact .inl hy

lemma Entries.of_quiet (pc : WorkerPc) {forked : ℕ → Bool} {current : ℕ → ℕ}
    {pipe : ℕ → List Piece} (hpc : pc.writing = none) :
    Entries { s with
      worker := update s.worker pid pc, forked := forked, current := current, pipe := pipe
      working := working, owner := owner, outcome := outcome, finished := finished } :=
  h.of_worker pc fun _ _ hwriting => nomatch hpc.symm.trans hwriting

lemma Entries.of_monitor {mpc : MonitorPc} {recovered : ℕ → Bool}
    (hpc : ∀ pid r wpc, mpc.writing pid = some (r, wpc) → Looking wpc) :
    Entries { s with
      monitor := mpc, recovered := recovered, working := working, outcome := outcome
      finished := finished } := by
  refine h.of_same rfl rfl rfl (fun y r wpc hy => ?_) (.inl rfl)
  cases y with
  | worker pid' => exact .inl hy
  | monitor pid' => exact .inr (hpc pid' r wpc hy)

end

/-- The retrieval thread goes on, and starts to recycle only an entry that is ready. -/
lemma Entries.of_reader {pc : ReaderPc} {pipe : ℕ → List Piece} {awaiting : ℕ → List Result}
    {records : List Record} (hdone : ∀ i todo, s.reader = .recycle i todo → todo = [])
    (hstart : ∀ i todo, pc = .recycle i todo → todo = recycleStores ∧ (s.entry i).ready = true) :
    Entries { s with reader := pc, pipe := pipe, awaiting := awaiting, records := records } := by
  refine h.of_same rfl rfl rfl (fun y r wpc hy => .inl ?_) (.inr ⟨hdone, hstart⟩)
  rw [← hy]
  cases y <;> rfl

lemma spawn_entries (hstep : s.spawn c pid = some s') : s'.Entries := by
  unfold spawn at hstep
  dsimp only at hstep
  split_ifs at hstep
  cases hstep
  exact h.of_quiet .idle rfl

lemma claimJob_entries {jobId : ℕ} (hstep : s.claimJob pid jobId = some s') :
    s'.Entries := by
  unfold claimJob at hstep
  split_ifs at hstep
  cases hstep
  exact h.of_quiet (.claimed jobId) rfl

lemma finish_entries {outcome : Outcome} (hstep : s.finish c pid outcome = some s') :
    s'.Entries := by
  unfold finish at hstep
  split at hstep
  case h_2 => cases hstep
  case h_1 jobId hjob =>
    cases hstep
    refine h.of_worker (.write (resultOf c pid jobId outcome) (.scan 0)) ?_
    intro r wpc hpc
    cases hpc
    trivial

lemma crash_entries : (s.setWorker pid .exited).Entries :=
  h.of_quiet .exited rfl

lemma workStep_entries {writeOk : Bool} (hfail : ∀ r i todo, s.worker pid ≠ .fail r i todo)
    (horderly : s.WorkOrderly c writeOk (s.worker pid))
    (hstep : s.workStep c pid writeOk = some s') : s'.Entries := by
  unfold workStep at hstep
  split at hstep
  case h_1 | h_2 | h_3 => cases hstep
  case h_4 jobId hpc =>
    cases hstep
    exact h.of_quiet (.holding jobId) rfl
  case h_5 r hpc | h_9 r i hpc =>
    cases hstep
    exact h.of_quiet (.reset r) rfl
  case h_6 r i hpc =>
    split_ifs at hstep
    · cases hstep
      exact h.of_quiet (.stream r i r.payload) rfl
    · cases hstep
      exact h.of_quiet (.reset r) rfl
  case h_7 r wpc hnotFull hnotDone hpc =>
    cases hstep
    apply h.writeStep
    · show (s.worker pid).writing = _
      rw [hpc]
      rfl
    · rw [hpc] at horderly
      exact horderly
  case h_8 r i piece todo hpc =>
    dsimp only at hstep
    split_ifs at hstep
    · cases hstep
      exact h.of_quiet (.stream r i todo) rfl
    · cases hstep
      exact h.of_quiet (.fail r i failStores) rfl
  case h_10 r i st todo hpc | h_11 r i hpc => exact absurd hpc (hfail r i _)
  case h_12 r hpc =>
    cases hstep
    exact h.of_quiet .idle rfl

lemma startRecovery_entries (hstep : s.startRecovery c pid = some s') :
    s'.Entries := by
  unfold startRecovery at hstep
  split_ifs at hstep
  cases hstep
  exact h.of_monitor nofun

lemma monitorStep_entries {wasCancelled : Bool} (horderly : s.Orderly c (.monitor wasCancelled))
    (hstep : s.monitorStep c wasCancelled = some s') : s'.Entries := by
  unfold monitorStep at hstep
  split at hstep
  case h_1 => cases hstep
  case h_2 pid hpc =>
    split at hstep
    · cases hstep
      exact h.of_monitor nofun
    · cases hstep
      refine h.of_monitor ?_
      intro pid' r wpc hwriting
      simp only [MonitorPc.writing] at hwriting
      split_ifs at hwriting
      cases hwriting
      trivial
  case h_3 pid r hpc | h_4 pid r i hpc | h_6 pid r hpc =>
    cases hstep
    exact h.of_monitor nofun
  case h_5 pid r wpc hnotFull hnotDone hpc =>
    cases hstep
    apply h.writeStep
    · exact writing_of_monitor hpc
    · simp only [Orderly, hpc] at horderly
      exact horderly

end

/-- What the retrieval thread has loaded are the values of a result that is still in the entry. -/
def Seen (s : State) : ReaderPc → Prop
  | .loadReady _ | .recycle _ _ => True
  | .loadRetrieved i | .copyId i => ∃ r, s.unretrieved i = some r
  | .loadStatus i jobId => ∃ r, s.unretrieved i = some r ∧ r.jobId = jobId
  | .loadIndex i jobId status | .loadMessage i jobId status =>
    ∃ r, s.unretrieved i = some r ∧ r.jobId = jobId ∧ r.status = status
  | .loadSize i jobId workerIdx | .read i jobId workerIdx =>
    ∃ r, s.unretrieved i = some r ∧ r.jobId = jobId ∧ r.status = .success ∧
      r.workerIndex = workerIdx
  | .update i jobId status errorMessage =>
    ∃ r, s.unretrieved i = some r ∧ r.jobId = jobId ∧ r.status = status ∧
      ∀ m ∈ r.errorMessage, errorMessage = some m

lemma Seen.mono {pc : ReaderPc} (h : s.Seen pc)
    (hmono : ∀ i r, s.unretrieved i = some r → s'.unretrieved i = some r) : s'.Seen pc := by
  cases pc with
  | loadReady i | recycle i todo => trivial
  | loadRetrieved i | copyId i =>
    obtain ⟨r, hr⟩ := h
    exact ⟨r, hmono i r hr⟩
  | loadStatus i jobId | loadIndex i jobId status | loadMessage i jobId status
  | loadSize i jobId workerIdx | read i jobId workerIdx | update i jobId status errorMessage =>
    obtain ⟨r, hr, hrest⟩ := h
    exact ⟨r, hmono i r hr, hrest⟩

lemma retrieveStep_entries {readOk : Bool} (h : s.Entries) (hseen : s.Seen s.reader)
    (horderly : s.ReadOrderly readOk s.reader) (hstep : s.retrieveStep c readOk = some s') :
    s'.Entries ∧ s'.Seen s'.reader := by
  -- a step that only loads, to a point where it does not recycle
  have hload : ∀ (pc : ReaderPc) (pipe : ℕ → List Piece) (awaiting : ℕ → List Result),
      (∀ i todo, s.reader = .recycle i todo → todo = []) → (∀ i todo, pc ≠ .recycle i todo) →
      s.Seen pc → Entries { s with reader := pc, pipe := pipe, awaiting := awaiting } ∧
        Seen { s with reader := pc, pipe := pipe, awaiting := awaiting } pc := by
    intro pc pipe awaiting hdone hpc hpcSeen
    exact ⟨h.of_reader hdone fun i todo heq => absurd heq (hpc i todo),
      hpcSeen.mono fun i r hr => hr⟩
  unfold retrieveStep at hstep
  cases hpc : s.reader with
  | loadReady i =>
    rw [hpc] at hstep
    dsimp only at hstep
    split_ifs at hstep with hend hready
    · cases hstep
      exact hload (.loadReady 0) _ _ (by simp [hpc]) (by simp) trivial
    · cases hstep
      refine hload (.loadRetrieved i) _ _ (by simp [hpc]) (by simp) ?_
      rcases h.ready i hready with hsome | ⟨todo, htodo, _⟩
      · exact hsome
      · cases hpc.symm.trans htodo
    · cases hstep
      exact hload (.loadReady (i + 1)) _ _ (by simp [hpc]) (by simp) trivial
  | loadRetrieved i =>
    rw [hpc] at hstep hseen
    dsimp only at hstep
    split_ifs at hstep
    · cases hstep
      exact hload (.loadReady (i + 1)) _ _ (by simp [hpc]) (by simp) trivial
    · cases hstep
      exact hload (.copyId i) _ _ (by simp [hpc]) (by simp) hseen
  | copyId i =>
    rw [hpc] at hstep hseen
    obtain ⟨r, hr⟩ := hseen
    cases hstep
    exact hload (.loadStatus i (s.entry i).jobId) _ _ (by simp [hpc]) (by simp)
      ⟨r, hr, (h.kept i r hr).2.jobId.symm⟩
  | loadStatus i jobId =>
    rw [hpc] at hstep hseen
    obtain ⟨r, hr, hid⟩ := hseen
    cases hstep
    exact hload (.loadIndex i jobId (s.entry i).status) _ _ (by simp [hpc]) (by simp)
      ⟨r, hr, hid, (h.kept i r hr).2.status.symm⟩
  | loadIndex i jobId status =>
    rw [hpc] at hstep hseen
    obtain ⟨r, hr, hid, hstatus⟩ := hseen
    dsimp only at hstep
    split_ifs at hstep with hsuccess
    · cases hstep
      exact hload (.loadSize i jobId (s.entry i).workerIndex) _ _ (by simp [hpc]) (by simp)
        ⟨r, hr, hid, hstatus.trans hsuccess, (h.kept i r hr).2.workerIndex.symm⟩
    · cases hstep
      exact hload (.loadMessage i jobId status) _ _ (by simp [hpc]) (by simp) ⟨r, hr, hid, hstatus⟩
  | loadMessage i jobId status =>
    rw [hpc] at hstep hseen
    obtain ⟨r, hr, hid, hstatus⟩ := hseen
    cases hstep
    refine hload (.update i jobId status (some (s.entry i).errorMessage)) _ _ (by simp [hpc])
      (by simp) ⟨r, hr, hid, hstatus, fun m hm => ?_⟩
    exact congrArg some ((h.kept i r hr).2.errorMessage m hm)
  | loadSize i jobId workerIdx =>
    rw [hpc] at hstep hseen
    obtain ⟨r, hr, hid, hstatus, hindex⟩ := hseen
    dsimp only at hstep
    split_ifs at hstep with hsize
    · cases hstep
      exact hload (.read i jobId workerIdx) _ _ (by simp [hpc]) (by simp)
        ⟨r, hr, hid, hstatus, hindex⟩
    · rw [(h.kept i r hr).2.dataSize] at hsize
      exact absurd (r.size_pos hstatus) hsize
  | read i jobId workerIdx =>
    rw [hpc] at hstep hseen horderly
    obtain ⟨r, hr, hid, hstatus, hindex⟩ := hseen
    have hok : readOk = true := horderly
    dsimp only at hstep
    rw [if_pos hok] at hstep
    split_ifs at hstep
    split at hstep
    · cases hstep
    · split_ifs at hstep
      · cases hstep
        refine hload (.update i jobId .success none) _ _ (by simp [hpc]) (by simp)
          ⟨r, hr, hid, hstatus, fun m hm => ?_⟩
        rw [r.silent hstatus] at hm
        cases hm
      · cases hstep
        rw [← hpc]
        exact hload s.reader _ _ (by simp [hpc]) (by simp [hpc])
          (by rw [hpc]; exact ⟨r, hr, hid, hstatus, hindex⟩)
  | update i jobId status errorMessage =>
    rw [hpc] at hstep hseen
    obtain ⟨r, hr, _⟩ := hseen
    cases hstep
    refine ⟨h.of_reader (by simp [hpc]) fun j todo heq => ?_, trivial⟩
    cases heq
    exact ⟨rfl, (h.kept i r hr).1⟩
  | recycle i todo =>
    rw [hpc] at hstep horderly
    cases todo with
    | nil =>
      cases hstep
      refine hload (.loadReady (i + 1)) _ _ (fun j todo heq => ?_) (by simp) trivial
      rw [hpc] at heq
      cases heq
      rfl
    | cons st todo =>
      cases hstep
      refine ⟨h.recycle hpc fun hst => ?_, trivial⟩
      rw [hst] at horderly
      exact horderly

end State

end CuOpt.Grpc.Results
