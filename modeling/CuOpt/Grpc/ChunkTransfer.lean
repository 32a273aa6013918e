import CuOpt.Grpc.ChunkOrder

/-! A transfer of any chunks: what phase 2 puts on the pipe, and the requests whose answer does not
depend on the order of their chunks. -/

namespace CuOpt.Grpc.Chunks

open ByteFrames List
open ArrayFamily (chunksOf)
open Subtype (val)

section PhaseTwo

variable {Header : Type} {proto : Protobuf Header} {header : Header} {chunks chunks' : List ArrayChunk}
  {fields fields' : Fields} {key : ArrayKey} {fi : FieldChunks}

lemma writeCalls_some {pipe : Pipe} {n next : ℕ} {calls : List (List UInt8)} {bytes : List UInt8}
    (h : writeCalls pipe n calls = (bytes, some next)) : bytes = calls.flatten := by
  induction calls generalizing n bytes with
  | nil =>
    rw [← (Prod.mk.inj h).1]
    rfl
  | cons call calls ih =>
    rw [writeCalls] at h
    cases hpipe : pipe n with
    | some written =>
      rw [hpipe] at h
      cases (Prod.mk.inj h).2
    | none =>
      rw [hpipe] at h
      obtain ⟨hbytes, hnext⟩ := Prod.mk.inj h
      have hpair : writeCalls pipe (n + 1) calls =
          ((writeCalls pipe (n + 1) calls).1, some next) := Prod.ext rfl hnext
      rw [← hbytes, flatten_cons, ← ih hpair]

/-- Steps that all produce their writes end in success, or in a write that fails. -/
lemma phaseTwo_calls (pipe : Pipe) (n : ℕ) (steps : List (List (List UInt8))) :
    ∃ transfer, phaseTwo pipe n (steps.map fun calls => .ok (some calls)) = .ok transfer ∧
      transfer.status ≠ .validationFailed ∧ transfer.failure ≠ some .other ∧
      (transfer.status = .success → transfer.bytes = steps.flatMap flatten) := by
  induction steps generalizing n with
  | nil => exact ⟨_, rfl, nofun, nofun, fun _ => rfl⟩
  | cons calls steps ih =>
    rw [map_cons, phaseTwo]
    cases hcalls : writeCalls pipe n calls with
    | mk bytes next =>
      cases next with
      | none => exact ⟨_, rfl, nofun, nofun, nofun⟩
      | some next =>
        obtain ⟨transfer, hrest, hstatus, hfailure, hbytes⟩ := ih next
        dsimp only
        rw [hrest]
        refine ⟨_, rfl, hstatus, hfailure, fun hsuccess => ?_⟩
        rw [flatMap_cons, ← hbytes hsuccess, ← writeCalls_some hcalls]

lemma payloadCalls_flatten {data : List UInt8} (h : Delivers fi data) :
    (payloadCalls fi data).flatten = data := by
  unfold payloadCalls
  split_ifs with hzero
  · have hlength := h.totalBytes
    rw [hzero] at hlength
    exact (eq_nil_of_length_eq_zero (Int.ofNat_inj.mp hlength.symm)).symm
  · rw [flatten_cons, flatten_nil, append_nil]

lemma Delivers.payloadChecked {data : List UInt8} (h : Delivers fi data) (hsized : Sized fi) :
    payloadChecked fi = .ok (some (payloadCalls fi data)) := by
  rw [payloadChecked_eq hsized, h.assembled]
  rfl

lemma topSteps_eq {p : I32 × FieldChunks} (h : ∃ data, Delivers p.2 data) (hsized : Sized p.2) :
    ∃ steps : List (List (List UInt8)), topSteps p = steps.map (fun calls => .ok (some calls)) ∧
      steps.flatMap flatten = topFrame (p.1, payload p.2) := by
  obtain ⟨data, hdata⟩ := h
  refine ⟨[[encodeI32 p.1, encodeU64 p.2.totalBytes.toNat], payloadCalls p.2 data], ?_, ?_⟩
  · rw [topSteps, hdata.payloadChecked hsized]
    rfl
  · rw [hdata.payload, flatMap_cons, flatMap_singleton, payloadCalls_flatten hdata,
      hdata.totalBytes]
    simp [topFrame]

lemma containerSteps_eq {p : ContainerArrayKey × FieldChunks} (h : ∃ data, Delivers p.2 data)
    (hsized : Sized p.2) :
    ∃ steps : List (List (List UInt8)), containerSteps p = steps.map (fun calls => .ok (some calls)) ∧
      steps.flatMap flatten = containerFrame (p.1, payload p.2) := by
  obtain ⟨data, hdata⟩ := h
  refine ⟨[[encodeI32 p.1.containerFieldNum, encodeI32 p.1.containerIndex, encodeI32 p.1.fieldId,
    encodeU64 p.2.totalBytes.toNat], payloadCalls p.2 data], ?_, ?_⟩
  · rw [containerSteps, hdata.payloadChecked hsized]
    rfl
  · rw [hdata.payload, flatMap_cons, flatMap_singleton, payloadCalls_flatten hdata,
      hdata.totalBytes]
    simp [containerFrame]

lemma protobufWrites_eq (hheader : (proto.serialize header).length ≤ kMaxProtobufMessageBytes) :
    ∃ calls, protobufWrites proto header = .ok (some calls) ∧
      calls.flatten = encodeU32 (proto.serialize header).length ++ proto.serialize header := by
  unfold protobufWrites
  rw [if_neg (not_lt.mpr hheader)]
  split_ifs with hempty
  · refine ⟨_, rfl, ?_⟩
    rw [eq_nil_of_length_eq_zero hempty]
    simp
  · exact ⟨_, rfl, by simp⟩

/-- Phase 2 never fails before it writes, and all its writes together are the transfer. -/
lemma phaseTwoSteps_eq (hheader : (proto.serialize header).length ≤ kMaxProtobufMessageBytes)
    (h : Deliverable fields) (htopSized : ∀ q ∈ fields.top.toList, Sized q.2)
    (hcontainerSized : ∀ q ∈ fields.container.toList, Sized q.2) :
    ∃ steps : List (List (List UInt8)),
      phaseTwoSteps proto header fields = steps.map (fun calls => .ok (some calls)) ∧
        steps.flatMap flatten = transferBytes proto header fields := by
  obtain ⟨protobuf, hprotobuf, hprotobufBytes⟩ := protobufWrites_eq hheader
  obtain ⟨top, htop, htopBytes⟩ :=
    flatMap_steps fun p hp => topSteps_eq (h.top p hp) (htopSized p hp)
  obtain ⟨container, hcontainer, hcontainerBytes⟩ :=
    flatMap_steps fun p hp => containerSteps_eq (h.container p hp) (hcontainerSized p hp)
  refine ⟨[protobuf, [encodeU32 fields.top.size]] ++ top ++ [[encodeU32 fields.container.size]] ++
    container, ?_, ?_⟩
  · rw [phaseTwoSteps, hprotobuf, htop, hcontainer]
    simp only [map_append, map_cons, map_nil]
  · simp only [flatMap_append, htopBytes, hcontainerBytes]
    simp [transferBytes, SortedMap.mapValues, hprotobufBytes]

lemma FieldOf.delivers {N E : ℕ} (h : FieldOf key chunks fi N E) (hok : ∀ ac ∈ chunks, ChunkOk ac)
    (hhead : announced (chunksOf key chunks) ≠ 0 → HeadAnnounces (chunksOf key chunks))
    (hcovered : Covered key chunks) : ∃ data, Delivers fi data ∧ CoveredOnce key chunks data := by
  obtain ⟨data, hdata, hbytes, honce⟩ := h.payload hok hhead hcovered
  have hwithin : data.length ≤ kMaxPipeArrayBytes := by
    have hle := h.within
    have heq : fi.totalBytes = ((N * E : ℕ) : ℤ) := by rw [h.field]
    rw [hbytes] at heq
    rw [Int.ofNat_inj.mp heq]
    exact hle
  exact ⟨data, ⟨h.validate_iff.mpr ⟨hhead, hcovered⟩, hdata, hbytes, hwithin⟩, honce⟩

variable (hbinned : BinnedFields chunks fields) (hacceptable : Acceptable proto header chunks)
  (hheads : HeadsAnnounce chunks)

include hbinned hacceptable hheads

lemma field_delivers (hget : fields.get? key = some fi) :
    ∃ data, Delivers fi data ∧ CoveredOnce key chunks data := by
  obtain ⟨N, E, hfield⟩ := hbinned.fieldOf hacceptable.each hacceptable.agree hget
  exact hfield.delivers hacceptable.each (hheads key) (hacceptable.covered key)

lemma fields_deliverable : Deliverable fields := by
  have hall : ∀ key fi, fields.get? key = some fi → ∃ data, Delivers fi data := by
    intro key fi hget
    obtain ⟨data, hdata, _⟩ := field_delivers hbinned hacceptable hheads hget
    exact ⟨data, hdata⟩
  obtain ⟨htop, hcontainer⟩ := forall_fields.mpr hall
  exact ⟨htop, hcontainer⟩

end PhaseTwo

section Orders

variable {chunks chunks' : List ArrayChunk} {fields fields' : Fields} {key : ArrayKey}
  {fi : FieldChunks}

def snapshot (fi : FieldChunks) : ℤ × Option (List UInt8) := (fi.totalBytes, assembleFieldPayload fi)

def payloadStep (p : ℤ × Option (List UInt8)) : Checked (Option (List (List UInt8))) :=
  .ok (p.2.map fun bytes => if p.1 = 0 then [] else [bytes])

def snapshotTopSteps (p : I32 × ℤ × Option (List UInt8)) : List (Checked (Option (List (List UInt8)))) :=
  [.ok (some [encodeI32 p.1, encodeU64 p.2.1.toNat]), payloadStep p.2]

def snapshotContainerSteps (p : ContainerArrayKey × ℤ × Option (List UInt8)) :
    List (Checked (Option (List (List UInt8)))) :=
  [.ok (some [encodeI32 p.1.containerFieldNum, encodeI32 p.1.containerIndex, encodeI32 p.1.fieldId,
    encodeU64 p.2.1.toNat]), payloadStep p.2]

lemma phaseTwoSteps_snapshot {Header : Type} (proto : Protobuf Header) (header : Header)
    (htop : ∀ q ∈ fields.top.toList, Sized q.2) (hcontainer : ∀ q ∈ fields.container.toList, Sized q.2) :
    phaseTwoSteps proto header fields =
      [protobufWrites proto header, .ok (some [encodeU32 (fields.top.mapValues snapshot).size])] ++
        (fields.top.mapValues snapshot).toList.flatMap snapshotTopSteps ++
        [.ok (some [encodeU32 (fields.container.mapValues snapshot).size])] ++
        (fields.container.mapValues snapshot).toList.flatMap snapshotContainerSteps := by
  have htopSteps : fields.top.toList.flatMap topSteps =
      (fields.top.mapValues snapshot).toList.flatMap snapshotTopSteps := by
    rw [SortedMap.mapValues, flatMap_map]
    apply flatMap_congr
    intro q hq
    rw [topSteps, payloadChecked_eq (htop q hq)]
    rfl
  have hcontainerSteps : fields.container.toList.flatMap containerSteps =
      (fields.container.mapValues snapshot).toList.flatMap snapshotContainerSteps := by
    rw [SortedMap.mapValues, flatMap_map]
    apply flatMap_congr
    intro q hq
    rw [containerSteps, payloadChecked_eq (hcontainer q hq)]
    rfl
  rw [phaseTwoSteps, htopSteps, hcontainerSteps, size_mapValues, size_mapValues]

lemma CoveredOnce.perm {bytes : List UInt8} (h : CoveredOnce key chunks bytes) (hagree : Agree chunks)
    (hperm : chunks'.Perm chunks) : CoveredOnce key chunks' bytes := by
  have hown := chunksOf_perm key hperm
  obtain ⟨hsize, honce, hcarries⟩ := h
  refine ⟨?_, ?_, hcarries.perm hown⟩
  · rw [hagree.announced_perm hperm]
    exact hsize
  · rw [hagree.announced_perm hperm]
    exact (hown.flatMap_right _).trans honce

lemma CoveredOnce.unique {bytes bytes' : List UInt8} {N E : ℕ} (hfield : FieldOf key chunks fi N E)
    (hcovered : Covered key chunks) (h : CoveredOnce key chunks bytes)
    (h' : CoveredOnce key chunks bytes') : bytes = bytes' := by
  have hlength : ∀ {b : List UInt8}, CoveredOnce key chunks b → b.length = N * E := by
    intro b hb
    have hsize := hb.size
    rw [hfield.count, hfield.elementSize, ← Nat.cast_mul] at hsize
    exact Int.ofNat_inj.mp hsize
  have hcarries := h.carries
  have hcarries' := h'.carries
  by_cases hzero : N = 0
  · have hb := hlength h
    have hb' := hlength h'
    rw [hzero, Nat.zero_mul] at hb hb'
    rw [eq_nil_of_length_eq_zero hb, eq_nil_of_length_eq_zero hb']
  · have hcovers := hcovered (hfield.count ▸ Int.natCast_ne_zero.mpr hzero)
    rw [hfield.count, hfield.elementSize, Int.toNat_natCast, Int.toNat_natCast] at hcovers
    rw [hfield.elementSize, Int.toNat_natCast] at hcarries hcarries'
    exact hcarries.unique hfield.width hcovers hcarries' (hlength h) (hlength h')

variable {Header : Type} {proto : Protobuf Header} {header : Header}

lemma snapshot_perm (hbinned : BinnedFields chunks fields) (hbinned' : BinnedFields chunks' fields')
    (hacceptable : Acceptable proto header chunks) (hheads : HeadsAnnounce chunks)
    (hheads' : HeadsAnnounce chunks') (hperm : chunks'.Perm chunks) (key : ArrayKey) :
    (fields'.get? key).map snapshot = (fields.get? key).map snapshot := by
  have hsame : (∃ fi, fields'.get? key = some fi) ↔ ∃ fi, fields.get? key = some fi := by
    rw [hbinned'.isSome_iff, hbinned.isSome_iff]
    simp only [hperm.mem_iff]
  cases hget : fields.get? key with
  | none =>
    cases hget' : fields'.get? key with
    | none => rfl
    | some fi' =>
      obtain ⟨fi, hfi⟩ := hsame.mp ⟨fi', hget'⟩
      rw [hget] at hfi
      cases hfi
  | some fi =>
    obtain ⟨fi', hget'⟩ := hsame.mpr ⟨fi, hget⟩
    obtain ⟨N, E, hfield⟩ := hbinned.fieldOf hacceptable.each hacceptable.agree hget
    obtain ⟨data, hdata, honce⟩ := field_delivers hbinned hacceptable hheads hget
    obtain ⟨data', hdata', honce'⟩ :=
      field_delivers hbinned' (hacceptable.perm hperm) hheads' hget'
    have heq : data' = data := CoveredOnce.unique hfield (hacceptable.covered key)
      (honce'.perm (hacceptable.perm hperm).agree hperm.symm) honce
    rw [hget', Option.map_some, Option.map_some, snapshot, snapshot, hdata.totalBytes,
      hdata'.totalBytes, hdata.assembled, hdata'.assembled, heq]

/-- Chunks in another order that is accepted as well are written the same. -/
lemma phaseTwoSteps_perm (hbinned : BinnedFields chunks fields)
    (hbinned' : BinnedFields chunks' fields') (hacceptable : Acceptable proto header chunks)
    (hheads : HeadsAnnounce chunks) (hheads' : HeadsAnnounce chunks') (hperm : chunks'.Perm chunks)
    (hmemory : ∀ ac ∈ chunks, (ac.data.length : ℤ) ≤ int64Max) :
    phaseTwoSteps proto header fields' = phaseTwoSteps proto header fields := by
  have hacceptable' := hacceptable.perm hperm
  have hsnapshot := snapshot_perm hbinned hbinned' hacceptable hheads hheads' hperm
  obtain ⟨htop, hcontainer⟩ := hbinned.sized hacceptable.each hacceptable.agree hmemory
  obtain ⟨htop', hcontainer'⟩ := hbinned'.sized hacceptable'.each hacceptable'.agree
    fun ac hac => hmemory ac (hperm.subset hac)
  have htopEq : fields'.top.mapValues snapshot = fields.top.mapValues snapshot := by
    apply SortedMap.ext_get?
    intro fieldId
    rw [SortedMap.get?_mapValues, SortedMap.get?_mapValues]
    exact hsnapshot (.top fieldId)
  have hcontainerEq : fields'.container.mapValues snapshot = fields.container.mapValues snapshot := by
    apply SortedMap.ext_get?
    intro key
    rw [SortedMap.get?_mapValues, SortedMap.get?_mapValues]
    exact hsnapshot (.container key)
  rw [phaseTwoSteps_snapshot proto header htop hcontainer,
    phaseTwoSteps_snapshot proto header htop' hcontainer', htopEq, hcontainerEq]

lemma headsAnnounce_of_not_mixed (h : ¬Mixed chunks) : HeadsAnnounce chunks := by
  intro key hne first hfirst hzero
  obtain ⟨hchunk, hkey⟩ := mem_chunksOf.mp (mem_of_mem_head? hfirst)
  obtain ⟨ac, hac, htotal⟩ := exists_announced hne
  obtain ⟨hac, hacKey⟩ := mem_chunksOf.mp hac
  exact h ⟨first, hchunk, ac, hac, hkey.trans hacKey.symm, hzero, htotal ▸ hne⟩

lemma Mixed.perm (h : Mixed chunks) (hperm : chunks'.Perm chunks) : Mixed chunks' := by
  obtain ⟨ac, hac, ac', hac', hmixed⟩ := h
  exact ⟨ac, hperm.mem_iff.mpr hac, ac', hperm.mem_iff.mpr hac', hmixed⟩

/-- An empty chunk in front hides what the others announce. -/
lemma not_headsAnnounce_cons {ac ac' : ArrayChunk} (hac' : ac' ∈ chunks)
    (hkey : chunkKey ac = chunkKey ac') (hzero : ac.totalElements = 0) (hne : ac'.totalElements ≠ 0) :
    ¬HeadsAnnounce (ac :: chunks) := by
  intro h
  have hown : chunksOf (chunkKey ac) (ac :: chunks) = ac :: chunksOf (chunkKey ac) chunks :=
    filter_cons_of_pos (decide_eq_true rfl)
  refine h (chunkKey ac) (fun hnone => ?_) ac ?_ hzero
  · exact hne (announced_eq_zero_iff.mp hnone ac'
      (mem_chunksOf.mpr ⟨mem_cons_of_mem ac hac', hkey.symm⟩))
  · rw [hown]
    rfl

def announces (ac : ArrayChunk) : Bool := ac.totalElements ≠ 0

/-- With the empty chunks last, all first chunks announce. -/
lemma headsAnnounce_sorted (chunks : List ArrayChunk) :
    HeadsAnnounce (chunks.filter announces ++ chunks.filter fun ac => !announces ac) := by
  intro key hne first hfirst
  have hsplit : chunksOf key (chunks.filter announces ++ chunks.filter fun ac => !announces ac) =
      chunksOf key (chunks.filter announces) ++
        chunksOf key (chunks.filter fun ac => !announces ac) := filter_append _ _
  obtain ⟨ac, hac, htotal⟩ := exists_announced hne
  have hacAnnounces : announces ac = true := decide_eq_true (htotal ▸ hne)
  have hfront : chunksOf key (chunks.filter announces) ≠ [] := by
    rw [hsplit, mem_append] at hac
    rcases hac with hac | hac
    · exact ne_nil_of_mem hac
    · have hkeep := (mem_filter.mp (mem_chunksOf.mp hac).1).2
      rw [hacAnnounces] at hkeep
      cases hkeep
  rw [hsplit, head?_append_of_ne_nil _ hfront] at hfirst
  have hmem := (mem_chunksOf.mp (mem_of_mem_head? hfirst)).1
  exact of_decide_eq_true (mem_filter.mp hmem).2

end Orders

section Transfers

variable {Header : Type} {pipe : Pipe} {proto : Protobuf Header} {header : Header}
  {chunks chunks' : List Message}

/-- Nothing is written for a refused request, only a write can fail afterwards, and a success has
written each array as its chunks give it. -/
structure Transfer.Sound (proto : Protobuf Header) (header : Header) (chunks : List ArrayChunk)
    (transfer : Transfer) : Prop where
  silent : transfer.status = .validationFailed → transfer.bytes = []
  writes : transfer.failure ≠ some .other
  written : transfer.status = .success → ∃ fields : Fields,
    transfer.bytes = transferBytes proto header fields ∧
      ∀ key, ((∃ fi, fields.get? key = some fi) ↔ ∃ ac ∈ chunks, chunkKey ac = key) ∧
        ∀ fi, fields.get? key = some fi → CoveredOnce key chunks (payload fi)

structure CompleteValidation (pipe : Pipe) (proto : Protobuf Header) (header : Header)
    (chunks : List Message) : Prop where
  ordered : ∀ chunks' : List Message, chunks'.Perm chunks →
    transferChunkedRequest pipe proto header chunks' =
      transferChunkedRequest pipe proto header chunks
  sound : ∃ transfer, transferChunkedRequest pipe proto header chunks = .ok transfer ∧
    transfer.Sound proto header (chunks.map Subtype.val)

lemma memory (chunks : List Message) :
    ∀ ac ∈ chunks.map val, (ac.data.length : ℤ) ≤ int64Max := by
  intro ac hac
  obtain ⟨message, _, rfl⟩ := mem_map.mp hac
  exact message.2

lemma transfer_accepted (pipe : Pipe)
    (hacceptable : Acceptable proto header (chunks.map val))
    (hheads : HeadsAnnounce (chunks.map val)) :
    ∃ fields, BinnedFields (chunks.map val) fields ∧
      transferChunkedRequest pipe proto header chunks =
        phaseTwo pipe 0 (phaseTwoSteps proto header fields) := by
  rcases phaseOne_eq proto header (memory chunks) with h | h
  · obtain ⟨_, _, fields, hfold, hphase⟩ := h
    refine ⟨fields, (foldlM_binChunk_some hfold).2.2, ?_⟩
    rw [transferChunkedRequest, hphase]
  · exact absurd ⟨hacceptable, hheads⟩ h.1

lemma transfer_refused (pipe : Pipe)
    (h : ¬(Acceptable proto header (chunks.map val) ∧
      HeadsAnnounce (chunks.map val))) :
    transferChunkedRequest pipe proto header chunks = .ok ⟨.validationFailed, [], none⟩ := by
  rcases phaseOne_eq proto header (memory chunks) with h' | h'
  · exact absurd ⟨h'.1, h'.2.1⟩ h
  · rw [transferChunkedRequest, h'.2]

lemma transfer_sound (pipe : Pipe) (proto : Protobuf Header) (header : Header)
    (chunks : List Message) :
    ∃ transfer, transferChunkedRequest pipe proto header chunks = .ok transfer ∧
      transfer.Sound proto header (chunks.map val) ∧
      (transfer.status = .validationFailed ↔ ¬(Acceptable proto header (chunks.map val) ∧
        HeadsAnnounce (chunks.map val))) := by
  by_cases h : Acceptable proto header (chunks.map val) ∧
      HeadsAnnounce (chunks.map val)
  · obtain ⟨hacceptable, hheads⟩ := h
    obtain ⟨fields, hbinned, htransfer⟩ := transfer_accepted pipe hacceptable hheads
    obtain ⟨htop, hcontainer⟩ :=
      hbinned.sized hacceptable.each hacceptable.agree (memory chunks)
    obtain ⟨steps, hsteps, hbytes⟩ := phaseTwoSteps_eq hacceptable.header
      (fields_deliverable hbinned hacceptable hheads) htop hcontainer
    obtain ⟨transfer, hphase, hstatus, hfailure, hwritten⟩ := phaseTwo_calls pipe 0 steps
    refine ⟨transfer, ?_, ?_, iff_of_false hstatus (not_not.mpr ⟨hacceptable, hheads⟩)⟩
    · rw [htransfer, hsteps, hphase]
    · constructor
      case silent => exact fun hrefused => absurd hrefused hstatus
      case writes => exact hfailure
      case written =>
        intro hsuccess
        refine ⟨fields, (hwritten hsuccess).trans hbytes, fun key => ⟨hbinned.isSome_iff key, ?_⟩⟩
        intro fi hget
        obtain ⟨data, hdata, honce⟩ := field_delivers hbinned hacceptable hheads hget
        rw [hdata.payload]
        exact honce
  · refine ⟨_, transfer_refused pipe h, ?_, iff_of_true rfl h⟩
    constructor
    case silent => exact fun _ => rfl
    case writes | written => exact nofun

/-- Without mixed arrays the order does not matter. -/
lemma transfer_perm (pipe : Pipe)
    (h : ¬(Acceptable proto header (chunks.map val) ∧ Mixed (chunks.map val)))
    (hperm : chunks'.Perm chunks) : transferChunkedRequest pipe proto header chunks' =
      transferChunkedRequest pipe proto header chunks := by
  have hvals := hperm.map val
  by_cases hacceptable : Acceptable proto header (chunks.map val)
  · have hnot : ¬Mixed (chunks.map val) := fun hmixed => h ⟨hacceptable, hmixed⟩
    have hheads := headsAnnounce_of_not_mixed hnot
    have hheads' := headsAnnounce_of_not_mixed fun hmixed => hnot (hmixed.perm hvals.symm)
    obtain ⟨fields, hbinned, htransfer⟩ := transfer_accepted pipe hacceptable hheads
    obtain ⟨fields', hbinned', htransfer'⟩ :=
      transfer_accepted pipe (hacceptable.perm hvals) hheads'
    rw [htransfer, htransfer', phaseTwoSteps_perm hbinned hbinned' hacceptable hheads hheads' hvals
      (memory chunks)]
  · have hacceptable' : ¬Acceptable proto header (chunks'.map val) :=
      fun h' => hacceptable (h'.perm hvals.symm)
    rw [transfer_refused pipe fun h' => hacceptable h'.1,
      transfer_refused pipe fun h' => hacceptable' h'.1]

/-- Validation is complete and independent of the order for all requests but the acceptable ones with
a mixed array. -/
theorem transferChunkedRequest_iff (pipe : Pipe) (proto : Protobuf Header) (header : Header)
    (chunks : List Message) : CompleteValidation pipe proto header chunks ↔
      ¬(Acceptable proto header (chunks.map val) ∧ Mixed (chunks.map val)) := by
  constructor
  · rintro ⟨hordered, _⟩ ⟨hacceptable, hmixed⟩
    have hstatus : ∀ chunks' : List Message, chunks'.Perm chunks →
        HeadsAnnounce (chunks'.map val) → HeadsAnnounce (chunks.map val) := by
      intro chunks' hperm hheads
      by_contra hnot
      obtain ⟨transfer, htransfer, _, hrefused⟩ := transfer_sound pipe proto header chunks'
      have heq := hordered chunks' hperm
      rw [htransfer, transfer_refused pipe fun h => hnot h.2] at heq
      have hrefuse : transfer.status = .validationFailed := by
        rw [Except.ok.inj heq]
      exact hrefused.mp hrefuse ⟨hacceptable.perm (hperm.map _), hheads⟩
    have hheads : HeadsAnnounce (chunks.map val) := by
      have hsorted : ((chunks.filter (announces ∘ val)) ++
          chunks.filter fun message => !announces message.val).map val =
          (chunks.map val).filter announces ++
            (chunks.map val).filter fun ac => !announces ac := by
        rw [filter_map, filter_map, ← map_append]
        rfl
      have hperm : ((chunks.filter (announces ∘ val)) ++
          chunks.filter fun message => !announces message.val).Perm chunks :=
        filter_append_perm (announces ∘ val) chunks
      apply hstatus _ hperm
      rw [hsorted]
      exact headsAnnounce_sorted _
    obtain ⟨ac, hac, ac', hac', hkey, hzero, hne⟩ := hmixed
    obtain ⟨message, hmessage, rfl⟩ := List.mem_map.mp hac
    obtain ⟨before, after, hsplit⟩ := append_of_mem hmessage
    have hfront : (message :: (before ++ after)).Perm chunks := by
      rw [hsplit]
      exact List.perm_middle.symm
    have hrest : ac' ∈ (before ++ after).map val := by
      have hmem := (hfront.map val).mem_iff.mpr hac'
      rw [map_cons, mem_cons] at hmem
      exact hmem.resolve_left fun heq => hne (heq ▸ hzero)
    have hnot : ¬HeadsAnnounce ((message :: (before ++ after)).map val) :=
      not_headsAnnounce_cons hrest hkey hzero hne
    have heq := hordered (message :: (before ++ after)) hfront
    rw [transfer_refused pipe fun h => hnot h.2] at heq
    obtain ⟨transfer, htransfer, _, hrefused⟩ := transfer_sound pipe proto header chunks
    rw [htransfer] at heq
    have hrefuse : transfer.status = .validationFailed := by
      rw [← Except.ok.inj heq]
    exact hrefused.mp hrefuse ⟨hacceptable, hheads⟩
  · intro h
    obtain ⟨transfer, htransfer, hsound, _⟩ := transfer_sound pipe proto header chunks
    exact ⟨fun chunks' hperm => transfer_perm pipe h hperm, transfer, htransfer, hsound⟩

end Transfers

def fullChunk : Message :=
  ⟨⟨decodeI32 [7], 0, 1, [1, 2, 3, 4, 5, 6, 7, 8], none, none⟩, by decide⟩

def emptyChunk : Message := ⟨⟨decodeI32 [7], 0, 0, [], none, none⟩, by decide⟩

theorem empty_chunk_in_front :
    ¬CompleteValidation (fun _ => none) bytesProto [] [fullChunk, emptyChunk] := by
  intro h
  have heq := h.ordered [emptyChunk, fullChunk] (List.Perm.swap fullChunk emptyChunk [])
  have hfull : (transferChunkedRequest (fun _ => none) bytesProto []
      [fullChunk, emptyChunk]).toOption.map Transfer.status = some .success := by decide +kernel
  have hempty : (transferChunkedRequest (fun _ => none) bytesProto []
      [emptyChunk, fullChunk]).toOption.map Transfer.status = some .validationFailed := by
    decide +kernel
  rw [heq, hfull] at hempty
  cases hempty

end CuOpt.Grpc.Chunks
