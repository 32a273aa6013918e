import Mathlib

/-! Shortest paths by a queue of tentative distances in which outdated entries are left: what holds
between two steps, kept by each kind of step, and what it says of the walks from the source. -/

namespace ShortestPaths

open List Function Finset

variable {ν K : Type*} [DecidableEq ν] [AddCommMonoid K] [LinearOrder K] [IsOrderedAddMonoid K]

structure Network (ν K : Type*) where
  next : ν → List ν
  cost : ν → ν → K

inductive WalkTo (net : Network ν K) (s : ν) : ν → List ν → K → Prop
  | start : WalkTo net s s [s] 0
  | step {u v : ν} {p : List ν} {c : K} : WalkTo net s u p c → v ∈ net.next u →
      WalkTo net s v (v :: p) (c + net.cost u v)

/-- Following the parents from the head of the list to the source gives the list. -/
def Traced (prev : ν → Option ν) (s : ν) : List ν → Prop
  | [] => False
  | [a] => a = s
  | a :: b :: p => a ≠ s ∧ prev a = some b ∧ Traced prev s (b :: p)

variable {p todo : List ν}

omit [DecidableEq ν] in
theorem Traced.congr {prev prev' : ν → Option ν} {s : ν} (h : Traced prev s p)
    (hsame : ∀ a ∈ p, prev' a = prev a) : Traced prev' s p := by
  induction p with
  | nil => exact h
  | cons a p ih =>
    cases p with
    | nil => exact h
    | cons b p =>
      refine ⟨h.1, (hsame a mem_cons_self).trans h.2.1, ih h.2.2 ?_⟩
      exact fun c hc => hsame c (mem_cons_of_mem a hc)

def Relaxed (net : Network ν K) (dist : ν → Option K) (u v : ν) : Prop :=
  ∃ du dv, dist u = some du ∧ dist v = some dv ∧ dv ≤ du + net.cost u v

/-- What holds between two steps: the settled nodes have their final distances and are below the
queue, the others that have been reached are in it, and all edges of the settled nodes but the
pending ones are relaxed. -/
structure Inv (net : Network ν K) (s : ν) (pending : ν → ν → Prop) (settled : Finset ν)
    (dist : ν → Option K) (prev : ν → Option ν) (queue : List (K × ν)) : Prop where
  source : dist s = some 0
  path : ∀ v d, dist v = some d → ∃ p, WalkTo net s v (v :: p) d ∧ Traced prev s (v :: p) ∧
    (∀ u ∈ p, u ∈ settled) ∧ (v :: p).Nodup
  queued : ∀ v d, dist v = some d → v ∉ settled → (d, v) ∈ queue
  nodup : queue.Nodup
  entry : ∀ d v, (d, v) ∈ queue → ∃ dv, dist v = some dv ∧ dv ≤ d ∧ (v ∈ settled → dv < d)
  below : ∀ u ∈ settled, ∃ du, dist u = some du ∧ ∀ d v, (d, v) ∈ queue → du ≤ d
  optimal : ∀ u ∈ settled, ∀ du, dist u = some du → ∀ p c, WalkTo net s u p c → du ≤ c
  relaxed : ∀ u ∈ settled, ∀ v ∈ net.next u, pending u v ∨ Relaxed net dist u v

def noEdge : ν → ν → Prop := fun _ _ => False

variable {net : Network ν K} {s : ν} {pending : ν → ν → Prop} {settled : Finset ν}
  {dist : ν → Option K} {prev : ν → Option ν} {queue rest : List (K × ν)} {u v : ν} {d : K}

variable {c : K}

omit [DecidableEq ν] in
theorem WalkTo.nonneg (hcost : ∀ a b, 0 ≤ net.cost a b) (h : WalkTo net s v p c) : 0 ≤ c := by
  induction h with
  | start => exact le_rfl
  | step _ _ ih => exact add_nonneg ih (hcost _ _)

omit [IsOrderedAddMonoid K] in
theorem Inv.start (prev : ν → Option ν) :
    Inv net s noEdge ∅ (update (fun _ => none) s (some 0)) prev [(0, s)] where
  source := update_self s _ _
  path := by
    intro v d hd
    by_cases hv : v = s
    · subst hv
      rw [update_self] at hd
      cases hd
      exact ⟨[], .start, rfl, fun _ hu => absurd hu not_mem_nil, nodup_singleton v⟩
    · rw [update_of_ne hv] at hd
      cases hd
  queued := by
    intro v d hd _
    by_cases hv : v = s
    · subst hv
      rw [update_self] at hd
      cases hd
      exact mem_cons_self
    · rw [update_of_ne hv] at hd
      cases hd
  nodup := nodup_singleton _
  entry := by
    intro d v hmem
    cases List.mem_singleton.mp hmem
    exact ⟨0, update_self s _ _, le_rfl, fun h => absurd h (notMem_empty _)⟩
  below := fun _ hu => absurd hu (notMem_empty _)
  optimal := fun _ hu => absurd hu (notMem_empty _)
  relaxed := fun _ hu => absurd hu (notMem_empty _)

lemma Inv.exists_reached (hcost : ∀ a b, 0 ≤ net.cost a b)
    (h : Inv net s noEdge settled dist prev queue) (hwalk : WalkTo net s v p c) (hv : v ∉ settled) :
    ∃ w dw, w ∉ settled ∧ dist w = some dw ∧ dw ≤ c := by
  induction hwalk with
  | start => exact ⟨s, 0, hv, h.source, le_rfl⟩
  | @step u v p c hwalk hedge ih =>
    by_cases hu : u ∈ settled
    · obtain ⟨du, dv, hdu, hdv, hle⟩ := (h.relaxed u hu v hedge).resolve_left id
      have hopt : du ≤ c := h.optimal u hu du hdu p c hwalk
      exact ⟨v, dv, hv, hdv, hle.trans (add_le_add_left hopt _)⟩
    · obtain ⟨w, dw, hw, hdw, hle⟩ := ih hu
      exact ⟨w, dw, hw, hdw, hle.trans (le_add_of_nonneg_right (hcost u v))⟩

omit [DecidableEq ν] [IsOrderedAddMonoid K] in
theorem Inv.drop (h : Inv net s pending settled dist prev ((d, u) :: rest))
    (hold : ∃ du, dist u = some du ∧ du < d) : Inv net s pending settled dist prev rest where
  __ := h
  queued := by
    intro v dv hdv hv
    rcases List.mem_cons.mp (h.queued v dv hdv hv) with heq | hmem
    · obtain ⟨du, hdu, hlt⟩ := hold
      cases heq
      rw [hdv] at hdu
      cases hdu
      exact absurd hlt (lt_irrefl _)
    · exact hmem
  nodup := h.nodup.of_cons
  entry := fun d v hmem => h.entry d v (mem_cons_of_mem _ hmem)
  below := by
    intro v hv
    obtain ⟨dv, hdv, hle⟩ := h.below v hv
    exact ⟨dv, hdv, fun d w hmem => hle d w (mem_cons_of_mem _ hmem)⟩

omit [DecidableEq ν] [IsOrderedAddMonoid K] in
theorem Inv.fresh (h : Inv net s pending settled dist prev ((d, u) :: rest))
    (hnew : ¬ ∃ du, dist u = some du ∧ du < d) : dist u = some d ∧ u ∉ settled := by
  obtain ⟨du, hdu, hle, hsettled⟩ := h.entry d u mem_cons_self
  have heq : du = d := hle.antisymm (not_lt.mp fun hlt => hnew ⟨du, hdu, hlt⟩)
  subst heq
  exact ⟨hdu, fun hu => lt_irrefl _ (hsettled hu)⟩

lemma Inv.le_of_walk (hcost : ∀ a b, 0 ≤ net.cost a b)
    (h : Inv net s noEdge settled dist prev ((d, u) :: rest)) (hmin : ∀ e ∈ rest, d ≤ e.1)
    (hwalk : WalkTo net s v p c) (hv : v ∉ settled) : d ≤ c := by
  obtain ⟨w, dw, hw, hdw, hle⟩ := h.exists_reached hcost hwalk hv
  rcases List.mem_cons.mp (h.queued w dw hdw hw) with heq | hmem
  · cases heq
    exact hle
  · exact (hmin _ hmem).trans hle

lemma Inv.settle (hcost : ∀ a b, 0 ≤ net.cost a b)
    (h : Inv net s noEdge settled dist prev ((d, u) :: rest)) (hmin : ∀ e ∈ rest, d ≤ e.1)
    (hnew : ¬ ∃ du, dist u = some du ∧ du < d) :
    Inv net s (fun a b => a = u ∧ b ∈ net.next u) (insert u settled) dist prev rest := by
  obtain ⟨hdu, hu⟩ := h.fresh hnew
  refine ⟨h.source, ?_, ?_, h.nodup.of_cons, ?_, ?_, ?_, ?_⟩
  · intro v dv hdv
    obtain ⟨p, hwalk, htraced, hp, hnodup⟩ := h.path v dv hdv
    exact ⟨p, hwalk, htraced, fun w hw => mem_insert_of_mem (hp w hw), hnodup⟩
  · intro v dv hdv hv
    rcases List.mem_cons.mp (h.queued v dv hdv fun hs => hv (mem_insert_of_mem hs)) with
      heq | hmem
    · cases heq
      exact absurd (mem_insert_self u settled) hv
    · exact hmem
  · intro e v hmem
    obtain ⟨dv, hdv, hle, hsettled⟩ := h.entry e v (mem_cons_of_mem _ hmem)
    refine ⟨dv, hdv, hle, fun hv => ?_⟩
    rcases mem_insert.mp hv with rfl | hv
    · rw [hdu] at hdv
      cases hdv
      -- the queue has no entry twice
      refine lt_of_le_of_ne hle fun heq => ?_
      exact (nodup_cons.mp h.nodup).1 (heq ▸ hmem)
    · exact hsettled hv
  · intro v hv
    rcases mem_insert.mp hv with rfl | hv
    · exact ⟨d, hdu, fun e w hmem => hmin (e, w) hmem⟩
    · obtain ⟨dv, hdv, hle⟩ := h.below v hv
      exact ⟨dv, hdv, fun e w hmem => hle e w (mem_cons_of_mem _ hmem)⟩
  · intro v hv dv hdv p c hwalk
    rcases mem_insert.mp hv with rfl | hv
    · rw [hdu] at hdv
      cases hdv
      exact h.le_of_walk hcost hmin hwalk hu
    · exact h.optimal v hv dv hdv p c hwalk
  · intro a ha b hb
    rcases mem_insert.mp ha with rfl | ha
    · exact .inl ⟨rfl, hb⟩
    · exact .inr ((h.relaxed a ha b hb).resolve_left id)

omit [DecidableEq ν] [IsOrderedAddMonoid K] in
theorem Inv.keep {pending' : ν → ν → Prop} (h : Inv net s pending settled dist prev queue)
    (hdu : dist u = some d) (hkeep : ∃ dv, dist v = some dv ∧ dv ≤ d + net.cost u v)
    (hpending : ∀ a b, pending a b → pending' a b ∨ a = u ∧ b = v) :
    Inv net s pending' settled dist prev queue where
  __ := h
  relaxed := by
    intro a ha b hb
    rcases h.relaxed a ha b hb with hpend | hrelaxed
    · rcases hpending a b hpend with hpend | ⟨rfl, rfl⟩
      · exact .inl hpend
      · obtain ⟨dv, hdv, hle⟩ := hkeep
        exact .inr ⟨d, dv, hdu, hdv, hle⟩
    · exact .inr hrelaxed

lemma Inv.improve (hcost : ∀ a b, 0 ≤ net.cost a b) {pending' : ν → ν → Prop}
    {queue' : List (K × ν)} (h : Inv net s pending settled dist prev queue) (hu : u ∈ settled)
    (hdu : dist u = some d) (hedge : v ∈ net.next u)
    (hsmaller : ∀ dv, dist v = some dv → d + net.cost u v < dv)
    (hmin : ∀ a ∈ settled, ∀ da, dist a = some da → da ≤ d)
    (hqueue : queue'.Perm ((d + net.cost u v, v) :: queue))
    (hpending : ∀ a b, pending a b → pending' a b ∨ a = u ∧ b = v) :
    Inv net s pending' settled (update dist v (some (d + net.cost u v)))
      (update prev v (some u)) queue' := by
  have hle : d ≤ d + net.cost u v := le_add_of_nonneg_right (hcost u v)
  have hv : v ∉ settled := by
    intro hv
    obtain ⟨dv, hdv, -⟩ := h.below v hv
    exact absurd ((hmin v hv dv hdv).trans hle) (not_le.mpr (hsmaller dv hdv))
  have hother : ∀ a ∈ settled, update dist v (some (d + net.cost u v)) a = dist a :=
    fun a ha => update_of_ne (fun heq => hv (by rw [← heq]; exact ha)) _ _
  have hvs : v ≠ s := by
    rintro rfl
    obtain ⟨p, hwalk, -⟩ := h.path u d hdu
    have hnonneg : 0 ≤ d + net.cost u v := add_nonneg (hwalk.nonneg hcost) (hcost u v)
    exact absurd hnonneg (not_le.mpr (hsmaller 0 h.source))
  have hnotQueued : ∀ e, (e, v) ∈ queue → d + net.cost u v < e := by
    intro e hmem
    obtain ⟨dv, hdv, hdve, -⟩ := h.entry e v hmem
    exact (hsmaller dv hdv).trans_le hdve
  refine ⟨?_, ?_, ?_, ?_, ?_, ?_, ?_, ?_⟩
  · rw [update_of_ne hvs.symm]
    exact h.source
  · intro w dw hdw
    by_cases hw : w = v
    · subst hw
      rw [update_self] at hdw
      cases hdw
      obtain ⟨p, hwalk, htraced, hp, hnodup⟩ := h.path u d hdu
      have hsettled : ∀ a ∈ u :: p, a ∈ settled := by
        intro a ha
        rcases List.mem_cons.mp ha with rfl | ha
        · exact hu
        · exact hp a ha
      have hnot : w ∉ u :: p := fun hmem => hv (hsettled w hmem)
      refine ⟨u :: p, hwalk.step hedge, ⟨hvs, update_self w _ _, ?_⟩, hsettled,
        nodup_cons.mpr ⟨hnot, hnodup⟩⟩
      refine htraced.congr fun a ha => update_of_ne ?_ _ _
      exact fun heq => hnot (by rw [← heq]; exact ha)
    · rw [update_of_ne hw] at hdw
      obtain ⟨p, hwalk, htraced, hp, hnodup⟩ := h.path w dw hdw
      refine ⟨p, hwalk, htraced.congr fun a ha => update_of_ne ?_ _ _, hp, hnodup⟩
      rcases List.mem_cons.mp ha with rfl | ha
      · exact hw
      · exact fun heq => hv (by rw [← heq]; exact hp a ha)
  · intro w dw hdw hwsettled
    rw [hqueue.mem_iff]
    by_cases hw : w = v
    · subst hw
      rw [update_self] at hdw
      cases hdw
      exact mem_cons_self
    · rw [update_of_ne hw] at hdw
      exact mem_cons_of_mem _ (h.queued w dw hdw hwsettled)
  · rw [hqueue.nodup_iff, nodup_cons]
    exact ⟨fun hmem => lt_irrefl _ (hnotQueued _ hmem), h.nodup⟩
  · intro e w hmem
    rw [hqueue.mem_iff] at hmem
    by_cases hw : w = v
    · subst hw
      refine ⟨_, update_self w _ _, ?_, fun hs => absurd hs hv⟩
      rcases List.mem_cons.mp hmem with heq | hmem
      · cases heq
        exact le_rfl
      · exact (hnotQueued e hmem).le
    · rw [update_of_ne hw]
      rcases List.mem_cons.mp hmem with heq | hmem
      · cases heq
        exact absurd rfl hw
      · exact h.entry e w hmem
  · intro a ha
    obtain ⟨da, hda, hbelow⟩ := h.below a ha
    refine ⟨da, (hother a ha).trans hda, fun e w hmem => ?_⟩
    rcases List.mem_cons.mp (hqueue.mem_iff.mp hmem) with heq | hmem
    · cases heq
      exact (hmin a ha da hda).trans hle
    · exact hbelow e w hmem
  · intro a ha da hda
    exact h.optimal a ha da ((hother a ha).symm.trans hda)
  · intro a ha b hb
    rcases h.relaxed a ha b hb with hpend | ⟨da, db, hda, hdb, hrelaxed⟩
    · rcases hpending a b hpend with hpend | ⟨rfl, rfl⟩
      · exact .inl hpend
      · exact .inr ⟨d, _, (hother a ha).trans hdu, update_self b _ _, le_rfl⟩
    · right
      by_cases hbv : b = v
      · subst hbv
        exact ⟨da, _, (hother a ha).trans hda, update_self b _ _,
          (hsmaller db hdb).le.trans hrelaxed⟩
      · exact ⟨da, db, (hother a ha).trans hda, (update_of_ne hbv _ _).trans hdb, hrelaxed⟩

/-- The node that was settled last, with the edges that are still to be relaxed. -/
structure Expanding (net : Network ν K) (s u : ν) (d : K) (todo : List ν) (settled : Finset ν)
    (dist : ν → Option K) (prev : ν → Option ν) (queue : List (K × ν)) : Prop where
  inv : Inv net s (fun a b => a = u ∧ b ∈ todo) settled dist prev queue
  mem : u ∈ settled
  dist_eq : dist u = some d
  le : ∀ a ∈ settled, ∀ da, dist a = some da → da ≤ d
  edges : ∀ b ∈ todo, b ∈ net.next u

lemma Inv.expand (hcost : ∀ a b, 0 ≤ net.cost a b)
    (h : Inv net s noEdge settled dist prev ((d, u) :: rest)) (hmin : ∀ e ∈ rest, d ≤ e.1)
    (hnew : ¬ ∃ du, dist u = some du ∧ du < d) :
    Expanding net s u d (net.next u) (insert u settled) dist prev rest where
  inv := h.settle hcost hmin hnew
  mem := mem_insert_self u settled
  dist_eq := (h.fresh hnew).1
  le := by
    intro a ha da hda
    rcases mem_insert.mp ha with rfl | ha
    · rw [(h.fresh hnew).1] at hda
      cases hda
      exact le_rfl
    · obtain ⟨da', hda', hbelow⟩ := h.below a ha
      rw [hda'] at hda
      cases hda
      exact hbelow d u mem_cons_self
  edges := fun _ hb => hb

omit [DecidableEq ν] in
theorem pending_cons (a b : ν) (h : a = u ∧ b ∈ v :: todo) :
    (a = u ∧ b ∈ todo) ∨ a = u ∧ b = v := by
  rcases List.mem_cons.mp h.2 with rfl | hb
  · exact .inr ⟨h.1, rfl⟩
  · exact .inl ⟨h.1, hb⟩

omit [DecidableEq ν] [IsOrderedAddMonoid K] in
theorem Expanding.keep (h : Expanding net s u d (v :: todo) settled dist prev queue)
    (hkeep : ∃ dv, dist v = some dv ∧ dv ≤ d + net.cost u v) :
    Expanding net s u d todo settled dist prev queue where
  __ := h
  inv := h.inv.keep h.dist_eq hkeep pending_cons
  edges := fun b hb => h.edges b (mem_cons_of_mem v hb)

lemma Expanding.improve (hcost : ∀ a b, 0 ≤ net.cost a b) {queue' : List (K × ν)}
    (h : Expanding net s u d (v :: todo) settled dist prev queue)
    (hsmaller : ∀ dv, dist v = some dv → d + net.cost u v < dv)
    (hqueue : queue'.Perm ((d + net.cost u v, v) :: queue)) :
    Expanding net s u d todo settled (update dist v (some (d + net.cost u v)))
      (update prev v (some u)) queue' := by
  have hinv : Inv net s (fun a b => a = u ∧ b ∈ todo) settled
      (update dist v (some (d + net.cost u v))) (update prev v (some u)) queue' :=
    h.inv.improve hcost h.mem h.dist_eq (h.edges v mem_cons_self) hsmaller h.le hqueue
      pending_cons
  have hother : ∀ a ∈ settled, a ≠ v := by
    rintro a ha rfl
    obtain ⟨da, hda, -⟩ := h.inv.below a ha
    have hle : d ≤ d + net.cost u a := le_add_of_nonneg_right (hcost u a)
    exact absurd ((h.le a ha da hda).trans hle) (not_le.mpr (hsmaller da hda))
  refine ⟨hinv, h.mem, ?_, fun a ha da hda => ?_, fun b hb => h.edges b (mem_cons_of_mem v hb)⟩
  · rw [update_of_ne (hother u h.mem)]
    exact h.dist_eq
  · rw [update_of_ne (hother a ha)] at hda
    exact h.le a ha da hda

omit [DecidableEq ν] [IsOrderedAddMonoid K] in
theorem Expanding.finish (h : Expanding net s u d [] settled dist prev queue) :
    Inv net s noEdge settled dist prev queue where
  source := h.inv.source
  path := h.inv.path
  queued := h.inv.queued
  nodup := h.inv.nodup
  entry := h.inv.entry
  below := h.inv.below
  optimal := h.inv.optimal
  relaxed := fun a ha b hb =>
    (h.inv.relaxed a ha b hb).imp (fun hpend => absurd hpend.2 not_mem_nil) id

lemma Inv.exists_le_of_empty (hcost : ∀ a b, 0 ≤ net.cost a b)
    (h : Inv net s noEdge settled dist prev []) (hwalk : WalkTo net s v p c) :
    ∃ dv, dist v = some dv ∧ dv ≤ c := by
  by_cases hv : v ∈ settled
  · obtain ⟨dv, hdv, -⟩ := h.below v hv
    exact ⟨dv, hdv, h.optimal v hv dv hdv p c hwalk⟩
  · obtain ⟨w, dw, hw, hdw, -⟩ := h.exists_reached hcost hwalk hv
    exact absurd (h.queued w dw hdw hw) not_mem_nil

end ShortestPaths
