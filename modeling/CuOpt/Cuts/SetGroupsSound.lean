import CuOpt.Cuts.CutPool

/-! What the groups of entries hold after they are built over those of an earlier range: the later
entries of a set are those of the range that had the set when the groups were built. -/

namespace CuOpt.Cuts

open List

lemma groupOf_eq_some {limit : ℕ} {s : SetId} {k : ℕ} :
    groupOf limit s = some k ↔ s = k ∧ 0 < k ∧ k < limit := by
  induction s using WithTop.recTopCoe with
  | top => simp [groupOf]
  | coe s =>
    change (if 0 < s ∧ s < limit then some s else none) = some k ↔ _
    split_ifs with hs
    · constructor
      · intro h
        cases h
        exact ⟨rfl, hs⟩
      · rintro ⟨h, -⟩
        exact congrArg some (WithTop.coe_injective h)
    · constructor
      · intro h
        cases h
      · rintro ⟨h, hk⟩
        have heq : s = k := WithTop.coe_injective h
        exact absurd (heq ▸ hk) hs

lemma getD_set {α : Type} (l : List α) (i j : ℕ) (v d : α) :
    (l.set i v).getD j d = if i = j ∧ j < l.length then v else l.getD j d := by
  rw [getD_eq_getElem?_getD, getD_eq_getElem?_getD, getElem?_set]
  split_ifs with hij hlt hboth hboth
  · rfl
  · exact absurd ⟨hij, hij ▸ hlt⟩ hboth
  · exact absurd (hij ▸ hboth.2) hlt
  · rw [← hij, getElem?_eq_none (not_lt.mp hlt)]
  · exact absurd ‹_ ∧ _›.1 hij
  · rfl

def SetGroups.Valid (g : SetGroups) : Prop :=
  ∀ s, g.bucketBySet.getD s none ≠ none → s ∈ g.activeSetIds

lemma SetGroups.empty_valid : SetGroups.empty.Valid := by
  intro s hs
  exact absurd rfl hs

section Count

variable {limit : ℕ} {setOf : ℕ → SetId}

def members (limit : ℕ) (setOf : ℕ → SetId) (l : List ℕ) (s : ℕ) : List ℕ :=
  l.filter fun e => decide (groupOf limit (setOf e) = some s)

structure Counted (limit : ℕ) (setOf : ℕ → SetId) (l : List ℕ) (st : CountState) : Prop where
  bucket : ∀ s, st.bucketBySet.getD s none =
    if s ∈ st.activeSetIds then some (st.activeSetIds.idxOf s) else none
  length : limit ≤ st.bucketBySet.length
  nodup : st.activeSetIds.Nodup
  active : ∀ s, s ∈ st.activeSetIds ↔ members limit setOf l s ≠ []
  counts : st.setCounts = st.activeSetIds.map fun s => (members limit setOf l s).length

lemma members_append (l : List ℕ) (e s : ℕ) : members limit setOf (l ++ [e]) s =
    members limit setOf l s ++ if groupOf limit (setOf e) = some s then [e] else [] := by
  rw [members, members, filter_append, filter_cons, filter_nil]
  congr 1
  split_ifs with hdecide hgroup hgroup
  · rfl
  · exact absurd (of_decide_eq_true hdecide) hgroup
  · exact absurd (decide_eq_true hgroup) hdecide
  · rfl

lemma Counted.countEntry {l : List ℕ} {st : CountState} (h : Counted limit setOf l st) (e : ℕ) :
    Counted limit setOf (l ++ [e]) (countEntry limit setOf st e) := by
  rw [CuOpt.Cuts.countEntry]
  cases hgroup : groupOf limit (setOf e) with
  | none =>
    have hsame : ∀ s, members limit setOf (l ++ [e]) s = members limit setOf l s := by
      intro s
      rw [members_append, hgroup, if_neg (by simp), append_nil]
    refine ⟨h.bucket, h.length, h.nodup, fun s => ?_, ?_⟩
    · rw [hsame s]
      exact h.active s
    · simp only [hsame]
      exact h.counts
  | some k =>
    have hk := (groupOf_eq_some.mp hgroup).2.2
    have hmembers : ∀ s, members limit setOf (l ++ [e]) s =
        members limit setOf l s ++ if k = s then [e] else [] := by
      intro s
      rw [members_append, hgroup]
      simp only [Option.some.injEq]
    dsimp only
    rw [h.bucket k]
    by_cases hactive : k ∈ st.activeSetIds
    · rw [if_pos hactive]
      refine ⟨h.bucket, h.length, h.nodup, fun s => ?_, ?_⟩
      · rw [hmembers s, Ne, append_eq_nil_iff]
        split_ifs with hs
        · subst hs
          simp [hactive]
        · simpa using h.active s
      · dsimp only
        rw [h.counts]
        apply ext_getElem (by simp)
        intro i hi _
        have hi' : i < st.activeSetIds.length := by simpa using hi
        rw [getElem_modify, getElem_map, getElem_map, hmembers]
        have hiff : st.activeSetIds.idxOf k = i ↔ k = st.activeSetIds[i] := by
          constructor
          · rintro rfl
            exact (getElem_idxOf hi').symm
          · rintro heq
            rw [heq, h.nodup.idxOf_getElem]
        by_cases heq : k = st.activeSetIds[i]
        · rw [if_pos (hiff.mpr heq), if_pos heq, length_append, length_singleton]
        · rw [if_neg fun h => heq (hiff.mp h), if_neg heq, append_nil]
    · have hnil : members limit setOf l k = [] := by
        by_contra hne
        exact hactive ((h.active k).mpr hne)
      rw [if_neg hactive]
      refine ⟨fun s => ?_, ?_, ?_, fun s => ?_, ?_⟩
      · dsimp only
        rw [getD_set, h.bucket s]
        by_cases hs : k = s
        · subst hs
          rw [if_pos ⟨rfl, hk.trans_le h.length⟩, if_pos (by simp), idxOf_append_of_notMem hactive]
          simp
        · rw [if_neg fun hand => hs hand.1]
          by_cases hmem : s ∈ st.activeSetIds
          · rw [if_pos hmem, if_pos (mem_append_left _ hmem), idxOf_append_of_mem hmem]
          · rw [if_neg hmem, if_neg]
            rw [mem_append, mem_singleton]
            rintro (hmem' | rfl)
            · exact hmem hmem'
            · exact hs rfl
      · rw [length_set]
        exact h.length
      · exact List.Nodup.append h.nodup (nodup_singleton k)
          fun s hs hsingle => hactive (mem_singleton.mp hsingle ▸ hs)
      · rw [mem_append, mem_singleton, h.active s, hmembers s]
        by_cases hs : k = s
        · subst hs
          simp
        · simp [hs, Ne.symm hs]
      · dsimp only
        rw [map_append, map_singleton, hmembers k, hnil, if_pos rfl, h.counts]
        congr 1
        apply map_congr_left
        intro s hs
        have hne : k ≠ s := fun heq => hactive (heq ▸ hs)
        rw [hmembers s, if_neg hne, append_nil]

lemma Counted.foldl {l : List ℕ} {st : CountState} (h : Counted limit setOf l st) (m : List ℕ) :
    Counted limit setOf (l ++ m) (m.foldl (CuOpt.Cuts.countEntry limit setOf) st) := by
  induction m generalizing l st with
  | nil =>
    rw [append_nil]
    exact h
  | cons e m ih =>
    have hrest := ih (h.countEntry e)
    rw [append_assoc, singleton_append] at hrest
    exact hrest

end Count

section Fill

variable {first limit : ℕ} {setOf : ℕ → SetId}

def startOf (counts : List ℕ) (k : ℕ) : ℕ := (counts.take k).sum

lemma getD_scanl (counts : List ℕ) (a : ℕ) {k : ℕ} (hk : k ≤ counts.length) :
    (counts.scanl (· + ·) a).getD k 0 = a + startOf counts k := by
  induction counts generalizing a k with
  | nil =>
    obtain rfl : k = 0 := by simpa using hk
    simp [startOf]
  | cons c counts ih =>
    cases k with
    | zero => simp [startOf]
    | succ k =>
      rw [scanl_cons, getD_cons_succ, ih _ (by simpa using hk)]
      simp only [startOf, take_succ_cons, sum_cons]
      omega

lemma startOf_succ (counts : List ℕ) (k : ℕ) :
    startOf counts (k + 1) = startOf counts k + counts.getD k 0 := by
  rw [startOf, startOf, take_add_one, sum_append, getD_eq_getElem?_getD]
  cases counts[k]? with
  | none => rfl
  | some c => simp

lemma startOf_mono (counts : List ℕ) {k k' : ℕ} (h : k ≤ k') :
    startOf counts k ≤ startOf counts k' := by
  obtain ⟨d, rfl⟩ := Nat.exists_eq_add_of_le h
  rw [startOf, startOf, take_add, sum_append]
  exact Nat.le_add_right _ _

lemma startOf_le_sum (counts : List ℕ) (k : ℕ) : startOf counts k ≤ counts.sum := by
  have hsplit := congrArg sum (take_append_drop k counts)
  rw [sum_append] at hsplit
  rw [startOf]
  omega

lemma place_injective {counts : List ℕ} {k k' i i' : ℕ} (hi : i < counts.getD k 0)
    (hi' : i' < counts.getD k' 0) (h : startOf counts k + i = startOf counts k' + i') : k = k' := by
  rcases lt_trichotomy k k' with hlt | heq | hlt
  · have hmono := startOf_mono counts (Nat.succ_le_of_lt hlt)
    rw [startOf_succ] at hmono
    omega
  · exact heq
  · have hmono := startOf_mono counts (Nat.succ_le_of_lt hlt)
    rw [startOf_succ] at hmono
    omega

structure Filled (first limit : ℕ) (setOf : ℕ → SetId) (active counts : List ℕ) (t : ℕ)
    (st : FillState) : Prop where
  next : ∀ k (hk : k < active.length), st.nextEntryInSet.getD k 0 =
    startOf counts k + (members limit setOf (range' first t) active[k]).length
  next_length : active.length < st.nextEntryInSet.length
  entries : ∀ k (hk : k < active.length), ∀ i,
    i < (members limit setOf (range' first t) active[k]).length →
      st.entries[startOf counts k + i]? = (members limit setOf (range' first t) active[k])[i]?
  position : ∀ k (hk : k < active.length), ∀ u < t,
    groupOf limit (setOf (first + u)) = some active[k] → st.positionByEntry.getD u 0 =
      startOf counts k + (members limit setOf (range' first u) active[k]).length

lemma members_range_succ (t s : ℕ) : members limit setOf (range' first (t + 1)) s =
    members limit setOf (range' first t) s ++
      if groupOf limit (setOf (first + t)) = some s then [first + t] else [] := by
  rw [range'_1_concat, members_append]

lemma length_members_mono {t t' : ℕ} (h : t ≤ t') (s : ℕ) :
    (members limit setOf (range' first t) s).length ≤
      (members limit setOf (range' first t') s).length := by
  obtain ⟨d, rfl⟩ := Nat.exists_eq_add_of_le h
  rw [← range'_append_1, members, members, filter_append, length_append]
  exact Nat.le_add_right _ _

variable {active counts : List ℕ} {len t : ℕ} {st : FillState} {buckets : List (Option ℕ)}

/-- The entry of a grouped set goes to the next place of its bucket, which no other entry has. -/
lemma Filled.fillEntry (h : Filled first limit setOf active counts t st) (ht : t < len)
    (hnodup : active.Nodup) (hbucket : ∀ s ∈ active, buckets.getD s none = some (active.idxOf s))
    (hactive : ∀ s, groupOf limit (setOf (first + t)) = some s → s ∈ active)
    (hcounts : counts = active.map fun s =>
      (members limit setOf (range' first len) s).length)
    (hentries : counts.sum ≤ st.entries.length) (hposition : len ≤ st.positionByEntry.length) :
    Filled first limit setOf active counts (t + 1)
        (fillEntry first limit setOf buckets st (first + t)) ∧
      (fillEntry first limit setOf buckets st (first + t)).entries.length = st.entries.length ∧
      (fillEntry first limit setOf buckets st (first + t)).positionByEntry.length =
        st.positionByEntry.length := by
  have hlength : counts.length = active.length := by rw [hcounts, length_map]
  rw [CuOpt.Cuts.fillEntry]
  cases hgroup : groupOf limit (setOf (first + t)) with
  | none =>
    have hsame : ∀ s, members limit setOf (range' first (t + 1)) s =
        members limit setOf (range' first t) s := by
      intro s
      rw [members_range_succ, hgroup, if_neg (by simp), append_nil]
    refine ⟨⟨fun k hk => ?_, h.next_length, fun k hk i hi => ?_, fun k hk u hu hset => ?_⟩, rfl, rfl⟩
    · rw [hsame]
      exact h.next k hk
    · rw [hsame] at hi ⊢
      exact h.entries k hk i hi
    · rcases Nat.lt_succ_iff_lt_or_eq.mp hu with hu | rfl
      · exact h.position k hk u hu hset
      · rw [hgroup] at hset
        cases hset
  | some s =>
    have hs := hactive s hgroup
    generalize hb : active.idxOf s = b
    have hblt : b < active.length := hb ▸ idxOf_lt_length_of_mem hs
    have hget : active[b] = s := by
      subst hb
      exact getElem_idxOf hblt
    have hsucc : ∀ k (hk : k < active.length), members limit setOf (range' first (t + 1)) active[k] =
        members limit setOf (range' first t) active[k] ++ if k = b then [first + t] else [] := by
      intro k hk
      have hiff : s = active[k] ↔ k = b := by
        rw [← hget, hnodup.getElem_inj_iff, eq_comm]
      rw [members_range_succ, hgroup]
      simp only [Option.some.injEq, hiff]
    have hcount : ∀ k (hk : k < active.length),
        (members limit setOf (range' first (t + 1)) active[k]).length ≤ counts.getD k 0 := by
      intro k hk
      have hget' : counts.getD k 0 =
          (members limit setOf (range' first len) active[k]).length := by
        rw [getD_eq_getElem _ _ (hlength ▸ hk)]
        subst hcounts
        exact getElem_map _
      rw [hget']
      exact length_members_mono ht _
    dsimp only
    rw [hbucket s hs, hb, Option.getD_some, h.next b hblt]
    have hbefore := hcount b hblt
    rw [hsucc b hblt, if_pos rfl, length_append, length_singleton] at hbefore
    have hbound : startOf counts b + (members limit setOf (range' first t) active[b]).length <
        st.entries.length := by
      have hle := (startOf_le_sum counts (b + 1)).trans hentries
      rw [startOf_succ] at hle
      omega
    refine ⟨⟨fun k hk => ?_, ?_, fun k hk i hi => ?_, fun k hk u hu hset => ?_⟩,
      length_set, length_set⟩
    · have hnext := h.next k hk
      have hklt : k < st.nextEntryInSet.length := hk.trans h.next_length
      rw [getD_eq_getElem _ _ hklt] at hnext
      rw [getD_eq_getElem _ _ (by rwa [length_modify]), getElem_modify, hsucc k hk]
      by_cases hkb : k = b
      · rw [if_pos hkb.symm, if_pos hkb, length_append, length_singleton, hnext, add_assoc]
      · rw [if_neg (Ne.symm hkb), if_neg hkb, append_nil, hnext]
    · rw [length_modify]
      exact h.next_length
    · have hkcount := hcount k hk
      rw [getElem?_set]
      by_cases hkb : k = b
      · subst hkb
        rw [hsucc k hk, if_pos rfl] at hi ⊢
        rw [length_append, length_singleton] at hi
        rcases Nat.lt_succ_iff_lt_or_eq.mp hi with hi | rfl
        · rw [if_neg (by omega), h.entries k hk i hi, getElem?_append_left hi]
        · rw [if_pos rfl, if_pos hbound, getElem?_concat_length]
      · rw [hsucc k hk, if_neg hkb, append_nil] at hi hkcount ⊢
        have hne : startOf counts b + (members limit setOf (range' first t) active[b]).length ≠
            startOf counts k + i := by
          intro heq
          exact hkb (place_injective (by omega) (by omega) heq).symm
        rw [if_neg hne, h.entries k hk i hi]
    · rw [Nat.add_sub_cancel_left, getD_set]
      rcases Nat.lt_succ_iff_lt_or_eq.mp hu with hu | rfl
      · rw [if_neg (by omega)]
        exact h.position k hk u hu hset
      · have hkb : k = b := by
          have heq : s = active[k] := Option.some.inj (hgroup.symm.trans hset)
          rw [← hget, hnodup.getElem_inj_iff] at heq
          exact heq.symm
        subst hkb
        rw [if_pos ⟨rfl, by omega⟩]

lemma filled_start (hlength : counts.length = active.length) (entries position : List ℕ) :
    Filled first limit setOf active counts 0 ⟨counts.scanl (· + ·) 0, entries, position⟩ where
  next k hk := by
    dsimp only
    rw [getD_scanl counts 0 (hlength ▸ hk.le), zero_add]
    rfl
  next_length := by
    rw [length_scanl, hlength]
    exact Nat.lt_succ_self _
  entries k hk i hi := absurd hi (Nat.not_lt_zero i)
  position k hk v hv := absurd hv (Nat.not_lt_zero v)

lemma getLastD_scanl (counts : List ℕ) : (counts.scanl (· + ·) 0).getLastD 0 = counts.sum := by
  have hlast := getD_scanl counts 0 (le_refl counts.length)
  rw [startOf, take_length, zero_add] at hlast
  rw [← hlast, getLastD_eq_getLast?, getLast?_eq_getElem?, length_scanl,
    Nat.add_sub_cancel, getD_eq_getElem?_getD]

lemma Filled.run (h : Filled first limit setOf active counts 0 st) (hnodup : active.Nodup)
    (hbucket : ∀ s ∈ active, buckets.getD s none = some (active.idxOf s))
    (hactive : ∀ t < len, ∀ s, groupOf limit (setOf (first + t)) = some s → s ∈ active)
    (hcounts : counts = active.map fun s =>
      (members limit setOf (range' first len) s).length)
    (hentries : counts.sum ≤ st.entries.length) (hposition : len ≤ st.positionByEntry.length) :
    Filled first limit setOf active counts len
      ((range' first len).foldl (CuOpt.Cuts.fillEntry first limit setOf buckets) st) := by
  have hrun : ∀ t ≤ len, ∀ st', st' =
      (range' first t).foldl (CuOpt.Cuts.fillEntry first limit setOf buckets) st →
      Filled first limit setOf active counts t st' ∧ st'.entries.length = st.entries.length ∧
        st'.positionByEntry.length = st.positionByEntry.length := by
    intro t
    induction t with
    | zero =>
      rintro - st' rfl
      exact ⟨h, rfl, rfl⟩
    | succ t ih =>
      rintro ht st' rfl
      obtain ⟨hfilled, hlen, hpos⟩ := ih (by omega) _ rfl
      rw [range'_1_concat, foldl_concat]
      obtain ⟨hnext, hlen', hpos'⟩ := hfilled.fillEntry ht hnodup hbucket (hactive t ht) hcounts
        (hlen.symm ▸ hentries) (hpos.symm ▸ hposition)
      exact ⟨hnext, hlen'.trans hlen, hpos'.trans hpos⟩
  exact (hrun len le_rfl _ rfl).1

end Fill

lemma length_resize (l : List ℕ) (n : ℕ) : (resize l n).length = n := by
  rw [resize, length_append, length_take, length_replicate]
  omega

namespace SetGroups

variable {g : SetGroups} {first last limit : ℕ} {setOf : ℕ → SetId}

lemma getD_foldl_set (l : List ℕ) (b : List (Option ℕ)) (s : ℕ) :
    (l.foldl (fun (b : List (Option ℕ)) s => b.set s none) b).getD s none =
      if s ∈ l then none else b.getD s none := by
  induction l generalizing b with
  | nil => rfl
  | cons k l ih =>
    rw [foldl_cons, ih, getD_set]
    by_cases hmem : s ∈ l
    · rw [if_pos hmem, if_pos (mem_cons_of_mem k hmem)]
    · rw [if_neg hmem]
      rcases eq_or_ne k s with rfl | hne
      · rw [if_pos (mem_cons_self)]
        split_ifs with hlt
        · rfl
        · rw [getD_eq_default _ _ (not_lt.mp fun h => hlt ⟨rfl, h⟩)]
      · rw [if_neg fun h => hne h.1, if_neg]
        intro hcons
        exact (mem_cons.mp hcons).elim (fun h => hne h.symm) hmem

lemma Valid.cleared (hg : g.Valid) (s : ℕ) : (g.clearBuckets limit).getD s none = none := by
  have hnone : (g.activeSetIds.foldl (fun (b : List (Option ℕ)) s => b.set s none)
      g.bucketBySet).getD s none = none := by
    rw [getD_foldl_set]
    split_ifs with hmem
    · rfl
    · by_contra hne
      exact hmem (hg s hne)
  rw [clearBuckets]
  generalize g.activeSetIds.foldl (fun (b : List (Option ℕ)) s => b.set s none) g.bucketBySet =
    cleared at hnone ⊢
  rcases lt_or_ge s cleared.length with hlt | hge
  · rw [getD_append _ _ _ _ hlt, hnone]
  · rw [getD_append_right _ _ _ _ hge, getD_eq_getElem?_getD, getElem?_replicate]
    split_ifs
    · rfl
    · rfl

lemma Valid.counted (hg : g.Valid) (l : List ℕ) :
    Counted limit setOf l (l.foldl (countEntry limit setOf) ⟨g.clearBuckets limit, [], []⟩) := by
  have hstart : Counted limit setOf [] ⟨g.clearBuckets limit, [], []⟩ := by
    refine ⟨fun s => ?_, ?_, nodup_nil, fun s => ?_, rfl⟩
    · rw [if_neg (by simp)]
      exact hg.cleared s
    · simp only [clearBuckets]
      rw [length_append, length_replicate]
      omega
    · simp [members]
  simpa using hstart.foldl l

lemma Valid.build (hg : g.Valid) : (g.build first last limit setOf).Valid := by
  intro s hs
  by_contra hnot
  have hcounted : Counted limit setOf _ _ := hg.counted (range' first (last - first))
  refine hs ((hcounted.bucket s).trans (if_neg hnot))

/-- The entries after an entry of a grouped set are the later ones of the range that had the set. -/
lemma Valid.entriesAfter_build (hg : g.Valid) {entry s : ℕ} (hfirst : first ≤ entry)
    (hlast : entry < last) (hentry : setOf entry = s) (hs : 0 < s) (hlimit : s < limit) :
    (g.build first last limit setOf).entriesAfter s entry =
      (range' (entry + 1) (last - entry - 1)).filter fun q => decide (setOf q = s) := by
  obtain ⟨u, rfl⟩ := Nat.exists_eq_add_of_le hfirst
  have hcounted : Counted limit setOf _ _ := hg.counted (range' first (last - first))
  rw [SetGroups.build, entriesAfter]
  dsimp only
  generalize (range' first (last - first)).foldl (countEntry limit setOf) _ = counted at hcounted
  have hgroup : groupOf limit (setOf (first + u)) = some s := groupOf_eq_some.mpr ⟨hentry, hs, hlimit⟩
  -- the entry is a member of its set, and the later members follow it
  have hsplit : range' first (last - first) =
      range' first u ++ (first + u) :: range' (first + u + 1) (last - (first + u) - 1) := by
    rw [← range'_succ, range'_append_1]
    congr 1
    omega
  have hmembers : members limit setOf (range' first (last - first)) s =
      members limit setOf (range' first u) s ++ (first + u) ::
        members limit setOf (range' (first + u + 1) (last - (first + u) - 1)) s := by
    have hpos : decide (groupOf limit (setOf (first + u)) = some s) = true := decide_eq_true hgroup
    rw [hsplit, members, filter_append, filter_cons_of_pos (by exact hpos)]
    rfl
  have hlater : members limit setOf (range' (first + u + 1) (last - (first + u) - 1)) s =
      (range' (first + u + 1) (last - (first + u) - 1)).filter
        fun q => decide (setOf q = s) := by
    apply filter_congr
    intro q _
    have hiff : groupOf limit (setOf q) = some s ↔ setOf q = s := by
      rw [groupOf_eq_some]
      exact ⟨fun h => h.1, fun h => ⟨h, hs, hlimit⟩⟩
    simp only [hiff]
  have hactive : s ∈ counted.activeSetIds := by
    rw [hcounted.active s, hmembers]
    simp
  generalize hb : counted.activeSetIds.idxOf s = b
  have hblt : b < counted.activeSetIds.length := hb ▸ idxOf_lt_length_of_mem hactive
  have hget : counted.activeSetIds[b] = s := by
    subst hb
    exact getElem_idxOf hblt
  have hcount : counted.setCounts.getD b 0 =
      (members limit setOf (range' first (last - first)) s).length := by
    rw [hcounted.counts, getD_eq_getElem _ _ (by simpa using hblt), getElem_map, hget]
  have hcountLength : counted.setCounts.length = counted.activeSetIds.length := by
    rw [hcounted.counts, length_map]
  have hfilled : Filled first limit setOf counted.activeSetIds counted.setCounts (last - first)
      ((range' first (last - first)).foldl (fillEntry first limit setOf counted.bucketBySet)
        ⟨counted.setCounts.scanl (· + ·) 0,
          resize g.entries ((counted.setCounts.scanl (· + ·) 0).getLastD 0),
          resize g.positionByEntry (last - first)⟩) := by
    refine (filled_start hcountLength _ _).run hcounted.nodup
      (fun k hk => (hcounted.bucket k).trans (if_pos hk)) (fun t ht k hk => ?_) hcounted.counts ?_ ?_
    · rw [hcounted.active k]
      refine ne_nil_of_mem (mem_filter.mpr ⟨?_, decide_eq_true hk⟩)
      exact mem_range'_1.mpr ⟨Nat.le_add_right _ _, Nat.add_lt_add_left ht _⟩
    · rw [length_resize, getLastD_scanl]
    · rw [length_resize]
  generalize foldl (fillEntry first limit setOf counted.bucketBySet) _ _ = filled at hfilled
  have hbucket : counted.bucketBySet.getD s none = some b := by
    rw [hcounted.bucket s, if_pos hactive, hb]
  rw [groupOf_eq_some.mpr ⟨rfl, hs, hlimit.trans_le hcounted.length⟩]
  dsimp only
  rw [hbucket]
  dsimp only
  rw [Nat.add_sub_cancel_left, hfilled.position b hblt u (by omega) (hget ▸ hgroup), hget,
    getD_scanl _ _ (by omega), zero_add, startOf_succ, hcount]
  -- the bucket holds the members of the set
  have hsegment : (filled.entries.drop (startOf counted.setCounts b)).take
      (members limit setOf (range' first (last - first)) s).length =
      members limit setOf (range' first (last - first)) s := by
    apply ext_getElem?
    intro i
    rw [getElem?_take]
    split_ifs with hi
    · rw [getElem?_drop, hfilled.entries b hblt i (hget ▸ hi), hget]
    · rw [getElem?_eq_none (not_lt.mp hi)]
  have hafter := congrArg (drop
    ((members limit setOf (range' first u) s).length + 1)) hsegment
  rw [drop_take, drop_drop] at hafter
  rw [hmembers, ← singleton_append, ← append_assoc, drop_left' (by simp)] at hafter
  rw [← hlater, ← hafter]
  congr 1
  · simp only [length_append, length_cons, length_nil, hmembers]
    omega

end SetGroups

end CuOpt.Cuts
