import CuOpt.Library.BufferWrites

/-! Sorting by counting: the cells of a key are counted, the counts are summed up to the place where
the key starts, and the elements are written there in their order. -/

namespace CountingScatter

open BufferWrites List Finset

variable {ι α : Type*}

def increment (counts : List ℕ) (k : ℕ) : List ℕ := counts.set k (counts.getD k 0 + 1)

@[simp] lemma length_increment (counts : List ℕ) (k : ℕ) :
    (increment counts k).length = counts.length := length_set

variable {counts : List ℕ}

lemma getD_increment {k : ℕ} (hk : k < counts.length) (j : ℕ) :
    (increment counts k).getD j 0 = counts.getD j 0 + if k = j then 1 else 0 := by
  rw [increment, getD_set]
  rcases eq_or_ne k j with rfl | hne
  · rw [if_pos ⟨rfl, hk⟩, if_pos rfl]
  · rw [if_neg fun h => hne h.1, if_neg hne, add_zero]

def bucket (key : ι → ℕ) (value : ι → α) (items : List ι) (k : ℕ) : List α :=
  (items.filter fun a => key a = k).map value

section Bucket

variable {key : ι → ℕ} {value : ι → α}

lemma bucket_snoc_self (items : List ι) (a : ι) :
    bucket key value (items ++ [a]) (key a) = bucket key value items (key a) ++ [value a] := by
  rw [bucket, filter_append, List.filter_singleton, decide_eq_true rfl, map_append]
  rfl

lemma bucket_snoc_of_ne (items : List ι) {a : ι} {k : ℕ} (h : key a ≠ k) :
    bucket key value (items ++ [a]) k = bucket key value items k := by
  rw [bucket, filter_append, List.filter_singleton, decide_eq_false h]
  exact congrArg (List.map value) (append_nil _)

lemma length_bucket (value : ι → α) (items : List ι) (k : ℕ) :
    (bucket key value items k).length = (bucket key id items k).length := by
  rw [bucket, bucket, length_map, length_map]

lemma length_bucket_le (key : ι → ℕ) (value : ι → α) (done rest : List ι) (k : ℕ) :
    (bucket key value done k).length ≤ (bucket key value (done ++ rest) k).length := by
  rw [bucket, bucket, filter_append, map_append, length_append]
  exact Nat.le_add_right _ _

lemma length_bucket_lt (key : ι → ℕ) (value : ι → α) (done rest : List ι) (a : ι) :
    (bucket key value done (key a)).length <
      (bucket key value (done ++ a :: rest) (key a)).length := by
  have hle := length_bucket_le key value (done ++ [a]) rest (key a)
  rw [bucket_snoc_self, length_append, append_assoc] at hle
  exact hle

lemma mem_bucket {items : List ι} {k : ℕ} {v : α} :
    v ∈ bucket key value items k ↔ ∃ a ∈ items, key a = k ∧ value a = v := by
  rw [bucket, List.mem_map]
  constructor
  · rintro ⟨a, ha, rfl⟩
    obtain ⟨hmem, hkey⟩ := List.mem_filter.mp ha
    exact ⟨a, hmem, of_decide_eq_true hkey, rfl⟩
  · rintro ⟨a, hmem, hkey, rfl⟩
    exact ⟨a, List.mem_filter.mpr ⟨hmem, decide_eq_true hkey⟩, rfl⟩

end Bucket

def tally (key : ι → ℕ) (counts : List ℕ) (items : List ι) : List ℕ :=
  items.foldl (fun c a => increment c (key a)) counts

@[simp] lemma length_tally (key : ι → ℕ) (counts : List ℕ) (items : List ι) :
    (tally key counts items).length = counts.length := by
  induction items generalizing counts with
  | nil => rfl
  | cons a items ih => exact (ih _).trans (length_increment _ _)

lemma getD_tally {key : ι → ℕ} {items : List ι} (h : ∀ a ∈ items, key a < counts.length) (k : ℕ) :
    (tally key counts items).getD k 0 = counts.getD k 0 + (bucket key id items k).length := by
  induction items using reverseRecOn with
  | nil => rfl
  | append_singleton items a ih =>
    have ha : key a < (tally key counts items).length := by
      rw [length_tally]
      exact h a (mem_append_right _ List.mem_cons_self)
    rw [tally, foldl_append]
    refine (getD_increment ha k).trans ?_
    rw [ih fun b hb => h b (mem_append_left _ hb)]
    rcases eq_or_ne (key a) k with rfl | hne
    · rw [bucket_snoc_self, length_append, if_pos rfl]
      exact add_assoc _ _ _
    · rw [bucket_snoc_of_ne items hne, if_neg hne, add_zero]

def cumulate (n : ℕ) (counts : List ℕ) : List ℕ :=
  (List.range n).foldl (fun c v => c.set (v + 1) (c.getD (v + 1) 0 + c.getD v 0)) counts

@[simp] lemma length_cumulate (n : ℕ) (counts : List ℕ) :
    (cumulate n counts).length = counts.length := by
  induction n with
  | zero => rfl
  | succ n ih =>
    rw [cumulate, range_succ, foldl_append]
    exact length_set.trans ih

lemma getD_cumulate {n : ℕ} (h : n < counts.length) (k : ℕ) :
    (cumulate n counts).getD k 0 =
      if k ≤ n then ∑ i ∈ Finset.range (k + 1), counts.getD i 0 else counts.getD k 0 := by
  induction n generalizing k with
  | zero =>
    rcases Nat.eq_zero_or_pos k with rfl | hpos
    · rw [if_pos le_rfl, zero_add, sum_range_one]
      rfl
    · rw [if_neg hpos.not_ge]
      rfl
  | succ n ih =>
    have ih := ih (Nat.lt_of_succ_lt h)
    rw [cumulate, range_succ, foldl_append]
    change ((cumulate n counts).set (n + 1)
      ((cumulate n counts).getD (n + 1) 0 + (cumulate n counts).getD n 0)).getD k 0 = _
    rw [getD_set, length_cumulate]
    rcases eq_or_ne (n + 1) k with rfl | hne
    · have hlater : ¬ n + 1 ≤ n := Nat.not_succ_le_self n
      rw [if_pos ⟨rfl, h⟩, if_pos le_rfl, ih, ih, if_neg hlater, if_pos le_rfl,
        Finset.sum_range_succ _ (n + 1), add_comm]
    · rw [if_neg fun heq => hne heq.1, ih]
      exact if_congr ⟨fun hk => hk.trans (Nat.le_succ n), fun hk =>
        Nat.le_of_lt_succ (lt_of_le_of_ne hk (Ne.symm hne))⟩ rfl rfl

/-- The elements are written behind each other from the place of their key on: `base` and the head of
the key, which counts on. -/
def scatter (base : ℕ → ℕ) (key : ι → ℕ) (value : ι → α) (head : List ℕ) (buffer : List α)
    (items : List ι) : List ℕ × List α :=
  items.foldl (fun s a => (increment s.1 (key a),
    s.2.set (base (key a) + s.1.getD (key a) 0) (value a))) (head, buffer)

section Scatter

variable {base start : ℕ → ℕ} {key : ι → ℕ} {value : ι → α} {head : List ℕ} {buffer : List α}
  {items : List ι} {d : α}

lemma scatter_fst (base : ℕ → ℕ) (key : ι → ℕ) (value : ι → α) (head : List ℕ) (buffer : List α)
    (items : List ι) : (scatter base key value head buffer items).1 = tally key head items := by
  induction items generalizing head buffer with
  | nil => rfl
  | cons a items ih => exact ih _ _

@[simp] lemma length_scatter_snd (base : ℕ → ℕ) (key : ι → ℕ) (value : ι → α) (head : List ℕ)
    (buffer : List α) (items : List ι) :
    (scatter base key value head buffer items).2.length = buffer.length := by
  induction items generalizing head buffer with
  | nil => rfl
  | cons a items ih => exact (ih _ _).trans length_set

structure Layout (start : ℕ → ℕ) (key : ι → ℕ) (value : ι → α) (items : List ι) (size : ℕ) :
    Prop where
  fits : ∀ a ∈ items, start (key a) + (bucket key value items (key a)).length ≤ size
  disjoint : ∀ a ∈ items, ∀ b ∈ items, key a ≠ key b →
    start (key a) + (bucket key value items (key a)).length ≤ start (key b) ∨
      start (key b) + (bucket key value items (key b)).length ≤ start (key a)

/-- What the writes for a first part of the elements leave in the buffer. -/
lemma scatter_prefix (hhead : ∀ a ∈ items, key a < head.length)
    (hstart : ∀ a ∈ items, base (key a) + head.getD (key a) 0 = start (key a))
    (hlayout : Layout start key value items buffer.length) (done rest : List ι)
    (hitems : items = done ++ rest) : ∀ b ∈ items, ∀ t < (bucket key value done (key b)).length,
      (scatter base key value head buffer done).2.getD (start (key b) + t) d =
        (bucket key value done (key b)).getD t d := by
  induction done using reverseRecOn generalizing rest with
  | nil => exact fun b _ t ht => absurd ht (Nat.not_lt_zero t)
  | append_singleton done a ih =>
    have hsplit : items = done ++ a :: rest := by rw [hitems, append_assoc]; rfl
    have ha : a ∈ items := by
      rw [hsplit]
      exact mem_append_right _ List.mem_cons_self
    have hdone : ∀ c ∈ done, key c < head.length := fun c hc =>
      hhead c (hsplit ▸ mem_append_left _ hc)
    intro b hb t ht
    rw [scatter, foldl_append]
    change ((scatter base key value head buffer done).2.set
      (base (key a) + (scatter base key value head buffer done).1.getD (key a) 0) (value a)).getD
        (start (key b) + t) d = _
    have hplace : base (key a) + (scatter base key value head buffer done).1.getD (key a) 0 =
        start (key a) + (bucket key value done (key a)).length := by
      rw [scatter_fst, getD_tally hdone, ← add_assoc, hstart a ha, length_bucket value]
    have hlt : start (key a) + (bucket key value done (key a)).length < buffer.length := by
      have hfits := hlayout.fits a ha
      have hcount := length_bucket_lt key value done rest a
      rw [← hsplit] at hcount
      omega
    rw [hplace, getD_set, length_scatter_snd]
    rcases eq_or_ne (key a) (key b) with hkey | hne
    · rw [← hkey, bucket_snoc_self] at ht ⊢
      rw [length_append, length_singleton] at ht
      rcases Nat.lt_succ_iff_lt_or_eq.mp ht with hold | hnew
      · rw [if_neg fun h => by omega, getD_append _ _ _ _ hold]
        exact ih (a :: rest) hsplit a ha t hold
      · rw [hnew, if_pos ⟨rfl, hlt⟩, getD_append_right _ _ _ _ le_rfl, Nat.sub_self]
        rfl
    · rw [bucket_snoc_of_ne done hne] at ht ⊢
      have hcount := length_bucket_lt key value done rest a
      have hother := length_bucket_le key value done (a :: rest) (key b)
      rw [← hsplit] at hcount hother
      have hapart := hlayout.disjoint a ha b hb hne
      rw [if_neg fun h => by omega]
      exact ih (a :: rest) hsplit b hb t ht

lemma getD_scatter (hhead : ∀ a ∈ items, key a < head.length)
    (hstart : ∀ a ∈ items, base (key a) + head.getD (key a) 0 = start (key a))
    (hlayout : Layout start key value items buffer.length) {b : ι} (hb : b ∈ items) {t : ℕ}
    (ht : t < (bucket key value items (key b)).length) :
    (scatter base key value head buffer items).2.getD (start (key b) + t) d =
      (bucket key value items (key b)).getD t d :=
  scatter_prefix hhead hstart hlayout items [] (append_nil items).symm b hb t ht

def slice (l : List α) (first last : ℕ) : List α := (l.drop first).take (last - first)

lemma slice_eq {l s : List α} {first last : ℕ} (hlast : last = first + s.length)
    (hfits : last ≤ l.length) (hcell : ∀ t < s.length, l.getD (first + t) d = s.getD t d) :
    slice l first last = s := by
  have hlen : (slice l first last).length = s.length := by
    rw [slice, length_take, length_drop]
    omega
  apply ext_getElem hlen
  intro t ht hts
  have hcell := hcell t hts
  rw [getD_eq_getElem _ _ (by omega), getD_eq_getElem _ _ hts] at hcell
  rw [← hcell]
  simp only [slice, getElem_take, getElem_drop]

lemma slice_scatter (d : α) (hhead : ∀ a ∈ items, key a < head.length)
    (hstart : ∀ a ∈ items, base (key a) + head.getD (key a) 0 = start (key a))
    (hlayout : Layout start key value items buffer.length) {b : ι} (hb : b ∈ items) :
    slice (scatter base key value head buffer items).2 (start (key b))
      (start (key b) + (bucket key value items (key b)).length) =
        bucket key value items (key b) := by
  apply slice_eq (d := d) rfl
  · rw [length_scatter_snd]
    exact hlayout.fits b hb
  · exact fun t ht => getD_scatter hhead hstart hlayout hb ht

end Scatter

lemma slice_append (l : List α) {a b c : ℕ} (hab : a ≤ b) (hbc : b ≤ c) :
    slice l a b ++ slice l b c = slice l a c := by
  unfold slice
  have hdrop : l.drop b = (l.drop a).drop (b - a) := by
    rw [drop_drop]
    congr 1
    omega
  have hsum : c - a = (b - a) + (c - b) := by omega
  rw [hdrop, hsum, take_add]

section Ascending

variable {key : ι → ℕ} {value : ι → α} {items : List ι} {n : ℕ}

def offsets (n : ℕ) (key : ι → ℕ) (items : List ι) : List ℕ :=
  cumulate n (tally (fun a => key a + 1) (List.replicate (n + 1) 0) items)

@[simp] lemma length_offsets : (offsets n key items).length = n + 1 := by
  rw [offsets, length_cumulate, length_tally, length_replicate]

lemma getD_offsets (h : ∀ a ∈ items, key a < n) {k : ℕ} (hk : k ≤ n) :
    (offsets n key items).getD k 0 = ∑ i ∈ Finset.range k, (bucket key id items i).length := by
  have hcell : ∀ i, (tally (fun a => key a + 1) (replicate (n + 1) 0) items).getD i 0 =
      (bucket (fun a => key a + 1) id items i).length := by
    intro i
    have hzeros : (replicate (n + 1) 0).getD i 0 = 0 := by
      rw [getD_eq_getElem?_getD, getElem?_replicate]
      split_ifs
      · rfl
      · rfl
    rw [getD_tally, hzeros, zero_add]
    intro a ha
    rw [length_replicate]
    exact Nat.succ_lt_succ (h a ha)
  have hzero : bucket (fun a => key a + 1) id items 0 = [] := by
    rw [bucket, filter_eq_nil_iff.mpr fun a _ => by simp]
    rfl
  have hsucc : ∀ i, bucket (fun a => key a + 1) id items (i + 1) = bucket key id items i := by
    intro i
    simp only [bucket, Nat.add_right_cancel_iff]
  rw [offsets, getD_cumulate (by rw [length_tally, length_replicate]; exact Nat.lt_succ_self n),
    if_pos hk, Finset.sum_range_succ', hcell, hzero, length_nil, add_zero]
  apply sum_congr rfl
  intro i _
  rw [hcell, hsucc]

lemma layout_ascending (h : ∀ a ∈ items, key a < n) :
    Layout (fun k => ∑ i ∈ Finset.range k, (bucket key id items i).length) key value items
      (∑ i ∈ Finset.range n, (bucket key id items i).length) := by
  have hmono : ∀ k k', k < k' →
      ∑ i ∈ Finset.range k, (bucket key id items i).length + (bucket key value items k).length ≤
        ∑ i ∈ Finset.range k', (bucket key id items i).length := by
    intro k k' hlt
    rw [length_bucket, ← Finset.sum_range_succ]
    exact sum_le_sum_of_subset (range_subset_range.mpr hlt)
  constructor
  · exact fun a ha => hmono _ _ (h a ha)
  · intro a _ b _ hne
    rcases lt_or_gt_of_ne hne with hlt | hgt
    · exact .inl (hmono _ _ hlt)
    · exact .inr (hmono _ _ hgt)

lemma sum_length_bucket (value : ι → α) (h : ∀ a ∈ items, key a < n) :
    ∑ i ∈ Finset.range n, (bucket key value items i).length = items.length := by
  induction items using reverseRecOn with
  | nil => exact sum_eq_zero fun i _ => rfl
  | append_singleton items a ih =>
    have ha : key a ∈ Finset.range n :=
      Finset.mem_range.mpr (h a (mem_append_right _ List.mem_cons_self))
    have hrest : ∀ i ∈ (Finset.range n).erase (key a),
        (bucket key value (items ++ [a]) i).length = (bucket key value items i).length := by
      intro i hi
      rw [bucket_snoc_of_ne items (ne_of_mem_erase hi).symm]
    rw [← add_sum_erase _ _ ha, sum_congr rfl hrest, bucket_snoc_self,
      length_append, add_right_comm, add_sum_erase _
        (fun i => (bucket key value items i).length) ha,
      ih fun b hb => h b (mem_append_left _ hb), length_append]
    rfl

def scatterAscending (n : ℕ) (key : ι → ℕ) (value : ι → α) (d : α) (items : List ι) : List α :=
  (scatter (fun _ => 0) key value ((offsets n key items).take n)
    (List.replicate items.length d) items).2

lemma slice_scatterAscending (d : α) (h : ∀ a ∈ items, key a < n) {k : ℕ} (hk : k < n) :
    slice (scatterAscending n key value d items) ((offsets n key items).getD k 0)
      ((offsets n key items).getD (k + 1) 0) = bucket key value items k := by
  have hstart := getD_offsets h hk.le
  have hend := getD_offsets h (Nat.succ_le_of_lt hk)
  rw [Finset.sum_range_succ, ← hstart] at hend
  rw [hend, ← length_bucket value]
  have htake : ∀ j < n, ((offsets n key items).take n).getD j 0 =
      ∑ i ∈ Finset.range j, (bucket key id items i).length := by
    intro j hj
    rw [← getD_offsets h hj.le, getD_eq_getElem?_getD, getElem?_take_of_lt hj,
      getD_eq_getElem?_getD]
  by_cases hmem : ∃ b ∈ items, key b = k
  · obtain ⟨b, hb, rfl⟩ := hmem
    have hlayout : Layout (fun j => ∑ i ∈ Finset.range j, (bucket key id items i).length) key value
        items (replicate items.length d).length := by
      rw [length_replicate, ← sum_length_bucket id h]
      exact layout_ascending h
    rw [hstart]
    apply slice_scatter d (fun a ha => ?_) (fun a ha => ?_) hlayout hb
    · rw [length_take, length_offsets, min_eq_left (Nat.le_succ n)]
      exact h a ha
    · rw [zero_add, htake _ (h a ha)]
  · have hempty : bucket key value items k = [] := by
      rw [bucket, filter_eq_nil_iff.mpr, map_nil]
      intro a ha
      rw [decide_eq_true_eq]
      exact fun heq => hmem ⟨a, ha, heq⟩
    rw [hempty, length_nil, add_zero, slice, Nat.sub_self, take_zero]

/-- Written from the sums of the counts on, the elements stand key by key, whatever the buffer held. -/
lemma scatter_ascending_eq (d : α) {head : List ℕ} {buffer : List α} (h : ∀ a ∈ items, key a < n)
    (hlen : n ≤ head.length)
    (hhead : ∀ k < n, head.getD k 0 = ∑ i ∈ Finset.range k, (bucket key id items i).length)
    (hbuffer : buffer.length = items.length) :
    (scatter (fun _ => 0) key value head buffer items).2 =
      (List.range n).flatMap (bucket key value items) := by
  set l := (scatter (fun _ => 0) key value head buffer items).2 with hl
  have hlength : l.length = items.length := (length_scatter_snd ..).trans hbuffer
  have hlayout : Layout (fun k => ∑ i ∈ Finset.range k, (bucket key id items i).length) key value
      items buffer.length := by
    rw [hbuffer, ← sum_length_bucket id h]
    exact layout_ascending h
  have hprefix : ∀ k ≤ n, slice l 0 (∑ i ∈ Finset.range k, (bucket key id items i).length) =
      (List.range k).flatMap (bucket key value items) := by
    intro k hk
    induction k with
    | zero => rfl
    | succ k ih =>
      rw [Finset.sum_range_succ, ← slice_append l (Nat.zero_le _) (Nat.le_add_right _ _),
        ih (Nat.le_of_succ_le hk), range_succ, flatMap_append, flatMap_singleton]
      congr 1
      by_cases hmem : ∃ b ∈ items, key b = k
      · obtain ⟨b, hb, rfl⟩ := hmem
        have hstart : ∀ a ∈ items, (fun _ : ℕ => 0) (key a) + head.getD (key a) 0 =
            ∑ i ∈ Finset.range (key a), (bucket key id items i).length := by
          intro a ha
          rw [hhead _ (h a ha)]
          exact zero_add _
        have hcells : slice l (∑ i ∈ Finset.range (key b), (bucket key id items i).length)
            (∑ i ∈ Finset.range (key b), (bucket key id items i).length +
              (bucket key value items (key b)).length) = bucket key value items (key b) :=
          slice_scatter d (fun a ha => (h a ha).trans_le hlen) hstart hlayout hb
        rwa [length_bucket] at hcells
      · have hempty : (items.filter fun a => decide (key a = k)) = [] := by
          refine filter_eq_nil_iff.mpr fun a ha => ?_
          rw [decide_eq_true_eq]
          exact fun heq => hmem ⟨a, ha, heq⟩
        rw [bucket, bucket, hempty, map_nil, map_nil, length_nil, add_zero, slice,
          Nat.sub_self, take_zero]
  have hall := hprefix n le_rfl
  rw [sum_length_bucket id h, ← hlength, slice, drop_zero, Nat.sub_zero, take_length] at hall
  exact hall

lemma flatMap_bucket_perm (h : ∀ a ∈ items, key a < n) :
    ((List.range n).flatMap (bucket key id items)).Perm items := by
  have hprefix : ∀ k, ((List.range k).flatMap (bucket key id items)).Perm
      (items.filter fun a => key a < k) := by
    intro k
    induction k with
    | zero =>
      rw [filter_eq_nil_iff.mpr fun a _ => by
        rw [decide_eq_true_eq]; exact Nat.not_lt_zero _]
      exact .refl []
    | succ k ih =>
      have hsplit := filter_append_perm (fun a => decide (key a < k))
        (items.filter fun a => key a < k + 1)
      rw [List.filter_filter, List.filter_filter] at hsplit
      have hlow : (items.filter fun a => decide (key a < k) && decide (key a < k + 1)) =
          items.filter fun a => key a < k := by
        refine filter_congr fun a _ => ?_
        rw [← Bool.decide_and, decide_eq_decide]
        omega
      have hhigh : (items.filter fun a => !decide (key a < k) && decide (key a < k + 1)) =
          bucket key id items k := by
        rw [bucket, map_id]
        refine filter_congr fun a _ => ?_
        rw [← decide_not, ← Bool.decide_and, decide_eq_decide]
        omega
      rw [hlow, hhigh] at hsplit
      rw [range_succ, flatMap_append, flatMap_singleton]
      exact (ih.append_right _).trans hsplit
  have hall := hprefix n
  rwa [List.filter_eq_self.mpr fun a ha => decide_eq_true (h a ha)] at hall

/-- Sorting by a key keeps the order of elements of one key. -/
lemma flatMap_bucket_pairwise {R : ι → ι → Prop} (hR : items.Pairwise R) (n : ℕ) :
    ((List.range n).flatMap (bucket key id items)).Pairwise
      fun a b => key a < key b ∨ key a = key b ∧ R a b := by
  have hkey : ∀ k, ∀ a ∈ bucket key id items k, key a = k := by
    intro k a ha
    obtain ⟨b, -, hb, rfl⟩ := mem_bucket.mp ha
    exact hb
  refine pairwise_flatMap.mpr ⟨fun k _ => ?_, ?_⟩
  · have hbucket : (bucket key id items k).Pairwise R := by
      rw [bucket, map_id]
      exact hR.filter _
    refine hbucket.imp_of_mem fun {a b} ha hb hab => ?_
    exact .inr ⟨(hkey k a ha).trans (hkey k b hb).symm, hab⟩
  · refine pairwise_lt_range.imp fun {i j} hij a ha b hb => ?_
    left
    rw [hkey i a ha, hkey j b hb]
    exact hij

end Ascending

section Ordered

variable {size : ℕ → ℕ} {order : List ℕ}

def startIn (size : ℕ → ℕ) : List ℕ → ℕ → ℕ
  | [], _ => 0
  | c :: order, k => if c = k then 0 else size c + startIn size order k

variable {k : ℕ}

lemma startIn_add_le (hk : k ∈ order) : startIn size order k + size k ≤ (order.map size).sum := by
  induction order with
  | nil => cases hk
  | cons c order ih =>
    rw [startIn, List.map_cons, List.sum_cons]
    split_ifs with hc
    · subst hc
      rw [zero_add]
      exact Nat.le_add_right _ _
    · have hle := ih ((List.mem_cons.mp hk).resolve_left (Ne.symm hc))
      rw [add_assoc]
      exact Nat.add_le_add_left hle _

lemma startIn_disjoint {k' : ℕ} (hk : k ∈ order) (hk' : k' ∈ order) (hne : k ≠ k') :
    startIn size order k + size k ≤ startIn size order k' ∨
      startIn size order k' + size k' ≤ startIn size order k := by
  induction order with
  | nil => cases hk
  | cons c order ih =>
    rw [startIn, startIn]
    split_ifs with hc hc' hc'
    · exact absurd (hc.symm.trans hc') hne
    · subst hc
      left
      rw [zero_add]
      exact Nat.le_add_right _ _
    · subst hc'
      right
      rw [zero_add]
      exact Nat.le_add_right _ _
    · have hrest := ih ((List.mem_cons.mp hk).resolve_left (Ne.symm hc))
        ((List.mem_cons.mp hk').resolve_left (Ne.symm hc'))
      omega

def assignStarts (order counts : List ℕ) : List ℕ × ℕ :=
  order.foldl (fun s c => (s.1.set c s.2, s.2 + s.1.getD c 0)) (counts, 0)

lemma length_assignStarts (order counts : List ℕ) :
    (assignStarts order counts).1.length = counts.length := by
  have hgeneral : ∀ (order counts : List ℕ) (o : ℕ),
      (order.foldl (fun s c => (s.1.set c s.2, s.2 + s.1.getD c 0)) (counts, o)).1.length =
        counts.length := by
    intro order
    induction order with
    | nil => exact fun _ _ => rfl
    | cons c order ih => exact fun counts o => (ih _ _).trans length_set
  exact hgeneral order counts 0

variable {counts : List ℕ}

lemma startIn_set {c o : ℕ} {l : List ℕ} (hc : c ∉ l) (k : ℕ) :
    startIn (fun c' => (counts.set c o).getD c' 0) l k = startIn (fun c' => counts.getD c' 0) l k := by
  induction l with
  | nil => rfl
  | cons e l ih =>
    obtain ⟨he, hl⟩ := not_or.mp fun hor => hc (List.mem_cons.mpr hor)
    have hcell : (counts.set c o).getD e 0 = counts.getD e 0 := by
      rw [getD_set, if_neg fun heq => he heq.1]
    rw [startIn, startIn, hcell, ih hl]

section

variable (hnodup : order.Nodup) (h : ∀ c ∈ order, c < counts.length)
include hnodup h

/-- The keys of `order` get their starts from `o` on, the other cells stay as they are. -/
lemma getD_foldl_assign (o k : ℕ) :
    (order.foldl (fun s c => (s.1.set c s.2, s.2 + s.1.getD c 0)) (counts, o)).1.getD k 0 =
      if k ∈ order then o + startIn (fun c => counts.getD c 0) order k else counts.getD k 0 := by
  induction order generalizing counts o with
  | nil => rfl
  | cons c order ih =>
    obtain ⟨hc, hrest⟩ := nodup_cons.mp hnodup
    rw [foldl_cons, ih hrest fun e he => by
      rw [length_set]
      exact h e (mem_cons_of_mem c he)]
    rw [startIn, startIn_set hc]
    rcases eq_or_ne k c with rfl | hne
    · rw [if_neg hc, if_pos List.mem_cons_self, if_pos rfl, getD_set,
        if_pos ⟨rfl, h k List.mem_cons_self⟩]
      rfl
    · have hcell : (counts.set c o).getD k 0 = counts.getD k 0 := by
        rw [getD_set, if_neg fun heq => hne heq.1.symm]
      rw [hcell, if_neg (Ne.symm hne)]
      simp only [List.mem_cons, hne, false_or, add_assoc]

lemma getD_assignStarts (hk : k ∈ order) :
    (assignStarts order counts).1.getD k 0 = startIn (fun c => counts.getD c 0) order k := by
  have hresult := getD_foldl_assign hnodup h 0 k
  rwa [if_pos hk, zero_add] at hresult

lemma getD_assignStarts_of_notMem (hk : k ∉ order) :
    (assignStarts order counts).1.getD k 0 = counts.getD k 0 := by
  have hresult := getD_foldl_assign hnodup h 0 k
  rwa [if_neg hk] at hresult

end

/-- Cells that hold the elements of each key from its start on are the elements key by key. -/
lemma slice_eq_flatMap (d : α) {l : List α} {f : ℕ → List α} (hnodup : order.Nodup) {o : ℕ}
    (hfits : o + (order.map fun k => (f k).length).sum ≤ l.length)
    (hcell : ∀ k ∈ order, ∀ t < (f k).length,
      l.getD (o + startIn (fun k => (f k).length) order k + t) d = (f k).getD t d) :
    slice l o (o + (order.map fun k => (f k).length).sum) = order.flatMap f := by
  induction order generalizing o with
  | nil =>
    unfold slice
    rw [map_nil, sum_nil, add_zero, Nat.sub_self, take_zero]
    rfl
  | cons c order ih =>
    obtain ⟨hc, hrest⟩ := nodup_cons.mp hnodup
    rw [List.map_cons, List.sum_cons, ← add_assoc] at hfits
    rw [List.map_cons, List.sum_cons, ← add_assoc, flatMap_cons,
      ← slice_append l (Nat.le_add_right o _) (Nat.le_add_right _ _)]
    congr 1
    · apply slice_eq (d := d) rfl (by omega)
      intro t ht
      have hfirst := hcell c List.mem_cons_self t ht
      rwa [startIn, if_pos rfl, add_zero] at hfirst
    · apply ih hrest hfits
      intro k hk t ht
      have hne : c ≠ k := fun heq => hc (heq ▸ hk)
      have hlater := hcell k (mem_cons_of_mem c hk) t ht
      rwa [startIn, if_neg hne, ← add_assoc] at hlater

end Ordered

end CountingScatter
