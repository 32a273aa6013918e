import CuOpt.Io.CooCanonical
import CuOpt.Library.SortedRuns

/-! Canonicalizing is exact in both ways of compressing the indices, and the symmetry check accepts
the lists that are their own transpose. -/

namespace CuOpt.Io

open BufferWrites CountingScatter SortedRuns List
open Prod (ext)
open Coo (ofEntries)

lemma overwrite_eq {α : Type*} (l : List α) (n : ℕ) (d : α) (f : ℕ → α) :
    overwrite l n d f = (range n).map f := by
  have hresize : (resize l n d).length = n := by
    rw [resize, length_append, length_take, length_replicate]
    omega
  have hlength : (overwrite l n d f).length = n := by rw [overwrite, length_writeAll, hresize]
  apply ext_getElem (by rw [hlength, length_map, length_range])
  intro k hk hk'
  rw [hlength] at hk
  have hcell : (overwrite l n d f).getD k d = f k :=
    getD_writeAll (fun k => k) (fun _ => True) (fun _ _ => trivial) (fun _ _ _ _ _ => rfl)
      (fun _ _ _ _ h => h) (mem_range.mpr hk) (by rwa [hresize])
  rw [getD_eq_getElem _ _ (by rwa [hlength])] at hcell
  rw [hcell, getElem_map, getElem_range]

section Ranks

variable {rows cols : List ℤ} {s t : CooScratch} {n : ℕ} {rank : ℤ → ℕ} {v w : ℤ} {k : ℕ}

lemma mem_rows (hk : k < rows.length) : rows.getD k 0 ∈ rows ++ cols := by
  rw [getD_eq_getElem _ _ hk]
  exact mem_append_left _ (getElem_mem hk)

lemma mem_cols (hk : k < cols.length) : cols.getD k 0 ∈ rows ++ cols := by
  rw [getD_eq_getElem _ _ hk]
  exact mem_append_right _ (getElem_mem hk)

lemma pairRow_mem (hlen : cols.length = rows.length) (hk : k < rows.length) :
    pairRow rows cols k ∈ rows ++ cols := by
  rcases min_choice (rows.getD k 0) (cols.getD k 0) with h | h
  · rw [pairRow, h]
    exact mem_rows hk
  · rw [pairRow, h]
    exact mem_cols (hlen ▸ hk)

lemma pairCol_mem (hlen : cols.length = rows.length) (hk : k < rows.length) :
    pairCol rows cols k ∈ rows ++ cols := by
  rcases max_choice (rows.getD k 0) (cols.getD k 0) with h | h
  · rw [pairCol, h]
    exact mem_rows hk
  · rw [pairCol, h]
    exact mem_cols (hlen ▸ hk)

/-- The ranks number the indices that occur in their order, and `sortedValues` takes them back. -/
structure RankMap (rows cols : List ℤ) (t : CooScratch) (n : ℕ) (rank : ℤ → ℕ) : Prop where
  rowRank : t.rowRank = (range rows.length).map fun k => rank (pairRow rows cols k)
  colRank : t.colRank = (range rows.length).map fun k => rank (pairCol rows cols k)
  lt_iff : ∀ v ∈ rows ++ cols, ∀ w ∈ rows ++ cols, rank v < rank w ↔ v < w
  bound : ∀ v ∈ rows ++ cols, rank v < n
  value : ∀ v ∈ rows ++ cols, t.sortedValues.getD (rank v) 0 = v

lemma RankMap.inj (h : RankMap rows cols t n rank) (hv : v ∈ rows ++ cols)
    (hw : w ∈ rows ++ cols) : rank v = rank w ↔ v = w := by
  constructor
  · intro heq
    rw [← h.value v hv, heq, h.value w hw]
  · exact fun heq => congrArg rank heq

/-- A fold that goes one way only has gone past every entry. -/
lemma foldl_past {op : ℤ → ℤ → ℤ} {r : ℤ → ℤ → Prop} (hrefl : ∀ m, r m m)
    (htrans : ∀ a b c, r a b → r b c → r a c) (hleft : ∀ a b, r (op a b) a)
    (hright : ∀ a b, r (op a b) b) (hlen : cols.length = rows.length) (hv : v ∈ rows ++ cols) :
    r ((range rows.length).foldl (fun m k => op (op m (rows.getD k 0)) (cols.getD k 0))
      (rows.getD 0 0)) v := by
  have hfold : ∀ (l : List ℕ) (m : ℤ),
      r (l.foldl (fun m k => op (op m (rows.getD k 0)) (cols.getD k 0)) m) m ∧
      ∀ k ∈ l, r (l.foldl (fun m k => op (op m (rows.getD k 0)) (cols.getD k 0)) m) (rows.getD k 0) ∧
        r (l.foldl (fun m k => op (op m (rows.getD k 0)) (cols.getD k 0)) m) (cols.getD k 0) := by
    intro l
    induction l with
    | nil => exact fun m => ⟨hrefl m, nofun⟩
    | cons j l ih =>
      intro m
      obtain ⟨hstart, hrest⟩ := ih (op (op m (rows.getD j 0)) (cols.getD j 0))
      have hrow := htrans _ _ _ hstart (hleft _ _)
      refine ⟨htrans _ _ _ hrow (hleft _ _), fun k hk => ?_⟩
      rcases mem_cons.mp hk with rfl | hk
      · exact ⟨htrans _ _ _ hrow (hright _ _), htrans _ _ _ hstart (hright _ _)⟩
      · exact hrest k hk
  have hall := (hfold (range rows.length) (rows.getD 0 0)).2
  rcases mem_append.mp hv with hv | hv
  · obtain ⟨k, hk, rfl⟩ := getElem_of_mem hv
    rw [← getD_eq_getElem _ 0 hk]
    exact (hall k (mem_range.mpr hk)).1
  · obtain ⟨k, hk, rfl⟩ := getElem_of_mem hv
    rw [← getD_eq_getElem _ 0 hk]
    exact (hall k (mem_range.mpr (hlen ▸ hk))).2

lemma minIndex_le (hlen : cols.length = rows.length) (hv : v ∈ rows ++ cols) :
    minIndex rows cols ≤ v :=
  foldl_past le_refl (fun _ _ _ => le_trans) min_le_left min_le_right hlen hv

lemma le_maxIndex (hlen : cols.length = rows.length) (hv : v ∈ rows ++ cols) :
    v ≤ maxIndex rows cols :=
  foldl_past (r := (· ≥ ·)) le_refl (fun _ _ _ => ge_trans) le_max_left le_max_right hlen hv

lemma compressDirect_rankMap (hlen : cols.length = rows.length) (s : CooScratch) :
    RankMap rows cols (compressDirect rows cols s).1 (compressDirect rows cols s).2
      fun v => (v - minIndex rows cols).toNat := by
  have hbound : ∀ v ∈ rows ++ cols, (v - minIndex rows cols).toNat < indexRange rows cols := by
    intro v hv
    have hlow := minIndex_le hlen hv
    have hhigh := le_maxIndex hlen hv
    unfold indexRange
    omega
  constructor
  · exact overwrite_eq _ _ _ _
  · exact overwrite_eq _ _ _ _
  · intro v hv w hw
    have hlow := minIndex_le hlen hv
    have hlow' := minIndex_le hlen hw
    omega
  · exact hbound
  · intro v hv
    have hlow := minIndex_le hlen hv
    change (overwrite s.sortedValues (indexRange rows cols) 0
      fun t => minIndex rows cols + (t : ℤ)).getD _ 0 = v
    rw [overwrite_eq, getD_map_range _ (hbound v hv)]
    omega

lemma mem_distinctIndices : v ∈ distinctIndices rows cols ↔ v ∈ rows ++ cols := by
  have hsorted := pairwise_insertionSort (· ≤ ·) (rows ++ cols)
  rw [distinctIndices, hsorted.destutter_eq_dedup, mem_dedup, mem_insertionSort]

lemma distinctIndices_pairwise (rows cols : List ℤ) :
    (distinctIndices rows cols).Pairwise (· < ·) := by
  have hsorted := pairwise_insertionSort (· ≤ ·) (rows ++ cols)
  have hdedup : distinctIndices rows cols = ((rows ++ cols).insertionSort (· ≤ ·)).dedup :=
    hsorted.destutter_eq_dedup
  have hle : (distinctIndices rows cols).Pairwise (· ≤ ·) :=
    hsorted.sublist (destutter_sublist _ _)
  have hne : (distinctIndices rows cols).Pairwise (· ≠ ·) := by
    rw [hdedup]
    exact nodup_dedup _
  exact (hle.and hne).imp fun h => lt_of_le_of_ne h.1 h.2

lemma lowerBound_getElem {values : List ℤ} (hsorted : values.Pairwise (· < ·)) {i : ℕ}
    (hi : i < values.length) : lowerBound values values[i] = i := by
  rw [lowerBound, findIdx_eq hi]
  constructor
  · rw [decide_eq_false (lt_irrefl _)]
    rfl
  · intro j hj
    rw [decide_eq_true (pairwise_iff_getElem.mp hsorted j i _ hi hj)]
    rfl

lemma compressRanking_rankMap (rows cols : List ℤ) (s : CooScratch) :
    RankMap rows cols (compressRanking rows cols s).1 (compressRanking rows cols s).2
      (lowerBound (distinctIndices rows cols)) := by
  have hsorted := distinctIndices_pairwise rows cols
  have hplace : ∀ v ∈ rows ++ cols, ∃ i, ∃ hi : i < (distinctIndices rows cols).length,
      (distinctIndices rows cols)[i] = v ∧ lowerBound (distinctIndices rows cols) v = i := by
    intro v hv
    obtain ⟨i, hi, rfl⟩ := getElem_of_mem (mem_distinctIndices.mpr hv)
    exact ⟨i, hi, rfl, lowerBound_getElem hsorted hi⟩
  constructor
  · exact overwrite_eq _ _ _ _
  · exact overwrite_eq _ _ _ _
  · intro v hv w hw
    obtain ⟨i, hi, rfl, hrank⟩ := hplace v hv
    obtain ⟨j, hj, rfl, hrank'⟩ := hplace w hw
    rw [hrank, hrank']
    have hmono := pairwise_iff_getElem.mp hsorted
    constructor
    · exact fun hij => hmono i j hi hj hij
    · intro hlt
      by_contra hge
      rcases Nat.lt_or_eq_of_le (Nat.le_of_not_lt hge) with hji | rfl
      · exact lt_asymm hlt (hmono j i hj hi hji)
      · exact lt_irrefl _ hlt
  · intro v hv
    obtain ⟨i, hi, -, hrank⟩ := hplace v hv
    rw [hrank]
    exact hi
  · intro v hv
    obtain ⟨i, hi, rfl, hrank⟩ := hplace v hv
    rw [hrank]
    exact getD_eq_getElem _ _ hi

/-- What a compression has to do for entries in lists of one length. -/
def Compresses (compress : Compress) : Prop :=
  ∀ (rows cols : List ℤ) (s : CooScratch), cols.length = rows.length →
    ∃ rank, RankMap rows cols (compress rows cols s).1 (compress rows cols s).2 rank

lemma compresses_direct : Compresses compressDirect := fun _ _ s hlen =>
  ⟨_, compressDirect_rankMap hlen s⟩

lemma compresses_ranking : Compresses compressRanking := fun rows cols s _ =>
  ⟨_, compressRanking_rankMap rows cols s⟩

lemma compresses_canonicalPairs : Compresses compressCanonicalPairs := by
  intro rows cols s hlen
  unfold compressCanonicalPairs
  split_ifs
  · exact compresses_direct rows cols s hlen
  · exact compresses_ranking rows cols s hlen

end Ranks

section Order

variable {rows cols : List ℤ} {s t : CooScratch} {n : ℕ} {rank : ℤ → ℕ} {compress : Compress}

/-- The upper triangular pair of an entry, pairs ordered by row and then by column. -/
def canonicalPair (rows cols : List ℤ) (k : ℕ) : ℤ ×ₗ ℤ :=
  toLex (pairRow rows cols k, pairCol rows cols k)

def Before (rows cols : List ℤ) (a b : ℕ) : Prop :=
  canonicalPair rows cols a < canonicalPair rows cols b ∨
    canonicalPair rows cols a = canonicalPair rows cols b ∧ a < b

lemma canonicalPair_lt {a b : ℕ} : canonicalPair rows cols a < canonicalPair rows cols b ↔
    pairRow rows cols a < pairRow rows cols b ∨
      pairRow rows cols a = pairRow rows cols b ∧ pairCol rows cols a < pairCol rows cols b :=
  Prod.Lex.toLex_lt_toLex

lemma canonicalPair_eq {a b : ℕ} : canonicalPair rows cols a = canonicalPair rows cols b ↔
    pairRow rows cols a = pairRow rows cols b ∧ pairCol rows cols a = pairCol rows cols b :=
  toLex_inj.trans Prod.mk_inj

lemma countingSortPass_eq {key order scratch : List ℕ} {keyRange : ℕ}
    (h : ∀ e ∈ order, key.getD e 0 < keyRange) (hscratch : scratch.length = order.length) :
    (countingSortPass key keyRange order scratch).1 =
      (range keyRange).flatMap (bucket (fun e => key.getD e 0) id order) :=
  scatter_ascending_eq 0 h (by rw [length_offsets]; exact Nat.le_succ keyRange)
    (fun k hk => getD_offsets h hk.le) hscratch

lemma RankMap.getD_rowRank (h : RankMap rows cols t n rank) {k : ℕ} (hk : k < rows.length) :
    t.rowRank.getD k 0 = rank (pairRow rows cols k) := by
  rw [h.rowRank, getD_map_range _ hk]

lemma RankMap.getD_colRank (h : RankMap rows cols t n rank) {k : ℕ} (hk : k < rows.length) :
    t.colRank.getD k 0 = rank (pairCol rows cols k) := by
  rw [h.colRank, getD_map_range _ hk]

lemma orderByCanonicalPair_order (hlen : cols.length = rows.length)
    (h : RankMap rows cols (compress rows cols s).1 (compress rows cols s).2 rank) :
    (orderByCanonicalPair compress rows cols s).order.Perm (range rows.length) ∧
      (orderByCanonicalPair compress rows cols s).order.Pairwise (Before rows cols) := by
  set t := (compress rows cols s).1 with ht
  set n := (compress rows cols s).2 with hn
  have hstart : overwrite t.order rows.length 0 id = range rows.length := by
    rw [overwrite_eq, map_id]
  have hscratch : (resize t.passScratch rows.length 0).length = (range rows.length).length := by
    rw [resize, length_append, length_take, length_replicate, length_range]
    omega
  have hcol : ∀ e ∈ range rows.length, t.colRank.getD e 0 < n := by
    intro e he
    rw [h.getD_colRank (mem_range.mp he)]
    exact h.bound _ (pairCol_mem hlen (mem_range.mp he))
  have hrow : ∀ e ∈ range rows.length, t.rowRank.getD e 0 < n := by
    intro e he
    rw [h.getD_rowRank (mem_range.mp he)]
    exact h.bound _ (pairRow_mem hlen (mem_range.mp he))
  set byCol := (range n).flatMap (bucket (fun e => t.colRank.getD e 0) id
    (range rows.length)) with hbyCol
  have hcolPerm : byCol.Perm (range rows.length) := flatMap_bucket_perm hcol
  have hrow' : ∀ e ∈ byCol, t.rowRank.getD e 0 < n := fun e he =>
    hrow e (hcolPerm.mem_iff.mp he)
  have horder : (orderByCanonicalPair compress rows cols s).order =
      (range n).flatMap (bucket (fun e => t.rowRank.getD e 0) id byCol) := by
    change (countingSortPass t.rowRank n (countingSortPass t.colRank n
      (overwrite t.order rows.length 0 id) (resize t.passScratch rows.length 0)).1
        (overwrite t.order rows.length 0 id)).1 = _
    rw [hstart, countingSortPass_eq hcol hscratch, ← hbyCol,
      countingSortPass_eq hrow' hcolPerm.length_eq.symm]
  have hperm : (orderByCanonicalPair compress rows cols s).order.Perm (range rows.length) := by
    rw [horder]
    exact (flatMap_bucket_perm hrow').trans hcolPerm
  refine ⟨hperm, ?_⟩
  have hsorted : (orderByCanonicalPair compress rows cols s).order.Pairwise fun a b =>
      t.rowRank.getD a 0 < t.rowRank.getD b 0 ∨ t.rowRank.getD a 0 = t.rowRank.getD b 0 ∧
        (t.colRank.getD a 0 < t.colRank.getD b 0 ∨
          t.colRank.getD a 0 = t.colRank.getD b 0 ∧ a < b) := by
    rw [horder]
    exact flatMap_bucket_pairwise (flatMap_bucket_pairwise pairwise_lt_range n) n
  refine hsorted.imp_of_mem fun {a b} ha hb hab => ?_
  have ha := mem_range.mp (hperm.mem_iff.mp ha)
  have hb := mem_range.mp (hperm.mem_iff.mp hb)
  have hra := pairRow_mem hlen ha
  have hrb := pairRow_mem hlen hb
  have hca := pairCol_mem hlen ha
  have hcb := pairCol_mem hlen hb
  rw [h.getD_rowRank ha, h.getD_rowRank hb, h.getD_colRank ha, h.getD_colRank hb,
    h.lt_iff _ hra _ hrb, h.lt_iff _ hca _ hcb, h.inj hra hrb, h.inj hca hcb] at hab
  unfold Before
  rw [canonicalPair_lt, canonicalPair_eq]
  rcases hab with hlt | ⟨hrow, hlt | ⟨hcol, hlt⟩⟩
  · exact .inl (.inl hlt)
  · exact .inl (.inr ⟨hrow, hlt⟩)
  · exact .inr ⟨⟨hrow, hcol⟩, hlt⟩

/-- The order is the same for every compression and every scratch. -/
lemma order_unique {order order' : List ℕ} (hperm : order.Perm order')
    (h : order.Pairwise (Before rows cols)) (h' : order'.Pairwise (Before rows cols)) :
    order = order' := by
  refine hperm.eq_of_pairwise (fun a b _ _ hab hba => ?_) h h'
  rcases hab with hlt | ⟨heq, hlt⟩
  · rcases hba with hgt | ⟨heq, -⟩
    · exact absurd hgt hlt.asymm
    · exact absurd heq hlt.ne'
  · rcases hba with hgt | ⟨-, hgt⟩
    · exact absurd heq hgt.ne'
    · exact absurd hgt hlt.asymm

lemma Before.le {a b : ℕ} (h : Before rows cols a b) :
    canonicalPair rows cols a ≤ canonicalPair rows cols b := by
  rcases h with hlt | ⟨heq, -⟩
  · exact hlt.le
  · exact heq.le

/-- Two entries have the same ranks exactly when they have the same pair. -/
lemma RankMap.sameRun_eq (hlen : cols.length = rows.length) (h : RankMap rows cols t n rank)
    {a e : ℕ} (ha : a < rows.length) (he : e < rows.length) :
    t.sameRun a e = decide (canonicalPair rows cols e = canonicalPair rows cols a) := by
  have hrow := h.inj (pairRow_mem hlen he) (pairRow_mem hlen ha)
  have hcol := h.inj (pairCol_mem hlen he) (pairCol_mem hlen ha)
  rw [CooScratch.sameRun, h.getD_rowRank ha, h.getD_rowRank he, h.getD_colRank ha,
    h.getD_colRank he, Bool.eq_iff_iff, Bool.and_eq_true, beq_iff_eq, beq_iff_eq, hrow, hcol,
    decide_eq_true_iff, canonicalPair_eq]

end Order

def quadForm (entries : List (ℤ × ℤ × ℚ)) (x : ℤ → ℚ) : ℚ :=
  (entries.map fun e => e.2.2 * x e.1 * x e.2.1).sum

section Merge

variable {m : Coo} {t : CooScratch} {n : ℕ} {rank : ℤ → ℕ}

lemma takeWhile_congr {α : Type*} {p q : α → Bool} {l : List α} (h : ∀ a ∈ l, p a = q a) :
    l.takeWhile p = l.takeWhile q := by
  induction l with
  | nil => rfl
  | cons a l ih =>
    rw [takeWhile_cons, takeWhile_cons, h a mem_cons_self,
      ih fun b hb => h b (mem_cons_of_mem a hb)]

lemma dropWhile_congr {α : Type*} {p q : α → Bool} {l : List α} (h : ∀ a ∈ l, p a = q a) :
    l.dropWhile p = l.dropWhile q := by
  induction l with
  | nil => rfl
  | cons a l ih =>
    rw [dropWhile_cons, dropWhile_cons, h a mem_cons_self,
      ih fun b hb => h b (mem_cons_of_mem a hb)]

def runEntry (eps : ℚ) (m : Coo) : List ℕ → Option (ℤ × ℤ × ℚ)
  | [] => none
  | a :: rest =>
    let sum := rest.foldl (fun sum e => sum + m.val e) (m.val a)
    if eps < |sum| then some (pairRow m.rows m.cols a, pairCol m.rows m.cols a, sum) else none

lemma ofEntries_push (es : List (ℤ × ℤ × ℚ)) (e : ℤ × ℤ × ℚ) :
    (ofEntries es).push e.1 e.2.1 e.2.2 = ofEntries (es ++ [e]) := by
  simp only [Coo.push, ofEntries, map_append, map_cons, map_nil]

@[simp] lemma entries_ofEntries (es : List (ℤ × ℤ × ℚ)) : (ofEntries es).entries = es := by
  induction es with
  | nil => rfl
  | cons e es ih => exact congrArg (e :: ·) ih

lemma mergeRuns_eq (eps : ℚ) (hlen : m.cols.length = m.rows.length)
    (h : RankMap m.rows m.cols t n rank) (order : List ℕ) (hmem : ∀ e ∈ order, e < m.rows.length)
    (es : List (ℤ × ℤ × ℚ)) : mergeRuns eps m t order (ofEntries es) =
      ofEntries (es ++ (runs (canonicalPair m.rows m.cols) order).filterMap (runEntry eps m)) := by
  induction order using walk_induction t.sameRun generalizing es with
  | nil =>
    rw [mergeRuns]
    exact congrArg ofEntries (append_nil es).symm
  | cons a order ih =>
    have ha := hmem a mem_cons_self
    have hsame : ∀ e ∈ order, t.sameRun a e =
        decide (canonicalPair m.rows m.cols e = canonicalPair m.rows m.cols a) := fun e he =>
      h.sameRun_eq hlen ha (hmem e (mem_cons_of_mem a he))
    have hrest : ∀ e ∈ order.dropWhile (t.sameRun a), e < m.rows.length := fun e he =>
      hmem e (mem_cons_of_mem a ((dropWhile_sublist _).subset he))
    have hrow : t.sortedValues.getD (t.rowRank.getD a 0) 0 = pairRow m.rows m.cols a := by
      rw [h.getD_rowRank ha, h.value _ (pairRow_mem hlen ha)]
    have hcol : t.sortedValues.getD (t.colRank.getD a 0) 0 = pairCol m.rows m.cols a := by
      rw [h.getD_colRank ha, h.value _ (pairCol_mem hlen ha)]
    rw [mergeRuns, hrow, hcol, runs_cons, filterMap_cons, runEntry]
    rw [← takeWhile_congr hsame, ← dropWhile_congr hsame]
    by_cases hkept : eps < |(order.takeWhile (t.sameRun a)).foldl (fun sum e => sum + m.val e)
      (m.val a)|
    · rw [if_pos hkept, if_pos hkept]
      refine (congrArg _ (ofEntries_push es (_, _, _))).trans ?_
      rw [ih hrest, append_assoc]
      rfl
    · rw [if_neg hkept, if_neg hkept, ih hrest]

lemma foldl_add_eq (f : ℕ → ℚ) (l : List ℕ) (c : ℚ) :
    l.foldl (fun sum e => sum + f e) c = c + (l.map f).sum := by
  induction l generalizing c with
  | nil => exact (add_zero c).symm
  | cons a l ih => rw [foldl_cons, ih, map_cons, sum_cons, add_assoc]

def term (m : Coo) (x : ℤ → ℚ) (k : ℕ) : ℚ := m.val k * x (m.row k) * x (m.col k)

lemma term_eq (m : Coo) (x : ℤ → ℚ) (k : ℕ) :
    term m x k = m.val k * x (pairRow m.rows m.cols k) * x (pairCol m.rows m.cols k) := by
  unfold term pairRow pairCol Coo.row Coo.col
  rcases le_total (m.rows.getD k 0) (m.cols.getD k 0) with hle | hle
  · rw [min_eq_left hle, max_eq_right hle]
  · rw [min_eq_right hle, max_eq_left hle, mul_right_comm]

lemma quadForm_runEntry {run : List ℕ} (x : ℤ → ℚ) (hrun : ∀ a ∈ run, ∀ b ∈ run,
    canonicalPair m.rows m.cols a = canonicalPair m.rows m.cols b) :
    quadForm (runEntry 0 m run).toList x = (run.map (term m x)).sum := by
  cases run with
  | nil => rfl
  | cons a rest =>
    have hterm : ∀ e ∈ rest, term m x e =
        m.val e * (x (pairRow m.rows m.cols a) * x (pairCol m.rows m.cols a)) := by
      intro e he
      obtain ⟨hrow, hcol⟩ := canonicalPair_eq.mp (hrun e (mem_cons_of_mem a he) a mem_cons_self)
      rw [term_eq, hrow, hcol, mul_assoc]
    have hsum : ((a :: rest).map (term m x)).sum =
        (m.val a + (rest.map m.val).sum) *
          (x (pairRow m.rows m.cols a) * x (pairCol m.rows m.cols a)) := by
      rw [map_cons, sum_cons, map_congr_left hterm, sum_map_mul_right, add_mul, term_eq, mul_assoc]
    rw [hsum, runEntry, foldl_add_eq]
    by_cases hzero : m.val a + (rest.map m.val).sum = 0
    · rw [hzero, zero_mul, abs_zero, if_neg (lt_irrefl _)]
      rfl
    · rw [if_pos (abs_pos.mpr hzero)]
      simp only [quadForm, Option.toList_some, map_cons, map_nil, sum_cons,
        sum_nil, add_zero, mul_assoc]

lemma quadForm_append (es es' : List (ℤ × ℤ × ℚ)) (x : ℤ → ℚ) :
    quadForm (es ++ es') x = quadForm es x + quadForm es' x := by
  rw [quadForm, map_append, sum_append]
  rfl

lemma quadForm_filterMap (x : ℤ → ℚ) (l : List (List ℕ)) (hl : ∀ run ∈ l, ∀ a ∈ run, ∀ b ∈ run,
    canonicalPair m.rows m.cols a = canonicalPair m.rows m.cols b) :
    quadForm (l.filterMap (runEntry 0 m)) x = (l.flatten.map (term m x)).sum := by
  induction l with
  | nil => rfl
  | cons run l ih =>
    have hsplit : (run :: l).filterMap (runEntry 0 m) =
        (runEntry 0 m run).toList ++ l.filterMap (runEntry 0 m) := by
      rw [filterMap_cons]
      cases runEntry 0 m run with
      | none => rfl
      | some e => rfl
    rw [hsplit, quadForm_append, quadForm_runEntry x (hl run mem_cons_self),
      ih fun r hr => hl r (mem_cons_of_mem run hr), flatten_cons, map_append, sum_append]

section

variable (es : List (ℤ × ℤ × ℚ))
include es

lemma row_ofEntries (k : ℕ) :
    (ofEntries es).row k = (es.getD k (0, 0, 0)).1 :=
  getD_map es (0, 0, 0) fun e => e.1

lemma col_ofEntries (k : ℕ) :
    (ofEntries es).col k = (es.getD k (0, 0, 0)).2.1 :=
  getD_map es (0, 0, 0) fun e => e.2.1

lemma val_ofEntries (k : ℕ) :
    (ofEntries es).val k = (es.getD k (0, 0, 0)).2.2 :=
  getD_map es (0, 0, 0) fun e => e.2.2

lemma sum_term_range (x : ℤ → ℚ) :
    ((range es.length).map (term (ofEntries es) x)).sum = quadForm es x := by
  have hlist : (range es.length).map (term (ofEntries es) x) =
      es.map fun e => e.2.2 * x e.1 * x e.2.1 := by
    apply ext_getElem (by simp only [length_map, length_range])
    intro k hk hk'
    rw [length_map] at hk'
    rw [getElem_map, getElem_range, getElem_map, term, row_ofEntries, col_ofEntries,
      val_ofEntries, getD_eq_getElem _ _ hk']
  rw [hlist, quadForm]

end

end Merge

section Canonicalize

variable {compress : Compress} {entries : List (ℤ × ℤ × ℚ)} {order : List ℕ}

def freshScratch : CooScratch := ⟨[], [], [], [], [], [], [], [], []⟩

lemma lengths_ofEntries (entries : List (ℤ × ℤ × ℚ)) :
    (ofEntries entries).rows.length = entries.length ∧
      (ofEntries entries).cols.length = entries.length ∧
      (ofEntries entries).vals.length = entries.length :=
  ⟨length_map _, length_map _, length_map _⟩

def pairOf (entries : List (ℤ × ℤ × ℚ)) : ℕ → ℤ ×ₗ ℤ :=
  canonicalPair (ofEntries entries).rows (ofEntries entries).cols

structure Ordered (entries : List (ℤ × ℤ × ℚ)) (order : List ℕ) : Prop where
  perm : order.Perm (range entries.length)
  sorted : order.Pairwise (Before (ofEntries entries).rows (ofEntries entries).cols)

lemma ordered_orderByCanonicalPair (hc : Compresses compress) (entries : List (ℤ × ℤ × ℚ))
    (s : CooScratch) : Ordered entries (orderByCanonicalPair compress (ofEntries entries).rows
      (ofEntries entries).cols s).order := by
  obtain ⟨hrows, hcols, -⟩ := lengths_ofEntries entries
  have hlen := hcols.trans hrows.symm
  obtain ⟨rank, h⟩ := hc _ _ s hlen
  obtain ⟨hperm, hsorted⟩ := orderByCanonicalPair_order hlen h
  rw [hrows] at hperm
  exact ⟨hperm, hsorted⟩

section

variable (h : Ordered entries order)
include h

lemma Ordered.lt {k : ℕ} (hk : k ∈ order) : k < entries.length :=
  mem_range.mp (h.perm.mem_iff.mp hk)

lemma Ordered.mem {k : ℕ} (hk : k < entries.length) : k ∈ order :=
  h.perm.mem_iff.mpr (mem_range.mpr hk)

lemma Ordered.nodup : order.Nodup :=
  h.perm.nodup_iff.mpr nodup_range

lemma Ordered.pairs :
    order.Pairwise fun a b => pairOf entries a ≤ pairOf entries b :=
  h.sorted.imp Before.le

end

/-- The ordered scratch, whichever compression made it. -/
lemma orderByCanonicalPair_walk (hc : Compresses compress) (h : Ordered entries order)
    (s : CooScratch) : ∃ rank n,
    RankMap (ofEntries entries).rows (ofEntries entries).cols
      (orderByCanonicalPair compress (ofEntries entries).rows (ofEntries entries).cols s)
      n rank ∧
    (orderByCanonicalPair compress (ofEntries entries).rows (ofEntries entries).cols s).order =
      order := by
  obtain ⟨hrows, hcols, -⟩ := lengths_ofEntries entries
  obtain ⟨rank, hrank⟩ := hc _ _ s (hcols.trans hrows.symm)
  have hordered := ordered_orderByCanonicalPair hc entries s
  refine ⟨rank, _, ⟨hrank.rowRank, hrank.colRank, hrank.lt_iff, hrank.bound, hrank.value⟩, ?_⟩
  exact order_unique (hordered.perm.trans h.perm.symm) hordered.sorted h.sorted

lemma canonicalizeCooMatrixWith_eq (hc : Compresses compress) (h : Ordered entries order) (eps : ℚ)
    (s : CooScratch) :
    ∃ s', canonicalizeCooMatrixWith compress eps (ofEntries entries) s =
      .ok (ofEntries ((runs (pairOf entries) order).filterMap
        (runEntry eps (ofEntries entries))), s') := by
  obtain ⟨hrows, hcols, hvals⟩ := lengths_ofEntries entries
  have hlen := hcols.trans hrows.symm
  rw [canonicalizeCooMatrixWith, if_pos ⟨hrows.trans hvals.symm, hcols.trans hvals.symm⟩]
  by_cases hnil : (ofEntries entries).vals = []
  · have hzero : entries.length = 0 := by rw [← hvals, hnil, length_nil]
    have horder : order = [] := by
      have hperm := h.perm
      rw [hzero] at hperm
      exact hperm.eq_nil
    rw [if_pos hnil, horder]
    exact ⟨s, rfl⟩
  · obtain ⟨rank, n, hrank, horder⟩ := orderByCanonicalPair_walk hc h s
    have hmem : ∀ e ∈ order, e < (ofEntries entries).rows.length := fun e he =>
      (h.lt he).trans_eq hrows.symm
    rw [if_neg hnil]
    refine ⟨_, congrArg (fun out => Except.ok (out, _)) ?_⟩
    rw [horder]
    exact mergeRuns_eq eps hlen hrank order hmem []

lemma runEntry_of_run {eps : ℚ} {m : Coo} {run : List ℕ} {e : ℤ × ℤ × ℚ}
    (h : runEntry eps m run = some e) :
    ∃ a ∈ run, toLex (e.1, e.2.1) = canonicalPair m.rows m.cols a ∧ eps < |e.2.2| := by
  cases run with
  | nil => exact absurd h (Option.some_ne_none e).symm
  | cons a rest =>
    rw [runEntry] at h
    by_cases hkept : eps < |rest.foldl (fun sum e => sum + m.val e) (m.val a)|
    · rw [if_pos hkept, Option.some_inj] at h
      subst h
      exact ⟨a, mem_cons_self, rfl, hkept⟩
    · rw [if_neg hkept] at h
      exact absurd h (Option.some_ne_none e).symm

/-- An upper triangular matrix without zeros and repeated pairs that has the form of the entries. -/
structure IsCanonical (entries : List (ℤ × ℤ × ℚ)) (out : Coo) : Prop where
  rows_length : out.rows.length = out.vals.length
  cols_length : out.cols.length = out.vals.length
  sorted : out.entries.Pairwise fun e e' => e.1 < e'.1 ∨ e.1 = e'.1 ∧ e.2.1 < e'.2.1
  upper : ∀ e ∈ out.entries, e.1 ≤ e.2.1
  nonzero : ∀ e ∈ out.entries, e.2.2 ≠ 0
  form : ∀ x : ℤ → ℚ, quadForm out.entries x = quadForm entries x

lemma Ordered.isCanonical (h : Ordered entries order) : IsCanonical entries
    (ofEntries ((runs (pairOf entries) order).filterMap
      (runEntry 0 (ofEntries entries)))) := by
  have hform : ∀ x, quadForm ((runs (pairOf entries) order).filterMap
      (runEntry 0 (ofEntries entries))) x = quadForm entries x := by
    intro x
    have hruns := quadForm_filterMap (m := ofEntries entries) x (runs (pairOf entries) order)
      fun run hrun a ha b hb => key_eq_of_mem_run hrun ha hb
    rw [hruns, flatten_runs, (h.perm.map _).sum_eq, sum_term_range]
  set merged := (runs (pairOf entries) order).filterMap (runEntry 0 (ofEntries entries))
    with hmerged
  obtain ⟨hrows, hcols, hvals⟩ := lengths_ofEntries merged
  refine ⟨hrows.trans hvals.symm, hcols.trans hvals.symm, ?_, ?_, ?_, ?_⟩
  · rw [entries_ofEntries, hmerged, pairwise_filterMap]
    refine (runs_pairwise h.pairs).imp fun hlt e he e' he' => ?_
    obtain ⟨a, ha, hpair, -⟩ := runEntry_of_run he
    obtain ⟨b, hb, hpair', -⟩ := runEntry_of_run he'
    have hkeys : toLex (e.1, e.2.1) < toLex (e'.1, e'.2.1) := by
      rw [hpair, hpair']
      exact hlt a ha b hb
    exact Prod.Lex.toLex_lt_toLex.mp hkeys
  · intro e he
    rw [entries_ofEntries] at he
    obtain ⟨run, -, hrun⟩ := mem_filterMap.mp he
    obtain ⟨a, -, hpair, -⟩ := runEntry_of_run hrun
    obtain ⟨hrow, hcol⟩ := Prod.mk_inj.mp (toLex_inj.mp hpair)
    rw [hrow, hcol]
    exact min_le_max
  · intro e he
    rw [entries_ofEntries] at he
    obtain ⟨run, -, hrun⟩ := mem_filterMap.mp he
    obtain ⟨a, -, -, hvalue⟩ := runEntry_of_run hrun
    exact abs_pos.mp hvalue
  · rw [entries_ofEntries]
    exact hform

/-- Canonicalizing entries never fails, and the matrix does not depend on the scratch or on the way
the indices are compressed. -/
lemma canonicalizeCooMatrix_exact (entries : List (ℤ × ℤ × ℚ)) :
    ∃ out : Coo, IsCanonical entries out ∧
      (∀ s, ∃ s', canonicalizeCooMatrix 0 (ofEntries entries) s = .ok (out, s')) ∧
      (∀ s, ∃ s', canonicalizeCooMatrixWith compressDirect 0 (ofEntries entries) s =
        .ok (out, s')) ∧
      ∀ s, ∃ s', canonicalizeCooMatrixWith compressRanking 0 (ofEntries entries) s =
        .ok (out, s') := by
  have h := ordered_orderByCanonicalPair compresses_direct entries freshScratch
  generalize (orderByCanonicalPair compressDirect (ofEntries entries).rows
    (ofEntries entries).cols freshScratch).order = order at h
  exact ⟨_, h.isCanonical, canonicalizeCooMatrixWith_eq compresses_canonicalPairs h 0,
    canonicalizeCooMatrixWith_eq compresses_direct h 0,
    canonicalizeCooMatrixWith_eq compresses_ranking h 0⟩

end Canonicalize

section Check

variable {m : Coo} {t : CooScratch} {n : ℕ} {rank : ℤ → ℕ} {entries : List (ℤ × ℤ × ℚ)}
  {order : List ℕ} {a b : ℕ}

inductive RunPasses (m : Coo) : List ℕ → Prop
  | diagonal (a : ℕ) (h : m.row a = m.col a) : RunPasses m [a]
  | pair (a b : ℕ) (hoff : m.row a ≠ m.col a) (hrow : m.row a ≠ m.row b) (hval : m.val a = m.val b) :
    RunPasses m [a, b]

lemma checkRun_ok_iff (hlen : m.cols.length = m.rows.length) (h : RankMap m.rows m.cols t n rank)
    (ha : a < m.rows.length) (rest : List ℕ) :
    checkRun 0 m t a rest = .ok () ↔ RunPasses m (a :: rest) := by
  have hdiagonal : t.rowRank.getD a 0 = t.colRank.getD a 0 ↔ m.row a = m.col a := by
    rw [h.getD_rowRank ha, h.getD_colRank ha, h.inj (pairRow_mem hlen ha) (pairCol_mem hlen ha)]
    exact inf_eq_sup
  unfold checkRun
  by_cases hdiag : m.row a = m.col a
  · rw [if_pos (hdiagonal.mpr hdiag)]
    cases rest with
    | nil => exact ⟨fun _ => .diagonal a hdiag, fun _ => rfl⟩
    | cons b more =>
      rw [if_neg (cons_ne_nil b more)]
      constructor
      · exact nofun
      · intro hpass
        cases hpass with
        | pair _ _ hoff => exact absurd hdiag hoff
  · rw [if_neg fun heq => hdiag (hdiagonal.mp heq)]
    cases rest with
    | nil =>
      constructor
      · exact nofun
      · intro hpass
        cases hpass with
        | diagonal _ heq => exact absurd heq hdiag
    | cons b more =>
      dsimp only
      by_cases hshape : more = [] ∧ m.row a ≠ m.row b
      · obtain ⟨rfl, hrow⟩ := hshape
        rw [if_pos ⟨rfl, hrow⟩]
        have hvalue : |m.val a - m.val b| ≤ 0 ↔ m.val a = m.val b := by
          rw [abs_nonpos_iff, sub_eq_zero]
        by_cases hval : m.val a = m.val b
        · rw [if_pos (hvalue.mpr hval)]
          exact ⟨fun _ => .pair a b hdiag hrow hval, fun _ => rfl⟩
        · rw [if_neg fun hle => hval (hvalue.mp hle)]
          constructor
          · exact nofun
          · intro hpass
            cases hpass with
            | pair _ _ _ _ heq => exact absurd heq hval
      · rw [if_neg hshape]
        constructor
        · exact nofun
        · intro hpass
          cases hpass with
          | pair _ _ _ hrow => exact absurd ⟨rfl, hrow⟩ hshape

lemma checkRuns_ok_iff (hlen : m.cols.length = m.rows.length) (h : RankMap m.rows m.cols t n rank)
    (order : List ℕ) (hmem : ∀ e ∈ order, e < m.rows.length) :
    checkRuns 0 m t order = .ok () ↔
      ∀ run ∈ runs (canonicalPair m.rows m.cols) order, RunPasses m run := by
  induction order using walk_induction t.sameRun with
  | nil =>
    rw [checkRuns]
    exact ⟨fun _ run hrun => absurd hrun not_mem_nil, fun _ => rfl⟩
  | cons a order ih =>
    have ha := hmem a mem_cons_self
    have hsame : ∀ e ∈ order, t.sameRun a e =
        decide (canonicalPair m.rows m.cols e = canonicalPair m.rows m.cols a) := fun e he =>
      h.sameRun_eq hlen ha (hmem e (mem_cons_of_mem a he))
    have hrest : ∀ e ∈ order.dropWhile (t.sameRun a), e < m.rows.length := fun e he =>
      hmem e (mem_cons_of_mem a ((dropWhile_sublist _).subset he))
    have hrun := checkRun_ok_iff hlen h ha (order.takeWhile (t.sameRun a))
    rw [checkRuns, runs_cons, ← takeWhile_congr hsame, ← dropWhile_congr hsame, forall_mem_cons,
      ← hrun, ← ih hrest]
    cases checkRun 0 m t a (order.takeWhile (t.sameRun a)) with
    | error e =>
      exact iff_of_false (by rintro ⟨⟩) (by rintro ⟨⟨⟩, -⟩)
    | ok u => exact ⟨fun hrest => ⟨rfl, hrest⟩, fun hboth => hboth.2⟩

structure IsSymmetric (entries : List (ℤ × ℤ × ℚ)) : Prop where
  nodup : (entries.map fun e => (e.1, e.2.1)).Nodup
  transpose : ∀ e ∈ entries, (e.2.1, e.1, e.2.2) ∈ entries

lemma isSymmetric_iff (entries : List (ℤ × ℤ × ℚ)) : IsSymmetric entries ↔
    (∀ k < entries.length, ∀ k' < entries.length,
      (ofEntries entries).row k = (ofEntries entries).row k' →
        (ofEntries entries).col k = (ofEntries entries).col k' → k = k') ∧
    ∀ k < entries.length, ∃ k' < entries.length,
      (ofEntries entries).row k' = (ofEntries entries).col k ∧
        (ofEntries entries).col k' = (ofEntries entries).row k ∧
        (ofEntries entries).val k' = (ofEntries entries).val k := by
  simp only [row_ofEntries, col_ofEntries, val_ofEntries]
  constructor
  · rintro ⟨hnodup, htranspose⟩
    constructor
    · intro k hk k' hk' hrow hcol
      rw [getD_eq_getElem _ _ hk, getD_eq_getElem _ _ hk'] at hrow hcol
      have hlt : k < (entries.map fun e => (e.1, e.2.1)).length := by rwa [length_map]
      have hlt' : k' < (entries.map fun e => (e.1, e.2.1)).length := by rwa [length_map]
      refine (@Nodup.getElem_inj_iff _ _ hnodup k hlt k' hlt').mp ?_
      rw [getElem_map, getElem_map]
      exact ext hrow hcol
    · intro k hk
      obtain ⟨k', hk', heq⟩ := getElem_of_mem (htranspose _ (getElem_mem hk))
      refine ⟨k', hk', ?_⟩
      rw [getD_eq_getElem _ _ hk, getD_eq_getElem _ _ hk', heq]
      exact ⟨rfl, rfl, rfl⟩
  · rintro ⟨hinj, htranspose⟩
    constructor
    · rw [Nodup, pairwise_iff_getElem]
      intro k k' hk hk' hlt heq
      rw [length_map] at hk hk'
      rw [getElem_map, getElem_map] at heq
      obtain ⟨hrow, hcol⟩ := Prod.mk_inj.mp heq
      refine hlt.ne (hinj k hk k' hk' ?_ ?_)
      · rwa [getD_eq_getElem _ _ hk, getD_eq_getElem _ _ hk']
      · rwa [getD_eq_getElem _ _ hk, getD_eq_getElem _ _ hk']
    · intro e he
      obtain ⟨k, hk, rfl⟩ := getElem_of_mem he
      obtain ⟨k', hk', hrow, hcol, hval⟩ := htranspose k hk
      rw [getD_eq_getElem _ _ hk, getD_eq_getElem _ _ hk'] at hrow hcol hval
      have hentry : entries[k'] = (entries[k].2.1, entries[k].1, entries[k].2.2) :=
        ext hrow (ext hcol hval)
      rw [← hentry]
      exact getElem_mem hk'

/-- Two entries have one pair when they stand in the same place or in transposed places. -/
lemma pairOf_eq {k k' : ℕ} : pairOf entries k = pairOf entries k' ↔
    ((ofEntries entries).row k = (ofEntries entries).row k' ∧
        (ofEntries entries).col k = (ofEntries entries).col k') ∨
      ((ofEntries entries).row k = (ofEntries entries).col k' ∧
        (ofEntries entries).col k = (ofEntries entries).row k') := by
  rw [pairOf, canonicalPair_eq]
  unfold pairRow pairCol Coo.row Coo.col
  omega

lemma Ordered.isSymmetric (h : Ordered entries order)
    (hpass : ∀ run ∈ runs (pairOf entries) order, RunPasses (ofEntries entries) run) :
    IsSymmetric entries := by
  rw [isSymmetric_iff]
  constructor
  · intro k hk k' hk' hrow hcol
    obtain ⟨run, hrun, hmem⟩ := exists_run (pairOf entries) (h.mem hk)
    have hmem' : k' ∈ run := mem_run_of_key h.pairs hrun hmem (h.mem hk')
      (pairOf_eq.mpr (.inl ⟨hrow.symm, hcol.symm⟩))
    cases hpass run hrun with
    | diagonal a _ =>
      rw [mem_singleton.mp hmem, mem_singleton.mp hmem']
    | pair a b _ hne _ =>
      rcases mem_pair.mp hmem with rfl | rfl
      · rcases mem_pair.mp hmem' with rfl | rfl
        · rfl
        · exact absurd hrow hne
      · rcases mem_pair.mp hmem' with rfl | rfl
        · exact absurd hrow.symm hne
        · rfl
  · intro k hk
    obtain ⟨run, hrun, hmem⟩ := exists_run (pairOf entries) (h.mem hk)
    cases hpass run hrun with
    | diagonal a hdiag =>
      obtain rfl := mem_singleton.mp hmem
      exact ⟨k, hk, hdiag, hdiag.symm, rfl⟩
    | pair a b _ hne hval =>
      have hb : b ∈ [a, b] := mem_cons_of_mem a mem_cons_self
      have ha : a ∈ [a, b] := mem_cons_self
      have hkey := key_eq_of_mem_run hrun ha hb
      rcases pairOf_eq.mp hkey with hsame | ⟨hrow, hcol⟩
      · exact absurd hsame.1 hne
      · rcases mem_pair.mp hmem with rfl | rfl
        · exact ⟨b, h.lt (mem_of_mem_run hrun hb), hcol.symm, hrow.symm, hval.symm⟩
        · exact ⟨a, h.lt (mem_of_mem_run hrun ha), hrow, hcol, hval⟩

lemma Ordered.runPasses (h : Ordered entries order) (hsymm : IsSymmetric entries) {run : List ℕ}
    (hrun : run ∈ runs (pairOf entries) order) : RunPasses (ofEntries entries) run := by
  obtain ⟨hinj, htranspose⟩ := (isSymmetric_iff entries).mp hsymm
  have hnodup : run.Nodup := by
    have hflat := h.nodup
    rw [← flatten_runs (pairOf entries) order] at hflat
    exact (nodup_flatten.mp hflat).1 run hrun
  have hlt : ∀ k ∈ run, k < entries.length := fun k hk => h.lt (mem_of_mem_run hrun hk)
  cases run with
  | nil => exact absurd rfl (ne_nil_of_mem_runs hrun)
  | cons a rest =>
    have ha : a < entries.length := hlt a mem_cons_self
    obtain ⟨hfresh, hrest⟩ := nodup_cons.mp hnodup
    have hkeys : ∀ c ∈ rest, pairOf entries c = pairOf entries a := fun c hc =>
      key_eq_of_mem_run hrun (mem_cons_of_mem a hc) mem_cons_self
    obtain ⟨b, hb, hrow, hcol, hval⟩ := htranspose a ha
    -- The other members of the run are the transposed entry of its first one.
    have hother : ∀ c ∈ rest, c = b := by
      intro c hc
      have hc' := hlt c (mem_cons_of_mem a hc)
      rcases pairOf_eq.mp (hkeys c hc) with ⟨hr, hcl⟩ | ⟨hr, hcl⟩
      · exact absurd (hinj c hc' a ha hr hcl ▸ hc) hfresh
      · exact hinj c hc' b hb (hr.trans hrow.symm) (hcl.trans hcol.symm)
    by_cases hdiag : (ofEntries entries).row a = (ofEntries entries).col a
    · have hself : b = a := hinj b hb a ha (hrow.trans hdiag.symm) (hcol.trans hdiag)
      cases rest with
      | nil => exact .diagonal a hdiag
      | cons c more =>
        have hc : c = a := (hother c mem_cons_self).trans hself
        exact absurd (hc ▸ mem_cons_self) hfresh
    · have hmem : b ∈ a :: rest := mem_run_of_key h.pairs hrun mem_cons_self (h.mem hb)
        (pairOf_eq.mpr (.inr ⟨hrow, hcol⟩))
      have hne : (ofEntries entries).row a ≠ (ofEntries entries).row b := by
        rw [hrow]
        exact hdiag
      cases rest with
      | nil =>
        rw [mem_singleton.mp hmem] at hne
        exact absurd rfl hne
      | cons c more =>
        obtain rfl := hother c mem_cons_self
        cases more with
        | nil => exact .pair a c hdiag hne hval.symm
        | cons d more =>
          have hd : d = c := hother d (mem_cons_of_mem c mem_cons_self)
          exact absurd (hd ▸ mem_cons_self) (nodup_cons.mp hrest).1

/-- The check accepts the entries that are their own transpose, without a place twice. -/
lemma checkSymmetricOffdiagonalPairs_ok_iff (entries : List (ℤ × ℤ × ℚ)) (s : CooScratch) :
    (∃ s', checkSymmetricOffdiagonalPairs 0 (ofEntries entries) s = .ok s') ↔
      IsSymmetric entries := by
  obtain ⟨hrows, hcols, hvals⟩ := lengths_ofEntries entries
  have hlen := hcols.trans hrows.symm
  rw [checkSymmetricOffdiagonalPairs, if_pos ⟨hrows.trans hvals.symm, hcols.trans hvals.symm⟩]
  by_cases hnil : (ofEntries entries).vals = []
  · have hentries : entries = [] := map_eq_nil_iff.mp hnil
    rw [if_pos hnil, hentries]
    exact ⟨fun _ => ⟨nodup_nil, nofun⟩, fun _ => ⟨s, rfl⟩⟩
  · have h := ordered_orderByCanonicalPair compresses_canonicalPairs entries s
    obtain ⟨rank, n, hrank, -⟩ := orderByCanonicalPair_walk compresses_canonicalPairs h s
    have hmem : ∀ e ∈ (orderByCanonicalPair compressCanonicalPairs (ofEntries entries).rows
        (ofEntries entries).cols s).order, e < (ofEntries entries).rows.length :=
      fun e he => (h.lt he).trans_eq hrows.symm
    have hruns := checkRuns_ok_iff hlen hrank _ hmem
    rw [if_neg hnil]
    dsimp only
    constructor
    · rintro ⟨s', hs'⟩
      refine h.isSymmetric (hruns.mp ?_)
      cases hcheck : checkRuns 0 (ofEntries entries) (orderByCanonicalPair compressCanonicalPairs
          (ofEntries entries).rows (ofEntries entries).cols s)
          (orderByCanonicalPair compressCanonicalPairs (ofEntries entries).rows
            (ofEntries entries).cols s).order with
      | error e =>
        rw [hcheck] at hs'
        exact nomatch hs'
      | ok u => rfl
    · intro hsymm
      rw [hruns.mpr fun run hrun => h.runPasses hsymm hrun]
      exact ⟨_, rfl⟩

end Check

/-- For entries in any order, repeated and in both orientations, and for every scratch: the canonical
matrix is exact and the same in both ways of compressing, and the check accepts symmetric entries. -/
theorem cooCanonicalization_exact (entries : List (ℤ × ℤ × ℚ)) :
    (∃ out : Coo, IsCanonical entries out ∧
      (∀ s, ∃ s', canonicalizeCooMatrix 0 (ofEntries entries) s = .ok (out, s')) ∧
      (∀ s, ∃ s', canonicalizeCooMatrixWith compressDirect 0 (ofEntries entries) s =
        .ok (out, s')) ∧
      ∀ s, ∃ s', canonicalizeCooMatrixWith compressRanking 0 (ofEntries entries) s =
        .ok (out, s')) ∧
      ∀ s, (∃ s', checkSymmetricOffdiagonalPairs 0 (ofEntries entries) s = .ok s') ↔
        IsSymmetric entries :=
  ⟨canonicalizeCooMatrix_exact entries, checkSymmetricOffdiagonalPairs_ok_iff entries⟩

end CuOpt.Io
