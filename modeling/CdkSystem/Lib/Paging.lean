import Mathlib.Data.List.Sort
import Mathlib.Tactic

/-!
# Pages of a list

`slice` is SQL's `LIMIT` and `OFFSET` on a list of rows, and `pageCount` the number of pages of a
size. The pages of one list put together are the list (`flatMap_slice`).

When every page is cut from a list that was sorted anew by a key which may not determine the order
(`SortedBy`), the pages put together have the same rows exactly if at every page boundary the keys
differ (`pages_perm_iff`): two rows with the same key can change places between two queries, and
then one row is on both pages and the other on none.
-/

namespace Paging

variable {α : Type}

/-- The part `LIMIT limit OFFSET offset` of a list that is in its order already. -/
def slice (limit offset : ℕ) (rows : List α) : List α := (rows.drop offset).take limit

/-- The number of pages that so many rows fill, rounded up. -/
def pageCount (total perPage : ℕ) : ℕ := total / perPage + if 0 < total % perPage then 1 else 0

/-- A page behind what comes before it. -/
theorem take_append_slice (limit offset : ℕ) (rows : List α) :
    rows.take offset ++ slice limit offset rows = rows.take (offset + limit) := by
  unfold slice
  exact List.take_add.symm

/-- The first pages put together are the first rows. -/
theorem flatMap_slice_range (perPage pages : ℕ) (rows : List α) :
    (List.range pages).flatMap (fun k => slice perPage (k * perPage) rows) =
      rows.take (pages * perPage) := by
  induction pages with
  | zero => simp
  | succ pages ih =>
    rw [List.range_succ, List.flatMap_append, ih, List.flatMap_singleton, take_append_slice,
      Nat.succ_mul]

/-- The pages have room for all rows. -/
theorem le_pageCount_mul {perPage : ℕ} (h : 0 < perPage) (total : ℕ) :
    total ≤ pageCount total perPage * perPage := by
  unfold pageCount
  have hdiv := Nat.div_add_mod total perPage
  have hlt := Nat.mod_lt total h
  rw [Nat.add_mul, Nat.mul_comm]
  split_ifs with hmod <;> omega

/-- The last page is not empty: its first row is one of those that there are. -/
theorem pageCount_pred_mul_lt {perPage total : ℕ} (h : 0 < total) :
    (pageCount total perPage - 1) * perPage < total := by
  unfold pageCount
  have hdiv := Nat.div_add_mod total perPage
  rw [Nat.mul_comm] at hdiv
  split_ifs with hmod
  · rw [Nat.add_sub_cancel]
    omega
  · have hpos : 0 < total / perPage := by
      by_contra hzero
      rw [not_lt, Nat.le_zero] at hzero
      rw [hzero] at hdiv
      omega
    have hper : 0 < perPage := by
      rcases Nat.eq_zero_or_pos perPage with hz | hz
      · rw [hz] at hpos
        simp at hpos
      · exact hz
    rw [Nat.add_zero, Nat.sub_mul, Nat.one_mul]
    have hle : perPage ≤ total / perPage * perPage := Nat.le_mul_of_pos_left perPage hpos
    omega

/-- So many pages have room for all rows exactly if no more are reported. -/
theorem pageCount_le_iff {perPage total k : ℕ} (h : 0 < perPage) :
    pageCount total perPage ≤ k ↔ total ≤ k * perPage := by
  constructor
  · intro hle
    exact (le_pageCount_mul h total).trans (Nat.mul_le_mul_right perPage hle)
  · intro hle
    rcases Nat.eq_zero_or_pos total with hzero | hpos
    · simp [hzero, pageCount]
    · have hlast : (pageCount total perPage - 1) * perPage < k * perPage :=
        (pageCount_pred_mul_lt hpos).trans_le hle
      have hlt := lt_of_mul_lt_mul_right hlast (Nat.zero_le perPage)
      omega

/-- Lists of limited length put together have a limited length. -/
theorem length_flatMap_le {β : Type} {l : List β} {g : β → List α} {n : ℕ}
    (h : ∀ b ∈ l, (g b).length ≤ n) : (l.flatMap g).length ≤ l.length * n := by
  induction l with
  | nil => simp
  | cons b l ih =>
    have hb := h b List.mem_cons_self
    have hl := ih fun b' hb' => h b' (List.mem_cons_of_mem b hb')
    rw [List.flatMap_cons, List.length_append, List.length_cons, Nat.succ_mul]
    omega

/-- All pages of a list put together are the list. -/
theorem flatMap_slice {perPage : ℕ} (h : 0 < perPage) (rows : List α) :
    (List.range (pageCount rows.length perPage)).flatMap
      (fun k => slice perPage (k * perPage) rows) = rows := by
  rw [flatMap_slice_range, List.take_of_length_le (le_pageCount_mul h rows.length)]

/-- There is nothing behind the last page. -/
theorem slice_eq_nil {perPage k : ℕ} (h : 0 < perPage) {rows : List α}
    (hk : pageCount rows.length perPage ≤ k) : slice perPage (k * perPage) rows = [] := by
  unfold slice
  have hle : rows.length ≤ k * perPage :=
    (le_pageCount_mul h rows.length).trans (Nat.mul_le_mul_right perPage hk)
  rw [List.drop_of_length_le hle, List.take_nil]

/-! ## Sorting by a key -/

section Sorting

variable {κ : Type} [LinearOrder κ] {f : α → κ} {rows : List α}

/-- Rows that are sorted by a key descend. -/
theorem pairwise_mergeSort_desc (f : α → κ) (rows : List α) :
    (rows.mergeSort fun a b => f b ≤ f a).Pairwise fun a b => f b ≤ f a := by
  have htrans : ∀ a b c : α, decide (f b ≤ f a) = true → decide (f c ≤ f b) = true →
      decide (f c ≤ f a) = true := by
    intro a b c hab hbc
    have hab' := of_decide_eq_true hab
    have hbc' := of_decide_eq_true hbc
    exact decide_eq_true (hbc'.trans hab')
  have htotal : ∀ a b : α, (decide (f b ≤ f a) || decide (f a ≤ f b)) = true := by
    intro a b
    rcases le_total (f b) (f a) with hle | hle
    · simp [hle]
    · simp [hle]
  exact (List.pairwise_mergeSort htrans htotal rows).imp fun h => of_decide_eq_true h

/-- Rows with distinct keys have one order. -/
theorem eq_of_sorted {l l' : List α} (hnodup : (l.map f).Nodup)
    (h : l.Pairwise fun a b => f b ≤ f a) (h' : l'.Pairwise fun a b => f b ≤ f a)
    (hperm : l.Perm l') : l = l' := by
  refine List.Perm.eq_of_pairwise ?_ h h' hperm
  intro a b ha hb hba hab
  have hb' := hperm.mem_iff.mpr hb
  exact List.inj_on_of_nodup_map hnodup ha hb' (le_antisymm hab hba)

/-- Of rows with distinct keys, some are sorted as they are in the order of all. -/
theorem mergeSort_filter (hnodup : (rows.map f).Nodup) (p : α → Bool) :
    ((rows.filter p).mergeSort fun a b => f b ≤ f a) =
      (rows.mergeSort fun a b => f b ≤ f a).filter p := by
  have hsome := List.mergeSort_perm (rows.filter p) fun a b => decide (f b ≤ f a)
  have hall := (List.mergeSort_perm rows fun a b => decide (f b ≤ f a)).filter p
  have hdistinct : ((rows.filter p).map f).Nodup := hnodup.sublist (List.filter_sublist.map f)
  refine eq_of_sorted (f := f) ((hsome.map f).nodup_iff.mpr hdistinct) ?_ ?_
    (hsome.trans hall.symm)
  · exact pairwise_mergeSort_desc f _
  · exact (pairwise_mergeSort_desc f rows).filter p

end Sorting

/-! ## Rows that are sorted anew for each page -/

section Sorted

variable (f : α → ℤ)

/-- The rows in an order with descending keys. -/
structure SortedBy (rows order : List α) : Prop where
  perm : order.Perm rows
  sorted : order.Pairwise fun a b => f b ≤ f a

variable {f} {rows order order' : List α} {p : ℕ}

/-- All orders have the same list of keys. -/
theorem SortedBy.map_eq (h : SortedBy f rows order) (h' : SortedBy f rows order') :
    order.map f = order'.map f := by
  have hperm : (order.map f).Perm (order'.map f) := (h.perm.trans h'.perm.symm).map f
  have hsorted : (order.map f).Pairwise fun a b => b ≤ a := List.pairwise_map.mpr h.sorted
  have hsorted' : (order'.map f).Pairwise fun a b => b ≤ a := List.pairwise_map.mpr h'.sorted
  exact List.Perm.eq_of_pairwise (fun a b _ _ hba hab => le_antisymm hab hba) hsorted hsorted' hperm

/-- The keys of two orders agree at every position. -/
theorem SortedBy.key_eq (h : SortedBy f rows order) (h' : SortedBy f rows order')
    (hp : p < order.length) (hp' : p < order'.length) : f order[p] = f order'[p] := by
  have hmap := h.map_eq h'
  have hget : (order.map f)[p]? = (order'.map f)[p]? := by rw [hmap]
  simpa [List.getElem?_eq_getElem, hp, hp'] using hget

/-- At a position where the keys differ, what comes before it are the rows with greater keys. -/
theorem SortedBy.take_eq_filter (h : SortedBy f rows order) (hp : p + 1 < order.length)
    (hne : f order[p] ≠ f order[p + 1]) :
    order.take (p + 1) = order.filter fun a => f order[p + 1] < f a := by
  have hsorted := h.sorted
  have hle : ∀ i j (hi : i < order.length) (hj : j < order.length), i < j →
      f order[j] ≤ f order[i] :=
    fun i j hi hj hij => List.pairwise_iff_getElem.mp hsorted i j hi hj hij
  have hlt : f order[p + 1] < f order[p] :=
    lt_of_le_of_ne (hle p (p + 1) (by omega) hp (by omega)) hne.symm
  -- Up to `p` the keys do not go below that of `p`, which is above the next one.
  have hbefore : ∀ a ∈ order.take (p + 1), f order[p + 1] < f a := by
    intro a ha
    obtain ⟨i, hi, rfl⟩ := List.getElem_of_mem ha
    rw [List.length_take] at hi
    rw [List.getElem_take]
    rcases Nat.lt_or_ge i p with hip | hip
    · exact hlt.trans_le (hle i p (by omega) (by omega) hip)
    · have hip' : i = p := by omega
      subst hip'
      exact hlt
  -- From `p + 1` on they do not go above it.
  have hafter : ∀ a ∈ order.drop (p + 1), ¬ f order[p + 1] < f a := by
    intro a ha
    obtain ⟨i, hi, rfl⟩ := List.getElem_of_mem ha
    rw [List.length_drop] at hi
    rw [List.getElem_drop, not_lt]
    rcases Nat.eq_zero_or_pos i with hi0 | hi0
    · subst hi0
      exact le_refl _
    · exact hle (p + 1) (p + 1 + i) hp (by omega) (by omega)
  generalize f order[p + 1] = t at hbefore hafter ⊢
  conv_rhs => rw [← List.take_append_drop (p + 1) order]
  rw [List.filter_append, List.filter_eq_self.mpr fun a ha => decide_eq_true (hbefore a ha),
    List.filter_eq_nil_iff.mpr fun a ha => by simpa using hafter a ha, List.append_nil]

/-- The keys on both sides of a position are different. -/
def Breaks (f : α → ℤ) (order : List α) (p : ℕ) : Prop :=
  ∀ hp : p < order.length, 0 < p → f (order.get ⟨p - 1, by omega⟩) ≠ f (order.get ⟨p, hp⟩)

/-- At such a position, all orders have the same rows before it. -/
theorem SortedBy.take_perm (h : SortedBy f rows order) (h' : SortedBy f rows order')
    (hbreak : Breaks f order p) : (order.take p).Perm (order'.take p) := by
  have hperm : order.Perm order' := h.perm.trans h'.perm.symm
  have hlen : order.length = order'.length := hperm.length_eq
  rcases Nat.eq_zero_or_pos p with rfl | hpos
  · simp
  rcases Nat.lt_or_ge p order.length with hp | hp
  · obtain ⟨q, rfl⟩ : ∃ q, p = q + 1 := ⟨p - 1, by omega⟩
    have hne : f order[q] ≠ f order[q + 1] := hbreak hp hpos
    have h1 := h.key_eq h' (p := q) (by omega) (by omega)
    have h2 := h.key_eq h' hp (by omega)
    have hne' : f order'[q] ≠ f order'[q + 1] := by rwa [← h1, ← h2]
    rw [h.take_eq_filter hp hne, h'.take_eq_filter (by omega) hne', h2]
    exact hperm.filter _
  · rw [List.take_of_length_le hp, List.take_of_length_le (by omega)]
    exact hperm

/-- If the keys differ at every page boundary, the first pages put together have the first rows of
every order. -/
theorem SortedBy.flatMap_perm {n : ℕ} (h : SortedBy f rows order)
    (hbreaks : ∀ k, Breaks f order (k * n)) {orders : ℕ → List α}
    (horders : ∀ k, SortedBy f rows (orders k)) (pages : ℕ) :
    ((List.range pages).flatMap fun k => slice n (k * n) (orders k)).Perm
      (order.take (pages * n)) := by
  induction pages with
  | zero => simp
  | succ pages ih =>
    have hbefore := h.take_perm (horders pages) (hbreaks pages)
    have hafter := h.take_perm (horders pages) (hbreaks (pages + 1))
    rw [Nat.succ_mul] at hafter ⊢
    rw [List.range_succ, List.flatMap_append, List.flatMap_singleton]
    refine List.Perm.trans ?_ hafter.symm
    rw [← take_append_slice]
    exact (ih.trans hbefore).append_right _

/-- Two neighbours with the same key can change places. -/
theorem SortedBy.swap (h : SortedBy f rows order) (hp : p + 1 < order.length)
    (heq : f order[p] = f order[p + 1]) :
    SortedBy f rows (order.take p ++ order[p + 1] :: order[p] :: order.drop (p + 2)) := by
  have hsplit : order = order.take p ++ order[p] :: order[p + 1] :: order.drop (p + 2) := by
    rw [← List.drop_eq_getElem_cons, ← List.drop_eq_getElem_cons, List.take_append_drop]
  have hmap : (order.take p ++ order[p + 1] :: order[p] :: order.drop (p + 2)).map f =
      order.map f := by
    conv_rhs => rw [hsplit]
    simp only [List.map_append, List.map_cons, heq]
  constructor
  · refine List.Perm.trans ?_ h.perm
    conv_rhs => rw [hsplit]
    exact (List.Perm.swap _ _ _).append_left _
  · have hpair : (order.map f).Pairwise fun a b => b ≤ a := List.pairwise_map.mpr h.sorted
    rw [← hmap] at hpair
    exact List.pairwise_map.mp hpair

/-- If the pages put together have all rows once, whatever order each one is cut from, the keys
differ at every page boundary: otherwise the row before it can come first on the next page, too. -/
theorem SortedBy.breaks {n : ℕ} (hn : 0 < n) (hnodup : rows.Nodup) (h : SortedBy f rows order)
    (hall : ∀ orders : ℕ → List α, (∀ k, SortedBy f rows (orders k)) →
      ((List.range (pageCount rows.length n)).flatMap fun k => slice n (k * n)
        (orders k)).Perm rows)
    (k : ℕ) : Breaks f order (k * n) := by
  intro hp hpos heq
  obtain ⟨q, hq⟩ : ∃ q, k * n = q + 1 := ⟨k * n - 1, by omega⟩
  obtain ⟨j, rfl⟩ : ∃ j, k = j + 1 := ⟨k - 1, by rcases k with _ | k <;> omega⟩
  have hjn : (j + 1) * n = j * n + n := Nat.succ_mul j n
  have hq' : q + 1 < order.length := by omega
  have heq' : f order[q] = f order[q + 1] := by
    simpa only [hq, Nat.add_sub_cancel, List.get_eq_getElem] using heq
  -- All pages are cut from the one order, except for the page behind the boundary.
  have hswap := h.swap hq' heq'
  generalize horder' : order.take q ++ order[q + 1] :: order[q] :: order.drop (q + 2) =
    order' at hswap
  have hperm := hall (fun i => if i = j + 1 then order' else order) fun i => by
    split_ifs
    · exact hswap
    · exact h
  have hdistinct := hperm.nodup_iff.mpr hnodup
  rw [List.nodup_flatMap] at hdistinct
  have hpages : j + 1 < pageCount rows.length n := by
    have hle := le_pageCount_mul hn rows.length
    rw [← h.perm.length_eq] at hle ⊢
    exact lt_of_mul_lt_mul_right (hp.trans_le hle) (Nat.zero_le n)
  have hdisjoint := List.pairwise_iff_getElem.mp hdistinct.2 j (j + 1)
    (by simpa using Nat.lt_of_succ_lt hpages) (by simpa using hpages) (Nat.lt_succ_self j)
  simp only [List.getElem_range, Function.onFun, if_true, Nat.ne_of_lt, Nat.lt_succ_self,
    if_false] at hdisjoint
  -- The row before the boundary is on both pages.
  have hfirst : order[q] ∈ slice n (j * n) order := by
    refine List.mem_of_getElem? (i := n - 1) ?_
    have hidx : j * n + (n - 1) = q := by omega
    have hlt : n - 1 < n := by omega
    simp [slice, List.getElem?_drop, hidx, hlt]
  have hsecond : order[q] ∈ slice n ((j + 1) * n) order' := by
    refine List.mem_of_getElem? (i := 0) ?_
    have hmin : min q order.length = q := by omega
    have hidx : q + 1 - q = 1 := by omega
    rw [← horder']
    simp [slice, hq, hn, hmin, hidx]
  exact hdisjoint hfirst hsecond

/-- The pages put together have all rows once, whatever order each one is cut from, exactly if the
keys differ at every page boundary. -/
theorem pages_perm_iff {n : ℕ} (hn : 0 < n) (hnodup : rows.Nodup) (h : SortedBy f rows order) :
    (∀ orders : ℕ → List α, (∀ k, SortedBy f rows (orders k)) →
      ((List.range (pageCount rows.length n)).flatMap fun k => slice n (k * n)
        (orders k)).Perm rows) ↔
    ∀ k, Breaks f order (k * n) := by
  refine ⟨fun hall k => h.breaks hn hnodup hall k, fun hbreaks orders horders => ?_⟩
  have hperm := h.flatMap_perm hbreaks horders (pageCount rows.length n)
  rw [List.take_of_length_le] at hperm
  · exact hperm.trans h.perm
  · rw [h.perm.length_eq]
    exact le_pageCount_mul hn rows.length

end Sorted

end Paging
