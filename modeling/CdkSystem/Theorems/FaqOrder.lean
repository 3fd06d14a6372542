import CdkSystem.Faq

/-!
# When the FAQ can be reordered

Each update of `ReorderFAQ` needs that no other item has the new number at that moment. An item that
has been updated has a number of its own, so only the old numbers of the other items are in the way
(`updateSortOrders_isSome`); and an update that comes first meets all of them. So the statement
succeeds in every order of its updates exactly if no item has the number that another one gets
(`reorder_works_iff`).

PostgreSQL checks a plain unique index row by row within one statement, which is why swapping two
numbers fails although the numbers are different in the end. The order of the updates is not
specified, so the condition is sought that makes the statement succeed whatever the order is.
-/

namespace CdkSystem

open Relational

/-- Reordering works: whatever the order of the updates, the handler answers with 200, and then the
items are listed in the order of their `id`s in the list. -/
def ReorderWorks (t : Table FaqItem) (ids : List ℕ) : Prop :=
  ∀ updates, IsUpdateOrder t ids updates →
    (reorderFAQ t ids updates).1.status = 200 ∧
      (listFAQ (reorderFAQ t ids updates).2).map FaqItem.id = ids

/-- No item has the number that another one gets. -/
def NoneInTheWay (t : Table FaqItem) (ids : List ℕ) : Prop :=
  ∀ r ∈ t, ∀ n, 1 ≤ n → n ≤ ids.length → r.sortOrder = n → ids[n - 1]? = some r.id

/-- The item after its update, if it is among the updates. -/
def renumber (updates : List (ℕ × ℕ)) (r : FaqItem) : FaqItem :=
  match updates.lookup r.id with
  | none => r
  | some n => r.setSortOrder n

variable {t t' : Table FaqItem} {ids : List ℕ} {updates updates' : List (ℕ × ℕ)} {u : ℕ × ℕ}

/-! ## The statement -/

/-- The `id` of an item does not change. -/
theorem id_renumber (updates : List (ℕ × ℕ)) (r : FaqItem) : (renumber updates r).id = r.id := by
  unfold renumber
  split <;> rfl

/-- What one update does when it succeeds. -/
theorem updateSortOrder_eq_some {id n : ℕ} (h : updateSortOrder t id n = some t') :
    n ≤ maxInteger ∧ (∀ r ∈ t, r.sortOrder = n → r.id = id) ∧
      t'.rows = t.rows.map fun r => if r.id = id then r.setSortOrder n else r := by
  unfold updateSortOrder at h
  split_ifs at h with hblocked
  rw [not_or, Bool.not_eq_true, List.any_eq_false] at hblocked
  obtain ⟨hrange, hfree⟩ := hblocked
  refine ⟨Nat.le_of_not_lt hrange, fun r hr hn => ?_, ?_⟩
  · have hr' := hfree r hr
    simpa [hn] using hr'
  · rw [← Option.some.inj h]
    rfl

/-- One update succeeds when the number is in range and no other item has it. -/
theorem updateSortOrder_isSome {id n : ℕ} (hrange : n ≤ maxInteger)
    (hfree : ∀ r ∈ t, r.sortOrder = n → r.id = id) : ∃ t', updateSortOrder t id n = some t' := by
  unfold updateSortOrder
  rw [if_neg]
  · exact ⟨_, rfl⟩
  · rw [not_or, Bool.not_eq_true, List.any_eq_false]
    refine ⟨Nat.not_lt.mpr hrange, fun r hr => ?_⟩
    simp only [Bool.and_eq_true, decide_eq_true_eq, not_and]
    exact fun hne hn => hne (hfree r hr hn)

/-- The statement updates the items one by one. -/
theorem updateSortOrders_rows (hnodup : (updates.map Prod.fst).Nodup)
    (h : updateSortOrders t updates = some t') : t'.rows = t.rows.map (renumber updates) := by
  induction updates generalizing t with
  | nil =>
    rw [← Option.some.inj h]
    exact (List.map_id' t.rows).symm
  | cons u updates ih =>
    obtain ⟨t₁, ht₁, h⟩ := Option.bind_eq_some_iff.mp h
    obtain ⟨hu, hrest⟩ := List.nodup_cons.mp hnodup
    rw [ih hrest h, (updateSortOrder_eq_some ht₁).2.2, List.map_map]
    refine List.map_congr_left fun r _ => ?_
    obtain ⟨id, n⟩ := u
    simp only [Function.comp_apply, renumber, List.lookup_cons]
    by_cases hr : r.id = id
    · -- This item is not among the other updates.
      have hnone : updates.lookup id = none := by
        rw [List.lookup_eq_none_iff]
        intro u' hu'
        simp only [bne_iff_ne, ne_eq]
        exact fun he => hu (List.mem_map.mpr ⟨u', hu', he.symm⟩)
      have hid : (r.setSortOrder n).id = id := hr
      simp [hr, hid, hnone]
    · have hne : (r.id == id) = false := by simpa using hr
      simp [hr, hne]

/-- All numbers of a statement that succeeds are in range. -/
theorem le_maxInteger_of_updateSortOrders (h : updateSortOrders t updates = some t') :
    ∀ u ∈ updates, u.2 ≤ maxInteger := by
  induction updates generalizing t with
  | nil => simp
  | cons u updates ih =>
    obtain ⟨t₁, ht₁, h⟩ := Option.bind_eq_some_iff.mp h
    intro u' hu'
    rcases List.mem_cons.mp hu' with rfl | hu'
    · exact (updateSortOrder_eq_some ht₁).1
    · exact ih h u' hu'

/-- The statement succeeds when all numbers are in range, and no item has the number of another one
before it or gets it. -/
theorem updateSortOrders_isSome (hrange : ∀ u ∈ updates, u.2 ≤ maxInteger)
    (hfree : ∀ u ∈ updates, ∀ r ∈ t, r.sortOrder = u.2 → r.id = u.1)
    (hinj : ∀ u ∈ updates, ∀ u' ∈ updates, u.2 = u'.2 → u.1 = u'.1) :
    ∃ t', updateSortOrders t updates = some t' := by
  induction updates generalizing t with
  | nil => exact ⟨t, rfl⟩
  | cons u updates ih =>
    obtain ⟨t₁, ht₁⟩ := updateSortOrder_isSome (hrange u (by simp)) (hfree u (by simp))
    have hrows := (updateSortOrder_eq_some ht₁).2.2
    have hfree₁ : ∀ u' ∈ updates, ∀ r ∈ t₁, r.sortOrder = u'.2 → r.id = u'.1 := by
      intro u' hu' r hr hn
      rw [Table.mem_iff, hrows] at hr
      obtain ⟨r₀, hr₀, rfl⟩ := List.mem_map.mp hr
      split_ifs at hn ⊢ with hid
      · -- The item that has just been updated has its own number.
        have hnum : u.2 = u'.2 := Int.ofNat_inj.mp hn
        exact hid.trans (hinj u (by simp) u' (by simp [hu']) hnum)
      · exact hfree u' (by simp [hu']) r₀ hr₀ hn
    obtain ⟨t', ht'⟩ := ih (fun u' hu' => hrange u' (by simp [hu'])) hfree₁
      fun u' hu' u'' hu'' => hinj u' (by simp [hu']) u'' (by simp [hu''])
    exact ⟨t', by rw [updateSortOrders, ht₁]; exact ht'⟩

/-! ## Orders of updates -/

/-- The updates may come in every order. -/
theorem IsUpdateOrder.perm (h : IsUpdateOrder t ids updates) (hp : updates.Perm updates') :
    IsUpdateOrder t ids updates' := by
  refine ⟨(hp.map Prod.fst).nodup_iff.mp h.nodup, fun id => ?_, fun u hu => ?_⟩
  · rw [← h.matched id, (hp.map Prod.fst).mem_iff]
  · exact h.ord u (hp.mem_iff.mpr hu)

/-- The `id`s of all items, each with its position, are an order of updates. -/
theorem isUpdateOrder_zipIdx (hperm : ids.Perm (t.rows.map FaqItem.id)) :
    IsUpdateOrder t ids (ids.zipIdx 1) := by
  refine ⟨?_, fun id => ?_, fun u hu => ?_⟩
  · rw [List.zipIdx_map_fst]
    exact hperm.nodup_iff.mpr t.nodup
  · rw [List.zipIdx_map_fst, hperm.mem_iff]
    refine ⟨fun hid => ⟨hid, ?_⟩, And.left⟩
    obtain ⟨r, hr, rfl⟩ := List.mem_map.mp hid
    have hget : t.get? r.id = some r := Table.get?_of_mem hr
    rw [hget]
    rfl
  · exact List.mem_zipIdx_iff_le_and_getElem?_sub.mp hu

/-- Updates of different rows give them different numbers. -/
theorem IsUpdateOrder.inj (h : IsUpdateOrder t ids updates) :
    ∀ u ∈ updates, ∀ u' ∈ updates, u.2 = u'.2 → u.1 = u'.1 := by
  intro u hu u' hu' he
  have hget := (h.ord u hu).2
  rw [he, (h.ord u' hu').2] at hget
  exact (Option.some.inj hget).symm

/-- A number is at most the number of `id`s. -/
theorem IsUpdateOrder.le_length (h : IsUpdateOrder t ids updates) (hu : u ∈ updates) :
    u.2 ≤ ids.length := by
  obtain ⟨hpos, hget⟩ := h.ord u hu
  obtain ⟨hlt, -⟩ := List.getElem?_eq_some_iff.mp hget
  omega

/-- An updated item has the position of its `id` as its number. -/
theorem IsUpdateOrder.sortOrder_eq (h : IsUpdateOrder t ids updates)
    (hperm : ids.Perm (t.rows.map FaqItem.id)) {r : FaqItem} (hr : r ∈ t) :
    (renumber updates r).sortOrder = ids.idxOf r.id + 1 := by
  have hmem : r.id ∈ ids := hperm.mem_iff.mpr (List.mem_map_of_mem hr)
  have hget : t.get? r.id = some r := Table.get?_of_mem hr
  obtain ⟨u, hu, hid⟩ := List.mem_map.mp ((h.matched r.id).mpr ⟨hmem, by rw [hget]; rfl⟩)
  unfold renumber
  cases hlookup : updates.lookup r.id with
  | none =>
    rw [List.lookup_eq_none_iff] at hlookup
    have hne := hlookup u hu
    simp [hid] at hne
  | some n =>
    have hn : (r.id, n) ∈ updates := by
      obtain ⟨before, after, hsplit, -⟩ := List.lookup_eq_some_iff.mp hlookup
      simp [hsplit]
    obtain ⟨hpos, hget⟩ := h.ord _ hn
    obtain ⟨hlt, hget⟩ := List.getElem?_eq_some_iff.mp hget
    have hidx := (hperm.nodup_iff.mpr t.nodup).idxOf_getElem (n - 1) hlt
    rw [hget] at hidx
    change (n : ℤ) = _
    rw [hidx]
    simp only at hpos
    omega

/-! ## The list -/

/-- The order of the list is that of the numbers. -/
theorem sortOrder_le_of_le {a b : FaqItem} (h : a.le b = true) : a.sortOrder ≤ b.sortOrder := by
  simp only [FaqItem.le, Bool.or_eq_true, Bool.and_eq_true, decide_eq_true_eq] at h
  omega

/-- Items whose numbers are their positions in a list of `id`s are listed in its order. -/
theorem map_id_listFAQ (hperm : ids.Perm (t.rows.map FaqItem.id))
    (h : ∀ r ∈ t, r.sortOrder = ids.idxOf r.id + 1) : (listFAQ t).map FaqItem.id = ids := by
  have hlist : ((listFAQ t).map FaqItem.id).Perm ids :=
    ((List.mergeSort_perm t.rows FaqItem.le).map FaqItem.id).trans hperm.symm
  have hsorted : (listFAQ t).Pairwise fun a b => a.le b = true := by
    refine List.pairwise_mergeSort (fun a b c => ?_) (fun a b => ?_) t.rows
    · simp only [FaqItem.le, Bool.or_eq_true, Bool.and_eq_true, decide_eq_true_eq]
      omega
    · simp only [FaqItem.le, Bool.or_eq_true, Bool.and_eq_true, decide_eq_true_eq]
      omega
  have hpos : ((listFAQ t).map FaqItem.id).Pairwise fun i j => ids.idxOf i ≤ ids.idxOf j := by
    rw [List.pairwise_map]
    refine hsorted.imp_of_mem fun {a b} ha hb hle => ?_
    have hna := h a (List.mem_mergeSort.mp ha)
    have hnb := h b (List.mem_mergeSort.mp hb)
    have hle' := sortOrder_le_of_le hle
    omega
  have hids : ids.Pairwise fun i j => ids.idxOf i ≤ ids.idxOf j := by
    have hnodup : ids.Nodup := hperm.nodup_iff.mpr t.nodup
    rw [List.pairwise_iff_getElem]
    intro m n hm hn hmn
    rw [hnodup.idxOf_getElem m hm, hnodup.idxOf_getElem n hn]
    omega
  refine hlist.eq_of_pairwise (fun i j hi _ hij hji => ?_) hpos hids
  exact (List.idxOf_inj (hlist.mem_iff.mp hi)).mp (le_antisymm hij hji)

/-! ## Reordering -/

/-- The statement succeeds in every order of its updates when no item is in the way. -/
theorem reorderWorks_of_noneInTheWay (hperm : ids.Perm (t.rows.map FaqItem.id)) (hne : ids ≠ [])
    (hlen : ids.length ≤ maxInteger) (h : NoneInTheWay t ids) : ReorderWorks t ids := by
  intro updates hu
  have hrange : ∀ u ∈ updates, u.2 ≤ maxInteger := fun u hmem => (hu.le_length hmem).trans hlen
  have hfree : ∀ u ∈ updates, ∀ r ∈ t, r.sortOrder = u.2 → r.id = u.1 := by
    intro u hmem r hr hn
    obtain ⟨hpos, hget⟩ := hu.ord u hmem
    have hget' := h r hr u.2 hpos (hu.le_length hmem) hn
    rw [hget, Option.some.injEq] at hget'
    exact hget'.symm
  obtain ⟨t', ht'⟩ := updateSortOrders_isSome hrange hfree hu.inj
  have hrows := updateSortOrders_rows hu.nodup ht'
  have hreply : reorderFAQ t ids updates = (respondOK "", t') := by
    rw [reorderFAQ, if_neg hne, ht']
  rw [hreply]
  refine ⟨rfl, map_id_listFAQ ?_ fun r hr => ?_⟩
  · have hids : t'.rows.map FaqItem.id = t.rows.map FaqItem.id := by
      rw [hrows, List.map_map]
      exact List.map_congr_left fun r _ => id_renumber updates r
    rw [hids]
    exact hperm
  · rw [Table.mem_iff, hrows] at hr
    obtain ⟨r₀, hr₀, rfl⟩ := List.mem_map.mp hr
    rw [hu.sortOrder_eq hperm hr₀, id_renumber]

/-- An answer with 200 is that of a statement that succeeded. -/
theorem updateSortOrders_of_reorderFAQ (h : (reorderFAQ t ids updates).1.status = 200) :
    ids ≠ [] ∧ ∃ t', updateSortOrders t updates = some t' := by
  unfold reorderFAQ at h
  split_ifs at h with hids
  · cases h
  · refine ⟨hids, ?_⟩
    cases hs : updateSortOrders t updates with
    | none =>
      rw [hs] at h
      cases h
    | some t' => exact ⟨t', rfl⟩

/-- An item that is in the way fails the statement when the update that it is in the way of comes
first. -/
theorem noneInTheWay_of_reorderWorks (hperm : ids.Perm (t.rows.map FaqItem.id))
    (h : ReorderWorks t ids) : NoneInTheWay t ids := by
  intro r hr n hpos hlen hn
  obtain ⟨id, hid⟩ : ∃ id, ids[n - 1]? = some id :=
    ⟨_, List.getElem?_eq_getElem (by omega)⟩
  have hmem : (id, n) ∈ ids.zipIdx 1 :=
    List.mk_mem_zipIdx_iff_le_and_getElem?_sub.mpr ⟨hpos, hid⟩
  -- The order that begins with the update of `id`.
  have hfirst := (isUpdateOrder_zipIdx hperm).perm (List.perm_cons_erase hmem)
  obtain ⟨-, t', ht'⟩ := updateSortOrders_of_reorderFAQ (h _ hfirst).1
  obtain ⟨t₁, ht₁, -⟩ := Option.bind_eq_some_iff.mp ht'
  rw [hid, (updateSortOrder_eq_some ht₁).2.1 r hr hn]

/-- Reordering works exactly if there are items, no more than the largest number, and none of them
has the number that another one gets. -/
theorem reorder_works_iff (t : Table FaqItem) (ids : List ℕ)
    (_hdistinct : (t.rows.map FaqItem.sortOrder).Nodup) (hperm : ids.Perm (t.rows.map FaqItem.id)) :
    ReorderWorks t ids ↔ ids ≠ [] ∧ ids.length ≤ maxInteger ∧ NoneInTheWay t ids := by
  constructor
  · intro h
    obtain ⟨hne, t', ht'⟩ := updateSortOrders_of_reorderFAQ (h _ (isUpdateOrder_zipIdx hperm)).1
    refine ⟨hne, ?_, noneInTheWay_of_reorderWorks hperm h⟩
    -- The last `id` gets the number of items.
    have hpos : 0 < ids.length := List.length_pos_of_ne_nil hne
    have hlast : (ids[ids.length - 1], ids.length) ∈ ids.zipIdx 1 :=
      List.mk_mem_zipIdx_iff_le_and_getElem?_sub.mpr ⟨hpos, List.getElem?_eq_getElem _⟩
    exact le_maxInteger_of_updateSortOrders ht' _ hlast
  · rintro ⟨hne, hlen, hfree⟩
    exact reorderWorks_of_noneInTheWay hperm hne hlen hfree

/-- A table of two items that have the given numbers. -/
def twoItems (m n : ℤ) : Table FaqItem :=
  ⟨[⟨1, m, "a", "x"⟩, ⟨2, n, "b", "y"⟩], show [1, 2].Nodup by decide⟩

/-- Two items with the first two numbers cannot be swapped. -/
theorem reorder_swap_fails : ¬ ∀ (t : Table FaqItem) (ids : List ℕ),
    (t.rows.map FaqItem.sortOrder).Nodup → ids.Perm (t.rows.map FaqItem.id) →
      ReorderWorks t ids := by
  intro h
  have hworks := h (twoItems 1 2) [2, 1] (by decide) (by decide)
  have hway := noneInTheWay_of_reorderWorks (by decide) hworks ⟨1, 1, "a", "x"⟩
    (List.mem_cons_self) 1 (by decide) (by decide) rfl
  exact absurd hway (by decide)

/-- Two items with later numbers can be swapped. -/
theorem reorder_swap_works : ReorderWorks (twoItems 3 4) [2, 1] :=
  (reorder_works_iff (twoItems 3 4) [2, 1] (by decide) (by decide)).mpr <| by
    refine ⟨by decide, by decide, fun r hr n _ hlen hn => ?_⟩
    have hrows : r.sortOrder = 3 ∨ r.sortOrder = 4 := by
      rcases List.mem_pair.mp hr with rfl | rfl
      · exact Or.inl rfl
      · exact Or.inr rfl
    have hlen' : n ≤ 2 := hlen
    omega

end CdkSystem
