import Mathlib.Data.List.Sort

/-!
# Stable sorting and parts of a list

Insertion sort by a total preorder keeps rows that compare equal in their
order. A part of the list that a test picks out is therefore sorted in place:
the test can be applied before or after. With it a list that is sorted by a
rank first falls into the parts below, at and above any rank.
-/

namespace MinRender.StableSort

variable {α κ : Type*} {r : α → α → Prop} [DecidableRel r]

/-! ## Picking out a part -/

theorem orderedInsert_of_forall {a : α} {l : List α} (h : ∀ b ∈ l, r a b) :
    l.orderedInsert r a = a :: l := by
  cases l with
  | nil => rfl
  | cons b l => exact List.orderedInsert_cons_of_le r l (h b List.mem_cons_self)

/-- Inserting into a sorted list, seen through a test. -/
theorem filter_orderedInsert [IsTrans α r] (p : α → Bool) {a : α} {l : List α}
    (hl : l.Pairwise r) :
    (l.orderedInsert r a).filter p =
      if p a = true then (l.filter p).orderedInsert r a else l.filter p := by
  induction l with
  | nil =>
      rw [List.orderedInsert_nil, List.filter_cons, List.filter_nil]
      rfl
  | cons b l ih =>
      obtain ⟨hb, hsorted⟩ := List.pairwise_cons.mp hl
      by_cases hab : r a b
      · rw [List.orderedInsert_cons_of_le r l hab, List.filter_cons]
        have hall : ∀ c ∈ (b :: l).filter p, r a c := by
          intro c hc
          rcases List.mem_cons.mp (List.mem_filter.mp hc).1 with rfl | hmem
          · exact hab
          · exact trans_of r hab (hb c hmem)
        rw [orderedInsert_of_forall hall]
      · rw [List.orderedInsert_of_not_le r l hab, List.filter_cons, ih hsorted,
          List.filter_cons]
        by_cases hpb : p b = true
        · rw [if_pos hpb, if_pos hpb]
          split
          · rw [List.orderedInsert_of_not_le r _ hab]
          · rfl
        · rw [if_neg hpb, if_neg hpb]

/-- **A stable sort keeps the parts of a list in order.** -/
theorem filter_insertionSort [Std.Total r] [IsTrans α r] (p : α → Bool) (l : List α) :
    (l.insertionSort r).filter p = (l.filter p).insertionSort r := by
  induction l with
  | nil => rfl
  | cons a l ih =>
      rw [List.insertionSort_cons, filter_orderedInsert p (List.pairwise_insertionSort r l),
        ih, List.filter_cons]
      split
      · rw [List.insertionSort_cons]
      · rfl

/-! ## Falling into groups -/

variable [LinearOrder κ]

/-- A list in order of rank is the part below a rank, the part at it and the
part above it. -/
theorem eq_append_of_rank (rank : α → κ) (k : κ) {l : List α}
    (hl : l.Pairwise fun a b => rank a ≤ rank b) :
    l = l.filter (fun a => rank a < k) ++ (l.filter (fun a => rank a = k) ++
      l.filter (fun a => k < rank a)) := by
  induction l with
  | nil => rfl
  | cons a l ih =>
      obtain ⟨ha, hsorted⟩ := List.pairwise_cons.mp hl
      have hrest := ih hsorted
      have hnone : ∀ {p : α → Bool}, (∀ b ∈ l, p b = false) → l.filter p = [] := by
        intro p h
        exact List.filter_eq_nil_iff.mpr fun b hb => Bool.eq_false_iff.mp (h b hb)
      rw [List.filter_cons, List.filter_cons, List.filter_cons]
      rcases lt_trichotomy (rank a) k with hlt | heq | hgt
      · rw [if_pos (decide_eq_true hlt), if_neg (by simpa using hlt.ne),
          if_neg (by simpa using hlt.le), List.cons_append, ← hrest]
      · have hlow : l.filter (fun b => rank b < k) = [] :=
          hnone fun b hb => decide_eq_false (heq ▸ (ha b hb).not_gt)
        rw [hlow, List.nil_append] at hrest
        rw [if_neg (by simpa using heq.ge), if_pos (decide_eq_true heq),
          if_neg (by simpa using heq.le), hlow, List.nil_append, List.cons_append, ← hrest]
      · have hlow : l.filter (fun b => rank b < k) = [] :=
          hnone fun b hb => decide_eq_false (hgt.trans_le (ha b hb)).le.not_gt
        have hmid : l.filter (fun b => rank b = k) = [] :=
          hnone fun b hb => decide_eq_false (hgt.trans_le (ha b hb)).ne'
        rw [hlow, hmid, List.nil_append, List.nil_append] at hrest
        rw [if_neg (by simpa using hgt.le), if_neg (by simpa using hgt.ne'),
          if_pos (decide_eq_true hgt), hlow, hmid, List.nil_append, List.nil_append, ← hrest]

/-- The same for a sort that compares by rank first. -/
theorem insertionSort_eq_append [Std.Total r] [IsTrans α r] (rank : α → κ) (k : κ)
    (hrank : ∀ a b, r a b → rank a ≤ rank b) (l : List α) :
    l.insertionSort r =
      (l.filter (fun a => rank a < k)).insertionSort r ++
        ((l.filter (fun a => rank a = k)).insertionSort r ++
          (l.filter (fun a => k < rank a)).insertionSort r) := by
  have hsorted := (List.pairwise_insertionSort r l).imp fun {a b} => hrank a b
  rw [← filter_insertionSort, ← filter_insertionSort, ← filter_insertionSort]
  exact eq_append_of_rank rank k hsorted

/-! ## Sorting by position -/

/-- Rows whose order is that of their labels' positions in a list sort to that
list. -/
theorem map_insertionSort_eq {β : Type*} [DecidableEq β] [Std.Total r] [IsTrans α r]
    (label : α → β) {l : List α} {labels : List β} (hperm : (l.map label).Perm labels)
    (hnodup : labels.Nodup)
    (horder : ∀ a ∈ l, ∀ b ∈ l, r a b → labels.idxOf (label a) ≤ labels.idxOf (label b)) :
    (l.insertionSort r).map label = labels := by
  have hsort := List.perm_insertionSort r l
  have hinj : ∀ a b, a ∈ (l.insertionSort r).map label → b ∈ labels →
      labels.idxOf a ≤ labels.idxOf b → labels.idxOf b ≤ labels.idxOf a → a = b := by
    intro a b _ hb hab hba
    exact (List.idxOf_inj hb).mp (Nat.le_antisymm hba hab) |>.symm
  refine List.Perm.eq_of_pairwise hinj ?_ ?_ ((hsort.map label).trans hperm)
  · rw [List.pairwise_map]
    refine (List.pairwise_insertionSort r l).imp_of_mem ?_
    intro a b ha hb hab
    exact horder a (hsort.mem_iff.mp ha) b (hsort.mem_iff.mp hb) hab
  · refine List.pairwise_iff_getElem.mpr fun i j hi hj hij => ?_
    rw [hnodup.idxOf_getElem i hi, hnodup.idxOf_getElem j hj]
    exact hij.le

/-! ## Who comes before whom -/

section Pairs

variable {l l' : List α} {a b : α}

/-- Of two members one comes before the other. -/
theorem pair_sublist_or (ha : a ∈ l) (hb : b ∈ l) (hne : a ≠ b) :
    [a, b].Sublist l ∨ [b, a].Sublist l := by
  induction l with
  | nil => cases ha
  | cons c l ih =>
      rcases List.mem_cons.mp ha with rfl | hal
      · rcases List.mem_cons.mp hb with rfl | hbl
        · exact absurd rfl hne
        · exact .inl ((List.singleton_sublist.mpr hbl).cons_cons a)
      · rcases List.mem_cons.mp hb with rfl | hbl
        · exact .inr ((List.singleton_sublist.mpr hal).cons_cons b)
        · exact (ih hal hbl).imp (·.cons c) (·.cons c)

/-- In a list without repetitions not both. -/
theorem pair_sublist_asymm (hnodup : l.Nodup) (h : [a, b].Sublist l) : ¬ [b, a].Sublist l := by
  intro h'
  induction l with
  | nil => cases h
  | cons c l ih =>
      obtain ⟨hc, hrest⟩ := List.nodup_cons.mp hnodup
      rcases List.sublist_cons_iff.mp h with hab | ⟨pair, hpair, hb⟩
      · rcases List.sublist_cons_iff.mp h' with hba | ⟨pair, hpair, ha⟩
        · exact ih hrest hab hba
        · cases hpair
          exact hc (hab.subset (List.mem_cons_of_mem _ List.mem_cons_self))
      · cases hpair
        rcases List.sublist_cons_iff.mp h' with hba | ⟨pair, hpair, -⟩
        · exact hc (hba.subset (List.mem_cons_of_mem _ List.mem_cons_self))
        · cases hpair
          exact hc (List.singleton_sublist.mp hb)

/-- The order of its pairs determines a list. -/
theorem eq_of_pairs (hnodup : l'.Nodup) (hperm : l.Perm l')
    (h : ∀ a b, [a, b].Sublist l → [a, b].Sublist l') : l = l' := by
  have hpairs : l.Pairwise fun a b => [a, b].Sublist l' :=
    List.pairwise_iff_forall_sublist.mpr fun {a b} => h a b
  refine List.Perm.eq_of_pairwise ?_ hpairs ?_ hperm
  · exact fun a b _ _ hab hba => absurd hba (pair_sublist_asymm hnodup hab)
  · exact List.pairwise_iff_forall_sublist.mpr fun {a b} hab => hab

/-- Sorting puts `a` before `b` if it sorts before it, or ties with it and was
before it. -/
def Ahead (r : α → α → Prop) (l : List α) (a b : α) : Prop :=
  r a b ∧ (r b a → [a, b].Sublist l)

/-- **A stable sort, pair by pair.** -/
theorem pair_sublist_insertionSort_iff [Std.Total r] [IsTrans α r] (hnodup : l.Nodup)
    (ha : a ∈ l) (hb : b ∈ l) (hne : a ≠ b) :
    [a, b].Sublist (l.insertionSort r) ↔ Ahead r l a b := by
  have hsorted := List.pairwise_insertionSort r l
  have hrel : ∀ {x y}, [x, y].Sublist (l.insertionSort r) → r x y :=
    List.pairwise_iff_forall_sublist.mp hsorted
  have hnodup' : (l.insertionSort r).Nodup :=
    (List.perm_insertionSort r l).nodup_iff.mpr hnodup
  constructor
  · intro hab
    refine ⟨hrel hab, fun hrba => ?_⟩
    rcases pair_sublist_or ha hb hne with hbefore | hafter
    · exact hbefore
    · exact absurd (List.pair_sublist_insertionSort hrba hafter)
        (pair_sublist_asymm hnodup' hab)
  · rintro ⟨hrab, htie⟩
    by_cases hrba : r b a
    · exact List.pair_sublist_insertionSort hrab (htie hrba)
    · rcases pair_sublist_or ((List.mem_insertionSort r).mpr ha)
        ((List.mem_insertionSort r).mpr hb) hne with hbefore | hafter
      · exact hbefore
      · exact absurd (hrel hafter) hrba

/-- Rows under labels come in the order of the labels. -/
theorem pair_sublist_map_iff {β : Type*} {label : α → β} (hnodup : (l.map label).Nodup)
    (ha : a ∈ l) (hb : b ∈ l) :
    [label a, label b].Sublist (l.map label) ↔ [a, b].Sublist l := by
  constructor
  · intro h
    obtain ⟨pair, hpair, heq⟩ := List.sublist_map_iff.mp h
    obtain ⟨a', rest, rfl, ha', hrest⟩ := List.map_eq_cons_iff.mp heq.symm
    obtain ⟨b', tail, rfl, hb', hnil⟩ := List.map_eq_cons_iff.mp hrest
    rw [List.map_eq_nil_iff] at hnil
    subst hnil
    have hmem := hpair.subset
    have haa := List.inj_on_of_nodup_map hnodup (hmem List.mem_cons_self) ha ha'
    have hbb := List.inj_on_of_nodup_map hnodup
      (hmem (List.mem_cons_of_mem _ List.mem_cons_self)) hb hb'
    rwa [haa, hbb] at hpair
  · exact fun h => h.map label

/-- The labels of the sorted rows, pair by pair. -/
theorem pair_sublist_labels_iff {β : Type*} [Std.Total r] [IsTrans α r] {label : α → β}
    (hnodup : (l.map label).Nodup) (ha : a ∈ l) (hb : b ∈ l) (hne : a ≠ b) :
    [label a, label b].Sublist ((l.insertionSort r).map label) ↔ Ahead r l a b := by
  have hsort := List.perm_insertionSort r l
  rw [pair_sublist_map_iff ((hsort.map label).nodup_iff.mpr hnodup) (hsort.mem_iff.mpr ha)
    (hsort.mem_iff.mpr hb)]
  exact pair_sublist_insertionSort_iff (hnodup.of_map _) ha hb hne

end Pairs

/-- **When a change of the rows does not show**: rows that keep their labels
sort to the same labels exactly where every two of them come in the same
order. -/
theorem map_insertionSort_eq_iff {β : Type*} [Std.Total r] [IsTrans α r] {label : α → β}
    {g : α → α} {l : List α} (hg : ∀ a, label (g a) = label a) (hnodup : (l.map label).Nodup) :
    ((l.map g).insertionSort r).map label = (l.insertionSort r).map label ↔
      ∀ a ∈ l, ∀ b ∈ l, a ≠ b → (Ahead r (l.map g) (g a) (g b) ↔ Ahead r l a b) := by
  have hlabels : (l.map g).map label = l.map label := by
    rw [List.map_map]
    exact List.map_congr_left fun a _ => hg a
  have hnodup' : ((l.map g).map label).Nodup := hlabels ▸ hnodup
  have hinj : ∀ a ∈ l, ∀ b ∈ l, a ≠ b → g a ≠ g b := by
    intro a ha b hb hne heq
    exact hne (List.inj_on_of_nodup_map hnodup ha hb ((hg a).symm.trans (heq ▸ hg b)))
  have hg' : ∀ a ∈ l, ∀ b ∈ l, a ≠ b →
      ([label a, label b].Sublist (((l.map g).insertionSort r).map label) ↔
        Ahead r (l.map g) (g a) (g b)) := by
    intro a ha b hb hne
    have h := pair_sublist_labels_iff (r := r) hnodup' (List.mem_map_of_mem ha)
      (List.mem_map_of_mem hb) (hinj a ha b hb hne)
    rwa [hg, hg] at h
  constructor
  · intro heq a ha b hb hne
    rw [← hg' a ha b hb hne, ← pair_sublist_labels_iff hnodup ha hb hne, heq]
  · intro h
    have hsort := (List.perm_insertionSort r l).map label
    have hsort' := (List.perm_insertionSort r (l.map g)).map label
    refine eq_of_pairs (hsort.nodup_iff.mpr hnodup)
      (hsort'.trans ((List.Perm.of_eq hlabels).trans hsort.symm)) fun x y hxy => ?_
    have hmem := hxy.subset
    have hx := hsort'.mem_iff.mp (hmem List.mem_cons_self)
    have hy := hsort'.mem_iff.mp (hmem (List.mem_cons_of_mem _ List.mem_cons_self))
    rw [hlabels] at hx hy
    obtain ⟨a, ha, rfl⟩ := List.mem_map.mp hx
    obtain ⟨b, hb, rfl⟩ := List.mem_map.mp hy
    have hne : a ≠ b := by
      rintro rfl
      have hdup := hxy.nodup (hsort'.nodup_iff.mpr hnodup')
      simp at hdup
    exact (pair_sublist_labels_iff hnodup ha hb hne).mpr
      ((h a ha b hb hne).mp ((hg' a ha b hb hne).mp hxy))

/-- A row that no row sorts behind is put at the end. -/
theorem insertionSort_concat {l : List α} {n : α} (h : ∀ a ∈ l, r a n) :
    (l ++ [n]).insertionSort r = l.insertionSort r ++ [n] := by
  have hinsert : ∀ (a : α) (m : List α), r a n →
      (m ++ [n]).orderedInsert r a = m.orderedInsert r a ++ [n] := by
    intro a m han
    induction m with
    | nil => exact List.orderedInsert_cons_of_le r [] han
    | cons b m ih =>
        rw [List.cons_append]
        by_cases hab : r a b
        · rw [List.orderedInsert_cons_of_le r _ hab, List.orderedInsert_cons_of_le r _ hab]
          rfl
        · rw [List.orderedInsert_of_not_le r _ hab, List.orderedInsert_of_not_le r _ hab, ih]
          rfl
  induction l with
  | nil => rfl
  | cons a l ih =>
      obtain ⟨han, hrest⟩ := List.forall_mem_cons.mp h
      rw [List.cons_append, List.insertionSort_cons, List.insertionSort_cons, ih hrest,
        hinsert a _ han]

end MinRender.StableSort
