import Mathlib.Data.List.Basic
import Mathlib.Data.List.Forall2
import Mathlib.Data.List.Nodup

/-!
# Tables of rows

A relational table as the list of its rows, in row order, with the statement
forms a small SQL program uses: `UPDATE … SET … WHERE …` and the number of
rows it touched. `Changed` relates a table before and after a statement row by
row, so that "the statement changed this row" can be said without keys;
`Evolves` says where every row of a later table comes from.
-/

namespace MinRender.Table

variable {α β : Type*}

/-- `UPDATE t SET f WHERE p`. -/
def update (p : α → Bool) (f : α → α) (t : List α) : List α :=
  t.map fun r => if p r then f r else r

/-- The number of rows an `UPDATE … WHERE p` modifies. -/
def hits (p : α → Bool) (t : List α) : Nat := t.countP p

@[simp] theorem mem_update {p : α → Bool} {f : α → α} {t : List α} {r : α} :
    r ∈ update p f t ↔ ∃ s ∈ t, (if p s then f s else s) = r := by
  simp [update]

@[simp] theorem hits_pos {p : α → Bool} {t : List α} :
    0 < hits p t ↔ ∃ r ∈ t, p r = true := by
  simp [hits, List.countP_pos_iff]

@[simp] theorem hits_eq_zero {p : α → Bool} {t : List α} :
    hits p t = 0 ↔ ∀ r ∈ t, p r = false := by
  simp [hits, List.countP_eq_zero]

/-- A column the update leaves alone reads the same afterwards. -/
theorem map_update {p : α → Bool} {f : α → α} (g : α → β)
    (h : ∀ r, g (f r) = g r) (t : List α) :
    (update p f t).map g = t.map g := by
  simp only [update, List.map_map]
  refine List.map_congr_left fun r _ => ?_
  by_cases hp : p r = true
  · simp [hp, h]
  · simp [hp]

/-- An update changes nothing exactly when it leaves every row it hits as it is. -/
theorem update_eq_self_iff {p : α → Bool} {f : α → α} {t : List α} :
    update p f t = t ↔ ∀ r ∈ t, p r = true → f r = r := by
  unfold update
  induction t with
  | nil => simp
  | cons r t ih =>
      rw [List.map_cons, List.cons.injEq, ih, List.forall_mem_cons]
      refine and_congr_left fun _ => ?_
      by_cases hp : p r = true
      · simp [hp]
      · simp [hp]

/-! ## Keys -/

section Keys

variable {κ : Type*} [DecidableEq κ]

/-- The row under a key. -/
def row? (key : α → κ) (k : κ) (t : List α) : Option α :=
  t.find? fun r => decide (key r = k)

theorem row?_cons {key : α → κ} {k : κ} {r : α} {t : List α} :
    row? key k (r :: t) = if key r = k then some r else row? key k t := by
  by_cases h : key r = k
  · exact (List.find?_cons_of_pos (p := fun r => decide (key r = k)) (decide_eq_true h)).trans
      (if_pos h).symm
  · exact (List.find?_cons_of_neg (p := fun r => decide (key r = k)) (by simpa using h)).trans
      (if_neg h).symm

theorem row?_eq_none {key : α → κ} {k : κ} {t : List α} :
    row? key k t = none ↔ ∀ r ∈ t, key r ≠ k := by
  simp [row?, List.find?_eq_none]

theorem row?_mem {key : α → κ} {k : κ} {t : List α} {r : α}
    (h : row? key k t = some r) : r ∈ t ∧ key r = k :=
  ⟨List.mem_of_find?_eq_some h, by simpa [row?] using List.find?_some h⟩

theorem row?_eq_some {key : α → κ} {k : κ} {t : List α} {r : α}
    (hkey : (t.map key).Nodup) : row? key k t = some r ↔ r ∈ t ∧ key r = k := by
  constructor
  · exact row?_mem
  · rintro ⟨hr, rfl⟩
    cases h : row? key (key r) t with
    | none => exact absurd rfl (row?_eq_none.mp h r hr)
    | some r' =>
        obtain ⟨hr', hk⟩ := row?_mem h
        rw [List.inj_on_of_nodup_map hkey hr' hr hk]

/-- An update that leaves the key alone, seen through the key. -/
theorem row?_update {key : α → κ} {p : α → Bool} {f : α → α}
    (hf : ∀ r, key (f r) = key r) (k : κ) (t : List α) :
    row? key k (update p f t) = (row? key k t).map fun r => if p r then f r else r := by
  unfold row? update
  rw [List.find?_map]
  congr 2
  funext r
  by_cases hp : p r = true
  · simp [hp, hf]
  · simp [hp]

end Keys

/-! ## Which rows a statement changes -/

/-- Row `r` of `t` reads `r'` in `t'`, and the two differ. -/
def Changed (t t' : List α) (r r' : α) : Prop :=
  (r, r') ∈ t.zip t' ∧ r ≠ r'

private theorem zip_map_self (f : α → α) (t : List α) :
    t.zip (t.map f) = t.map fun r => (r, f r) := by
  induction t with
  | nil => rfl
  | cons r t ih => simp only [List.map_cons, List.zip_cons_cons, ih]

theorem changed_update {p : α → Bool} {f : α → α} {t : List α} {r r' : α} :
    Changed t (update p f t) r r' ↔ r ∈ t ∧ p r = true ∧ r' = f r ∧ r ≠ r' := by
  unfold Changed update
  rw [zip_map_self, List.mem_map]
  constructor
  · rintro ⟨⟨s, hs, heq⟩, hne⟩
    obtain ⟨rfl, rfl⟩ := Prod.mk.inj heq
    by_cases hp : p s = true
    · rw [if_pos hp] at hne ⊢
      exact ⟨hs, hp, rfl, hne⟩
    · rw [if_neg hp] at hne
      exact absurd rfl hne
  · rintro ⟨hr, hp, rfl, hne⟩
    exact ⟨⟨r, hr, by rw [if_pos hp]⟩, hne⟩

/-- A changed row made the step its statement makes of rows. -/
theorem Changed.step {R : α → α → Prop} {t t' : List α} {r r' : α}
    (h : Changed t t' r r') (hR : List.Forall₂ R t t') : r ∈ t ∧ R r r' := by
  obtain ⟨hmem, -⟩ := h
  induction hR with
  | nil => simp at hmem
  | cons hab hrest ih =>
      rw [List.zip_cons_cons, List.mem_cons] at hmem
      rcases hmem with heq | hmem
      · cases heq
        exact ⟨List.mem_cons_self, hab⟩
      · obtain ⟨hr, hrr⟩ := ih hmem
        exact ⟨List.mem_cons_of_mem _ hr, hrr⟩

/-- Nothing changes in a table that stays the same. -/
theorem not_changed_self {t : List α} {r r' : α} : ¬ Changed t t r r' := fun h =>
  h.2 (h.step (List.forall₂_same.mpr fun _ _ => rfl)).2

/-! ## How a statement evolves a table -/

/-- `t'` is what became (`R`) of the rows of `t` that were kept, in order,
followed by new rows (`N`). -/
def Evolves (keep : α → Bool) (R : α → α → Prop) (N : α → Prop) (t t' : List α) :
    Prop :=
  ∃ rows new, List.Forall₂ R (t.filter keep) rows ∧ t' = rows ++ new ∧
    ∀ r ∈ new, N r

namespace Evolves

variable {keep : α → Bool} {R : α → α → Prop} {N : α → Prop} {t t' : List α}

theorem of_forall₂ (h : List.Forall₂ R t t') : Evolves (fun _ => true) R N t t' :=
  ⟨t', [], by simpa using h, by simp, by simp⟩

theorem forall₂_update {p : α → Bool} {f : α → α} (h : ∀ r, R r r)
    (hf : ∀ r ∈ t, p r = true → R r (f r)) : List.Forall₂ R t (update p f t) := by
  unfold update
  rw [List.forall₂_map_right_iff, List.forall₂_same]
  intro r hr
  by_cases hp : p r = true
  · rw [if_pos hp]
    exact hf r hr hp
  · rw [if_neg hp]
    exact h r

/-- An update evolves the rows it hits by `f`. -/
theorem of_update {p : α → Bool} {f : α → α} (h : ∀ r, R r r)
    (hf : ∀ r ∈ t, p r = true → R r (f r)) :
    Evolves (fun _ => true) R N t (update p f t) :=
  of_forall₂ (forall₂_update h hf)

/-- Nothing happens. -/
theorem refl (h : ∀ r, R r r) : Evolves (fun _ => true) R N t t :=
  of_forall₂ (List.forall₂_same.mpr fun r _ => h r)

/-- A deletion followed by insertions. -/
theorem of_filter {new : List α} (h : ∀ r, R r r) (hn : ∀ r ∈ new, N r) :
    Evolves keep R N t (t.filter keep ++ new) :=
  ⟨_, new, List.forall₂_same.mpr fun r _ => h r, rfl, hn⟩

/-- Deletions alone. -/
theorem of_delete (h : ∀ r, R r r) : Evolves keep R N t (t.filter keep) := by
  have hnone : ∀ r ∈ ([] : List α), N r := fun _ hr => nomatch hr
  have hfilter : Evolves keep R N t (t.filter keep ++ []) := of_filter h hnone
  rwa [List.append_nil] at hfilter

/-- Insertions. -/
theorem of_append {new : List α} (h : ∀ r, R r r) (hn : ∀ r ∈ new, N r) :
    Evolves (fun _ => true) R N t (t ++ new) :=
  ⟨t, new, by simpa using List.forall₂_same.mpr fun r _ => h r, rfl, hn⟩

/-- Where a row of the later table comes from. -/
theorem mem (h : Evolves keep R N t t') {r' : α} (hr' : r' ∈ t') :
    N r' ∨ ∃ r ∈ t, keep r = true ∧ R r r' := by
  obtain ⟨rows, new, hrows, rfl, hnew⟩ := h
  rcases List.mem_append.mp hr' with hr' | hr'
  · obtain ⟨i, hi, rfl⟩ := List.getElem_of_mem hr'
    have hlen := hrows.length_eq
    have hi' : i < (t.filter keep).length := hlen ▸ hi
    have hmem := List.mem_filter.mp (List.getElem_mem hi')
    exact .inr ⟨_, hmem.1, hmem.2, hrows.get hi' hi⟩
  · exact .inl (hnew r' hr')

/-- What becomes of a kept row of the earlier table. -/
theorem persists (h : Evolves keep R N t t') {r : α} (hr : r ∈ t)
    (hk : keep r = true) : ∃ r' ∈ t', R r r' := by
  obtain ⟨rows, new, hrows, rfl, -⟩ := h
  have hr : r ∈ t.filter keep := List.mem_filter.mpr ⟨hr, hk⟩
  obtain ⟨i, hi, rfl⟩ := List.getElem_of_mem hr
  have hi' : i < rows.length := hrows.length_eq ▸ hi
  exact ⟨_, List.mem_append_left _ (List.getElem_mem hi'), hrows.get hi hi'⟩

/-- A row property survives when new rows have it and the step keeps it. -/
theorem forall_mem {P : α → Prop} (h : Evolves keep R N t t')
    (ht : ∀ r ∈ t, P r) (hR : ∀ r r', R r r' → P r → P r')
    (hN : ∀ r, N r → P r) : ∀ r ∈ t', P r := by
  intro r' hr'
  rcases h.mem hr' with hn | ⟨r, hr, -, hrr⟩
  · exact hN r' hn
  · exact hR r r' hrr (ht r hr)

end Evolves

/-- A column no step touches reads the same afterwards. -/
theorem map_eq_of_forall₂ {R : α → α → Prop} (g : α → β)
    (hg : ∀ a b, R a b → g b = g a) :
    ∀ {t u : List α}, List.Forall₂ R t u → u.map g = t.map g
  | _, _, .nil => rfl
  | _, _, .cons h hs => by
      rw [List.map_cons, List.map_cons, hg _ _ h, map_eq_of_forall₂ g hg hs]

/-- The same for an evolution that deletes and inserts nothing. -/
theorem Evolves.map_eq {keep : α → Bool} {R : α → α → Prop} {N : α → Prop} {t t' : List α}
    (h : Evolves keep R N t t') (hkeep : ∀ r ∈ t, keep r = true) (hnew : ∀ r, ¬ N r)
    (g : α → β) (hg : ∀ a b, R a b → g b = g a) : t'.map g = t.map g := by
  obtain ⟨rows, new, hrows, rfl, hN⟩ := h
  have hnone : new = [] := List.eq_nil_iff_forall_not_mem.mpr fun r hr => hnew r (hN r hr)
  rw [List.filter_eq_self.mpr hkeep] at hrows
  rw [hnone, List.append_nil]
  exact map_eq_of_forall₂ g hg hrows

/-- Row-wise steps compose. -/
theorem forall₂_trans {R S U : α → α → Prop} (hR : ∀ a b c, R a b → S b c → U a c) :
    ∀ {t u v : List α}, List.Forall₂ R t u → List.Forall₂ S u v →
      List.Forall₂ U t v
  | _, _, _, .nil, .nil => .nil
  | _, _, _, .cons h hs, .cons k ks => .cons (hR _ _ _ h k) (forall₂_trans hR hs ks)

end MinRender.Table
