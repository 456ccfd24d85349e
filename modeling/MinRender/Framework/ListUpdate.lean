import Mathlib.Data.List.Basic
import Mathlib.Data.List.Zip

/-!
# Updating a shown list in place

Rows are shown by what each says in every role. When a new list has the keys of
the old one in the same order, the rows that compare as the same stay and the
others are taken over, each with a signal; any other list replaces the old one.
Whether that shows the new list depends on the comparison alone: it has to see
every difference that a role shows.
-/

namespace MinRender.ListUpdate

/-- What the views are told. -/
inductive Signal
  | dataChanged (row : Nat)
  | reset
deriving DecidableEq, Repr

variable {ρ κ φ ν : Type*}

def sameKeys [DecidableEq κ] (key : ρ → κ) (old incoming : List ρ) : Bool :=
  decide (old.length = incoming.length) &&
    (old.zip incoming).all fun p => decide (key p.1 = key p.2)

def mergeRows (same : ρ → ρ → Bool) (old incoming : List ρ) : List ρ :=
  (old.zip incoming).map fun p => if same p.1 p.2 then p.1 else p.2

def changedRows (same : ρ → ρ → Bool) (old incoming : List ρ) : List Signal :=
  (old.zip incoming).zipIdx.filterMap fun (p, i) =>
    if same p.1 p.2 then none else some (.dataChanged i)

/-- The rows afterwards, and the signals. -/
def update [DecidableEq κ] (key : ρ → κ) (same : ρ → ρ → Bool) (old incoming : List ρ) :
    List ρ × List Signal :=
  if sameKeys key old incoming then (mergeRows same old incoming, changedRows same old incoming)
  else (incoming, [.reset])

/-- What stands in a row; past the end there is nothing. -/
def shown (tells : ρ → φ → ν) (nothing : ν) (rows : List ρ) (row : Nat) (role : φ) : ν :=
  match rows[row]? with
  | none => nothing
  | some x => tells x role

variable {key : ρ → κ} {same : ρ → ρ → Bool} {tells : ρ → φ → ν} {nothing : ν}
  {old incoming : List ρ}

/-- Row by row: the old row and the new one stand side by side, or neither is there. -/
theorem row_cases (h : old.map key = incoming.map key) (row : Nat) :
    (∃ p ∈ old.zip incoming, (old.zip incoming)[row]? = some p ∧
      old[row]? = some p.1 ∧ incoming[row]? = some p.2) ∨
    ((old.zip incoming)[row]? = none ∧ old[row]? = none ∧ incoming[row]? = none) := by
  have hlen : old.length = incoming.length := by
    have hmap := congrArg List.length h
    rwa [List.length_map, List.length_map] at hmap
  rcases Nat.lt_or_ge row old.length with hlt | hge
  · have hnew : row < incoming.length := hlen ▸ hlt
    have hzip : (old.zip incoming)[row]? = some (old[row], incoming[row]) := by
      rw [List.getElem?_zip_eq_some]
      exact ⟨List.getElem?_eq_getElem hlt, List.getElem?_eq_getElem hnew⟩
    exact .inl ⟨_, List.mem_of_getElem? hzip, hzip, List.getElem?_eq_getElem hlt,
      List.getElem?_eq_getElem hnew⟩
  · have hnew : incoming.length ≤ row := hlen ▸ hge
    refine .inr ⟨?_, List.getElem?_eq_none hge, List.getElem?_eq_none hnew⟩
    refine List.getElem?_eq_none ?_
    rw [List.length_zip]
    omega

variable [DecidableEq κ]

theorem sameKeys_iff : sameKeys key old incoming = true ↔ old.map key = incoming.map key := by
  unfold sameKeys
  rw [Bool.and_eq_true, decide_eq_true_eq]
  induction old generalizing incoming with
  | nil =>
      cases incoming with
      | nil => simp
      | cons y ys => simp
  | cons x xs ih =>
      cases incoming with
      | nil => simp
      | cons y ys =>
          rw [List.zip_cons_cons, List.all_cons, Bool.and_eq_true, decide_eq_true_eq,
            List.map_cons, List.map_cons, List.cons.injEq, List.length_cons, List.length_cons,
            Nat.add_right_cancel_iff, ← ih]
          constructor
          · rintro ⟨hlen, hkey, hrest⟩
            exact ⟨hkey, hlen, hrest⟩
          · rintro ⟨hkey, hlen, hrest⟩
            exact ⟨hlen, hkey, hrest⟩

theorem key_of_mem_zip (h : old.map key = incoming.map key) {p : ρ × ρ}
    (hp : p ∈ old.zip incoming) : key p.1 = key p.2 := by
  have hall := (Bool.and_eq_true_iff.mp (sameKeys_iff.mpr h)).2
  exact of_decide_eq_true (List.all_eq_true.mp hall p hp)

/-- **An update shows the new list exactly where the comparison sees every
difference that is shown.** -/
theorem shown_update_iff :
    (∀ row role, shown tells nothing (update key same old incoming).1 row role =
        shown tells nothing incoming row role) ↔
      (old.map key = incoming.map key → ∀ p ∈ old.zip incoming, same p.1 p.2 = true →
        ∀ role, tells p.1 role = tells p.2 role) := by
  unfold update
  by_cases hkeys : old.map key = incoming.map key
  · rw [if_pos (sameKeys_iff.mpr hkeys)]
    unfold shown mergeRows
    dsimp only
    constructor
    · intro h _ p hp hsame role
      obtain ⟨row, hrow⟩ := List.mem_iff_getElem?.mp hp
      obtain ⟨hold, hnew⟩ := List.getElem?_zip_eq_some.mp hrow
      have hshown := h row role
      rw [List.getElem?_map, hrow, hnew, Option.map_some, if_pos hsame] at hshown
      exact hshown
    · intro h row role
      rw [List.getElem?_map]
      rcases row_cases hkeys row with ⟨p, hp, hzip, -, hnew⟩ | ⟨hzip, -, hnew⟩
      · rw [hzip, hnew, Option.map_some]
        by_cases hsame : same p.1 p.2 = true
        · rw [if_pos hsame]
          exact h hkeys p hp hsame role
        · rw [if_neg hsame]
      · rw [hzip, hnew, Option.map_none]
  · rw [if_neg (mt sameKeys_iff.mp hkeys)]
    constructor
    · intro _ h
      exact absurd h hkeys
    · intro _ row role
      rfl

/-- Views are told of every row that shows something else than before. -/
theorem signal_of_shown_ne {row : Nat} {role : φ}
    (h : shown tells nothing (update key same old incoming).1 row role ≠
      shown tells nothing old row role) :
    Signal.reset ∈ (update key same old incoming).2 ∨
      Signal.dataChanged row ∈ (update key same old incoming).2 := by
  unfold update at h ⊢
  by_cases hkeys : old.map key = incoming.map key
  · rw [if_pos (sameKeys_iff.mpr hkeys)] at h ⊢
    refine .inr ?_
    unfold shown mergeRows at h
    dsimp only at h
    rw [List.getElem?_map] at h
    rcases row_cases hkeys row with ⟨p, -, hzip, hold, -⟩ | ⟨hzip, hold, -⟩
    · rw [hzip, hold, Option.map_some] at h
      have hsame : ¬ same p.1 p.2 = true := by
        intro hsame
        rw [if_pos hsame] at h
        exact h rfl
      unfold changedRows
      rw [List.mem_filterMap]
      refine ⟨(p, row), List.mk_mem_zipIdx_iff_getElem?.mpr hzip, ?_⟩
      exact if_neg hsame
    · rw [hzip, hold, Option.map_none] at h
      exact absurd rfl h
  · rw [if_neg (mt sameKeys_iff.mp hkeys)]
    exact .inl List.mem_cons_self

end MinRender.ListUpdate
