import Mathlib.Order.PiLex

/-!
# Comparison with padding

Two lists are compared position by position, and a list that has ended counts
as zeros from there on. This is the lexicographic order of the infinite
sequences the lists stand for, so it is a total preorder.
-/

namespace MinRender.Padded

variable {α : Type*}

/-! ## Sequences -/

/-- The sequence a list stands for. -/
def value [Zero α] (xs : List α) : Lex (ℕ → α) := toLex fun i => xs.getD i 0

theorem value_zero [Zero α] (xs : List α) : value xs 0 = xs.headD 0 := by
  cases xs <;> rfl

theorem value_succ [Zero α] (xs : List α) (i : ℕ) : value xs (i + 1) = value xs.tail i := by
  cases xs <;> rfl

/-- The order of two sequences, by their first positions. -/
theorem lt_iff_head [LinearOrder α] {f g : Lex (ℕ → α)} :
    f < g ↔ f 0 < g 0 ∨ f 0 = g 0 ∧
      toLex (fun i => f (i + 1)) < toLex (fun i => g (i + 1)) := by
  constructor
  · rintro ⟨i, hbefore, hi⟩
    cases i with
    | zero => exact .inl hi
    | succ i =>
        refine .inr ⟨hbefore 0 i.succ_pos, i, ?_, hi⟩
        intro j hj
        exact hbefore (j + 1) (Nat.succ_lt_succ hj)
  · rintro (h0 | ⟨h0, i, hbefore, hi⟩)
    · exact ⟨0, fun j hj => absurd hj (Nat.not_lt_zero j), h0⟩
    · refine ⟨i + 1, ?_, hi⟩
      intro j hj
      cases j with
      | zero => exact h0
      | succ j => exact hbefore j (Nat.lt_of_succ_lt_succ hj)

/-! ## The comparison -/

variable [LinearOrder α] [Zero α]

/-- The first `n` positions: negative, zero or positive as `xs` is less, equal
or greater. -/
def compareTo : Nat → List α → List α → Int
  | 0, _, _ => 0
  | n + 1, xs, ys =>
      if xs.headD 0 ≠ ys.headD 0 then
        if xs.headD 0 < ys.headD 0 then -1 else 1
      else compareTo n xs.tail ys.tail

/-- All positions of both lists. -/
def compare (xs ys : List α) : Int := compareTo (max xs.length ys.length) xs ys

theorem value_lt_iff (xs ys : List α) :
    value xs < value ys ↔ xs.headD 0 < ys.headD 0 ∨
      xs.headD 0 = ys.headD 0 ∧ value xs.tail < value ys.tail := by
  have hx : toLex (fun i => value xs (i + 1)) = value xs.tail := by
    funext i
    exact value_succ xs i
  have hy : toLex (fun i => value ys (i + 1)) = value ys.tail := by
    funext i
    exact value_succ ys i
  rw [lt_iff_head, value_zero, value_zero, hx, hy]

theorem compareTo_lt_zero : ∀ {n : Nat} {xs ys : List α},
    xs.length ≤ n → ys.length ≤ n → (compareTo n xs ys < 0 ↔ value xs < value ys)
  | 0, xs, ys, hx, hy => by
      obtain rfl := List.eq_nil_of_length_eq_zero (Nat.le_zero.mp hx)
      obtain rfl := List.eq_nil_of_length_eq_zero (Nat.le_zero.mp hy)
      exact iff_of_false (lt_irrefl (0 : Int)) (lt_irrefl _)
  | n + 1, xs, ys, hx, hy => by
      have ih : compareTo n xs.tail ys.tail < 0 ↔ value xs.tail < value ys.tail := by
        refine compareTo_lt_zero ?_ ?_ <;>
        · rw [List.length_tail]
          omega
      rw [value_lt_iff, compareTo]
      split
      · rename_i hne
        split
        · rename_i hlt
          exact iff_of_true (by decide) (.inl hlt)
        · rename_i hlt
          refine iff_of_false (by decide) ?_
          rintro (h | ⟨h, -⟩)
          · exact hlt h
          · exact hne h
      · rename_i heq
        rw [not_not] at heq
        rw [ih, heq]
        simp

theorem compareTo_swap : ∀ {n : Nat} {xs ys : List α},
    compareTo n ys xs = -compareTo n xs ys
  | 0, _, _ => rfl
  | n + 1, xs, ys => by
      unfold compareTo
      rcases lt_trichotomy (xs.headD 0) (ys.headD 0) with h | h | h
      · rw [if_pos h.ne', if_neg h.not_gt, if_pos h.ne, if_pos h]
        rfl
      · rw [if_neg (not_not.mpr h.symm), if_neg (not_not.mpr h)]
        exact compareTo_swap
      · rw [if_pos h.ne, if_pos h, if_pos h.ne', if_neg h.not_gt]

/-- **The comparison is the lexicographic order.** -/
theorem compare_lt_zero {xs ys : List α} : compare xs ys < 0 ↔ value xs < value ys :=
  compareTo_lt_zero (le_max_left _ _) (le_max_right _ _)

theorem compare_swap {xs ys : List α} : compare ys xs = -compare xs ys := by
  unfold compare
  rw [max_comm]
  exact compareTo_swap

theorem compare_pos {xs ys : List α} : 0 < compare xs ys ↔ value ys < value xs := by
  rw [← compare_lt_zero, compare_swap]
  omega

end MinRender.Padded
