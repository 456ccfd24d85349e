import Mathlib.Data.List.Basic

/-!
# Merges of two lists

A list that two writers append to, in any order, is a merge of what each of
them wrote.
-/

namespace MinRender

variable {α : Type*}

/-- `w` has the elements of `t` and of `u`, those of each in their order. -/
inductive Shuffle : List α → List α → List α → Prop
  | nil : Shuffle [] [] []
  | left {t u w : List α} (a : α) (h : Shuffle t u w) : Shuffle (a :: t) u (a :: w)
  | right {t u w : List α} (a : α) (h : Shuffle t u w) : Shuffle t (a :: u) (a :: w)

namespace Shuffle

variable {t u w t' u' w' : List α}

theorem all_left : ∀ t : List α, Shuffle t [] t
  | [] => .nil
  | a :: t => .left a (all_left t)

theorem all_right : ∀ u : List α, Shuffle [] u u
  | [] => .nil
  | a :: u => .right a (all_right u)

theorem symm (h : Shuffle t u w) : Shuffle u t w := by
  induction h with
  | nil => exact .nil
  | left a _ ih => exact .right a ih
  | right a _ ih => exact .left a ih

theorem perm (h : Shuffle t u w) : (t ++ u).Perm w := by
  induction h with
  | nil => exact .refl _
  | left a _ ih => exact ih.cons a
  | right a _ ih => exact List.perm_middle.trans (ih.cons a)

theorem append (h : Shuffle t u w) (h' : Shuffle t' u' w') :
    Shuffle (t ++ t') (u ++ u') (w ++ w') := by
  induction h with
  | nil => exact h'
  | left a _ ih => exact .left a ih
  | right a _ ih => exact .right a ih

/-- The first writer appends. -/
theorem append_left (h : Shuffle t u w) (more : List α) : Shuffle (t ++ more) u (w ++ more) := by
  have happend := h.append (all_left more)
  rwa [List.append_nil] at happend

/-- The second writer appends. -/
theorem append_right (h : Shuffle t u w) (more : List α) : Shuffle t (u ++ more) (w ++ more) := by
  have happend := h.append (all_right more)
  rwa [List.append_nil] at happend

end Shuffle

end MinRender
