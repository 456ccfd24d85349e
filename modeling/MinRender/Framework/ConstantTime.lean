import Mathlib.Data.List.Zip

/-!
# Comparing without stopping early

Two texts compared by the differences of all their bytes, so that how long it
takes says nothing about where they first differ.
-/

namespace MinRender.ConstantTime

/-- Every bit in which two bytes at the same place differ. -/
def differences (xs ys : List UInt8) : UInt8 :=
  (xs.zip ys).foldl (fun diff p => diff ||| (p.1 ^^^ p.2)) 0

theorem foldl_or_eq_zero_iff {ps : List (UInt8 × UInt8)} {diff : UInt8} :
    ps.foldl (fun diff p => diff ||| (p.1 ^^^ p.2)) diff = 0 ↔
      diff = 0 ∧ ∀ p ∈ ps, p.1 = p.2 := by
  induction ps generalizing diff with
  | nil => simp
  | cons p ps ih =>
      rw [List.foldl_cons, ih, UInt8.or_eq_zero_iff, UInt8.xor_eq_zero_iff, List.forall_mem_cons,
        and_assoc]

/-- Nothing differs exactly where the bytes are the same. -/
theorem differences_eq_zero_iff {xs ys : List UInt8} (h : xs.length = ys.length) :
    differences xs ys = 0 ↔ xs = ys := by
  unfold differences
  rw [foldl_or_eq_zero_iff, and_iff_right rfl]
  constructor
  · intro hsame
    refine List.ext_getElem h fun i hx hy => ?_
    have hzip : i < (xs.zip ys).length := by
      rw [List.length_zip]
      exact Nat.lt_min.mpr ⟨hx, hy⟩
    have hp := hsame _ (List.getElem_mem hzip)
    rwa [List.getElem_zip] at hp
  · rintro rfl p hp
    have hself : xs.zip xs = xs.map fun x => (x, x) := List.zipWith_self
    rw [hself] at hp
    obtain ⟨x, -, rfl⟩ := List.mem_map.mp hp
    rfl

end MinRender.ConstantTime
