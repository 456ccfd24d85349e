import Mathlib.Data.List.Range
import MinRender.Core.JobTypes

/-!
# The split of a frame range

`computeChunks` cuts a range into consecutive pieces of one size. It adds the
size to a 32-bit frame number once more than it has to, so the split exists
exactly where the frame after the last full piece is still a 32-bit number.
-/

namespace MinRender

/-- The values of the `int` type. -/
def Int32 (n : Int) : Prop := -2 ^ 31 ≤ n ∧ n < 2 ^ 31

instance (n : Int) : Decidable (Int32 n) := inferInstanceAs (Decidable (_ ∧ _))

namespace ChunkRange

def length (r : ChunkRange) : Int := r.frameEnd - r.frameStart + 1

def Has (r : ChunkRange) (frame : Int) : Prop := r.frameStart ≤ frame ∧ frame ≤ r.frameEnd

end ChunkRange

/-- Consecutive pieces of `[frameStart, frameEnd]`: all of the given size but
the last, which may be shorter and is not empty. -/
structure Partitions (frameStart frameEnd chunkSize : Int) (rs : List ChunkRange) : Prop where
  consecutive : rs.IsChain fun r s => s.frameStart = r.frameEnd + 1
  disjoint : rs.Pairwise fun r s => r.frameEnd < s.frameStart
  union : ∀ frame, (∃ r ∈ rs, r.Has frame) ↔ frameStart ≤ frame ∧ frame ≤ frameEnd
  full : ∀ r ∈ rs.dropLast, r.length = chunkSize
  last : ∀ r ∈ rs, 1 ≤ r.length ∧ r.length ≤ chunkSize

/-! ## The grid -/

/-- Piece `k` of the grid that starts at `f`. -/
def gridRange (frameEnd chunkSize f : Int) (k : Nat) : ChunkRange :=
  ⟨f + k * chunkSize, min (f + (k + 1) * chunkSize - 1) frameEnd⟩

/-- The first `n` pieces from `f` on reach `frameEnd`, and all of them start
before it. -/
structure Reaches (frameEnd chunkSize f : Int) (n : Nat) : Prop where
  past : frameEnd < f + n * chunkSize
  start : f + n * chunkSize ≤ frameEnd + chunkSize

variable {frameStart frameEnd chunkSize f : Int} {n : Nat}

theorem succ_mul_size (n : Nat) :
    ((n + 1 : Nat) : Int) * chunkSize = n * chunkSize + chunkSize := by
  rw [Int.natCast_succ, Int.add_mul, Int.one_mul]

theorem Reaches.next (h : Reaches frameEnd chunkSize f (n + 1)) :
    Reaches frameEnd chunkSize (f + chunkSize) n := by
  obtain ⟨hpast, hstart⟩ := h
  rw [succ_mul_size] at hpast hstart
  exact ⟨by omega, by omega⟩

/-- The number of pieces. -/
theorem reaches_of_le (hsize : 0 < chunkSize) (hle : f ≤ frameEnd) :
    ∃ m : Nat, (m : Int) = (frameEnd - f) / chunkSize ∧
      Reaches frameEnd chunkSize f (m + 1) := by
  have hnonneg : 0 ≤ (frameEnd - f) / chunkSize := Int.ediv_nonneg (by omega) (by omega)
  refine ⟨((frameEnd - f) / chunkSize).toNat, Int.toNat_of_nonneg hnonneg, ?_⟩
  have hdiv := Int.mul_ediv_add_emod (frameEnd - f) chunkSize
  have hmod := Int.emod_nonneg (frameEnd - f) (by omega : chunkSize ≠ 0)
  have hlt := Int.emod_lt_of_pos (frameEnd - f) hsize
  have hcount : (((frameEnd - f) / chunkSize).toNat + 1 : Nat) * chunkSize =
      chunkSize * ((frameEnd - f) / chunkSize) + chunkSize := by
    rw [succ_mul_size, Int.toNat_of_nonneg hnonneg, Int.mul_comm]
  constructor
  · rw [hcount]
    omega
  · rw [hcount]
    omega

theorem gridRange_succ (k : Nat) : gridRange frameEnd chunkSize f (k + 1) =
    gridRange frameEnd chunkSize (f + chunkSize) k := by
  have hmul := @succ_mul_size chunkSize k
  unfold gridRange
  rw [Int.add_mul, Int.one_mul, hmul, Int.add_mul, Int.one_mul]
  congr 1
  · omega
  · congr 1
    omega

/-- **The loop makes the grid**, unless one of its sums leaves the 32 bits. -/
theorem chunksFrom_eq (hsize : 0 < chunkSize) {fuel : Nat}
    (hreach : Reaches frameEnd chunkSize f n) (hfuel : n ≤ fuel) (hf : -2 ^ 31 ≤ f) :
    chunksFrom frameEnd chunkSize fuel f =
      if 0 < n → f + n * chunkSize < 2 ^ 31 then
        some ((List.range n).map (gridRange frameEnd chunkSize f))
      else none := by
  induction n generalizing fuel f with
  | zero =>
      obtain ⟨hpast, -⟩ := hreach
      rw [if_pos (by omega)]
      cases fuel with
      | zero => rfl
      | succ fuel => exact if_neg (by omega)
  | succ n ih =>
      obtain ⟨fuel, rfl⟩ : ∃ m, fuel = m + 1 := ⟨fuel - 1, by omega⟩
      have hnext := hreach.next
      have hn : 0 ≤ (n : Int) * chunkSize := Int.mul_nonneg (by omega) (by omega)
      have hsucc := @succ_mul_size chunkSize n
      have hle : f ≤ frameEnd := by
        have hstart := hreach.start
        rw [hsucc] at hstart
        omega
      have hsum : f + chunkSize + n * chunkSize = f + (n * chunkSize + chunkSize) := by omega
      unfold chunksFrom
      rw [if_pos hle, hsucc, Option.bind_eq_bind]
      by_cases hfits : f + chunkSize < 2 ^ 31
      · have hint : int32? (f + chunkSize) = some (f + chunkSize) :=
          if_pos ⟨by omega, hfits⟩
        rw [hint, Option.bind_some, ih hnext (Nat.le_of_succ_le_succ hfuel) (by omega), hsum]
        by_cases hall : f + (n * chunkSize + chunkSize) < 2 ^ 31
        · rw [if_pos (fun _ => hall), if_pos (fun _ => hall), List.range_succ_eq_map,
            List.map_cons, List.map_map]
          have hgrid : gridRange frameEnd chunkSize (f + chunkSize) =
              gridRange frameEnd chunkSize f ∘ Nat.succ :=
            funext fun k => (gridRange_succ k).symm
          rw [hgrid]
          simp [gridRange]
        · have hpos : 0 < n := by
            rcases Nat.eq_zero_or_pos n with rfl | hpos
            · exact absurd (by simpa using hfits) hall
            · exact hpos
          rw [if_neg (fun himp => hall (himp hpos)),
            if_neg (fun himp => hall (himp (Nat.succ_pos n)))]
          rfl
      · have hint : int32? (f + chunkSize) = none := if_neg fun h => hfits h.2
        have hout : ¬ f + (n * chunkSize + chunkSize) < 2 ^ 31 := by omega
        rw [hint, if_neg (fun himp => hout (himp (Nat.succ_pos n)))]
        rfl

/-! ## The grid is a partition -/

/-- A piece before the last has the full size. -/
theorem gridRange_full (hsize : 0 < chunkSize) (h : Reaches frameEnd chunkSize f (n + 1))
    {k : Nat} (hk : k < n) :
    (gridRange frameEnd chunkSize f k).frameEnd = f + (k + 1) * chunkSize - 1 := by
  have hstart := h.start
  rw [succ_mul_size] at hstart
  have hmul : ((k : Int) + 1) * chunkSize ≤ n * chunkSize :=
    Int.mul_le_mul_of_nonneg_right (by omega) (by omega)
  show min (f + (k + 1) * chunkSize - 1) frameEnd = _
  omega

/-- Every piece has its frames between its ends, and not more than the size. -/
theorem gridRange_length (hsize : 0 < chunkSize) (h : Reaches frameEnd chunkSize f (n + 1))
    {k : Nat} (hk : k < n + 1) :
    1 ≤ (gridRange frameEnd chunkSize f k).length ∧
      (gridRange frameEnd chunkSize f k).length ≤ chunkSize := by
  have hstart := h.start
  rw [succ_mul_size] at hstart
  have hmul : (k : Int) * chunkSize ≤ n * chunkSize :=
    Int.mul_le_mul_of_nonneg_right (by omega) (by omega)
  show 1 ≤ min (f + (k + 1) * chunkSize - 1) frameEnd - (f + k * chunkSize) + 1 ∧
    min (f + (k + 1) * chunkSize - 1) frameEnd - (f + k * chunkSize) + 1 ≤ chunkSize
  rw [Int.add_mul, Int.one_mul]
  omega

theorem gridRange_before (hsize : 0 < chunkSize) {i j : Nat} (hij : i < j) :
    (gridRange frameEnd chunkSize f i).frameEnd <
      (gridRange frameEnd chunkSize f j).frameStart := by
  have hmul : ((i : Int) + 1) * chunkSize ≤ j * chunkSize :=
    Int.mul_le_mul_of_nonneg_right (by omega) (by omega)
  show min (f + (i + 1) * chunkSize - 1) frameEnd < f + j * chunkSize
  omega

theorem gridRange_union (hsize : 0 < chunkSize) (h : Reaches frameEnd chunkSize f (n + 1))
    (frame : Int) :
    (∃ k < n + 1, (gridRange frameEnd chunkSize f k).Has frame) ↔
      f ≤ frame ∧ frame ≤ frameEnd := by
  constructor
  · rintro ⟨k, -, hstart, hend⟩
    have hk : 0 ≤ (k : Int) * chunkSize := Int.mul_nonneg (by omega) (by omega)
    have hlow : f + k * chunkSize ≤ frame := hstart
    have hhigh : frame ≤ min (f + (k + 1) * chunkSize - 1) frameEnd := hend
    omega
  · rintro ⟨hlow, hhigh⟩
    have hpast := h.past
    have hnonneg : 0 ≤ (frame - f) / chunkSize := Int.ediv_nonneg (by omega) (by omega)
    obtain ⟨k, hk⟩ := Int.eq_ofNat_of_zero_le hnonneg
    have hdiv := Int.mul_ediv_add_emod (frame - f) chunkSize
    have hmod := Int.emod_nonneg (frame - f) (by omega : chunkSize ≠ 0)
    have hlt := Int.emod_lt_of_pos (frame - f) hsize
    rw [hk, Int.mul_comm] at hdiv
    have hlast : k < n + 1 := by
      by_contra hge
      have hmul : ((n + 1 : Nat) : Int) * chunkSize ≤ k * chunkSize :=
        Int.mul_le_mul_of_nonneg_right (by omega) (by omega)
      omega
    refine ⟨k, hlast, ?_, ?_⟩
    · show f + k * chunkSize ≤ frame
      omega
    · show frame ≤ min (f + (k + 1) * chunkSize - 1) frameEnd
      rw [Int.add_mul, Int.one_mul]
      omega

theorem partitions_grid (hsize : 0 < chunkSize) (h : Reaches frameEnd chunkSize f (n + 1)) :
    Partitions f frameEnd chunkSize
      ((List.range (n + 1)).map (gridRange frameEnd chunkSize f)) where
  consecutive := by
    rw [List.isChain_map, List.isChain_range_succ]
    intro k hk
    rw [gridRange_full hsize h hk]
    show f + ((k + 1 : Nat) : Int) * chunkSize = _
    rw [Int.natCast_succ]
    omega
  disjoint := by
    rw [List.pairwise_map]
    exact List.pairwise_lt_range.imp fun hij => gridRange_before hsize hij
  union := by
    intro frame
    rw [← gridRange_union hsize h frame]
    constructor
    · rintro ⟨r, hr, hhas⟩
      obtain ⟨k, hk, rfl⟩ := List.mem_map.mp hr
      exact ⟨k, List.mem_range.mp hk, hhas⟩
    · rintro ⟨k, hk, hhas⟩
      exact ⟨_, List.mem_map.mpr ⟨k, List.mem_range.mpr hk, rfl⟩, hhas⟩
  full := by
    intro r hr
    rw [List.range_succ, List.map_append, List.map_singleton, List.dropLast_concat] at hr
    obtain ⟨k, hk, rfl⟩ := List.mem_map.mp hr
    unfold ChunkRange.length
    rw [gridRange_full hsize h (List.mem_range.mp hk)]
    show f + (k + 1) * chunkSize - 1 - (f + k * chunkSize) + 1 = chunkSize
    rw [Int.add_mul, Int.one_mul]
    omega
  last := by
    intro r hr
    obtain ⟨k, hk, rfl⟩ := List.mem_map.mp hr
    exact gridRange_length hsize h (List.mem_range.mp hk)

/-! ## When the arithmetic stays in 32 bits -/

/-- **The range is partitioned exactly where the sum of the last round is a
32-bit number**: the first frame plus the size times the number of pieces. -/
theorem computeChunks_partitions_iff (frameStart frameEnd chunkSize : Int)
    (hstart : Int32 frameStart) (hle : frameStart ≤ frameEnd) (hsize : 1 ≤ chunkSize) :
    (∃ rs, computeChunks frameStart frameEnd chunkSize = some rs ∧
        Partitions frameStart frameEnd chunkSize rs) ↔
      frameStart + ((frameEnd - frameStart) / chunkSize + 1) * chunkSize < 2 ^ 31 := by
  obtain ⟨m, hm, hreach⟩ := reaches_of_le (by omega : 0 < chunkSize) hle
  have hfuel : m + 1 ≤ (frameEnd - frameStart + 1).toNat := by
    have hdiv : (frameEnd - frameStart) / chunkSize ≤ frameEnd - frameStart :=
      Int.ediv_le_self _ (by omega)
    omega
  have hloop := chunksFrom_eq (by omega) hreach hfuel hstart.1
  have hcompute : computeChunks frameStart frameEnd chunkSize =
      chunksFrom frameEnd chunkSize (frameEnd - frameStart + 1).toNat frameStart :=
    if_neg (by omega)
  rw [hcompute, hloop, ← hm, ← Int.natCast_succ]
  constructor
  · rintro ⟨rs, hrs, -⟩
    split at hrs
    · rename_i hfits
      exact hfits (Nat.succ_pos m)
    · cases hrs
  · intro hfits
    exact ⟨_, if_pos fun _ => hfits, partitions_grid (by omega) hreach⟩

theorem computeChunks_partitions_shot :
    (∃ rs, computeChunks 1 10 4 = some rs ∧ Partitions 1 10 4 rs) ↔
      (1 : Int) + ((10 - 1) / 4 + 1) * 4 < 2 ^ 31 :=
  computeChunks_partitions_iff 1 10 4 (by decide) (by decide) (by decide)

/-- **The chunks overflow**: the last frame there is has none after it. -/
theorem computeChunks_overflows :
    ¬ ∀ frameStart frameEnd chunkSize : Int, Int32 frameStart → Int32 frameEnd →
      Int32 chunkSize → frameStart ≤ frameEnd → 1 ≤ chunkSize →
      ∃ rs, computeChunks frameStart frameEnd chunkSize = some rs ∧
        Partitions frameStart frameEnd chunkSize rs := by
  intro h
  obtain ⟨rs, hrs, -⟩ := h 2147483647 2147483647 1 (by decide) (by decide) (by decide)
    (by decide) (by decide)
  have hnone : computeChunks 2147483647 2147483647 1 = none := by decide
  rw [hnone] at hrs
  exact (nomatch hrs)

end MinRender
