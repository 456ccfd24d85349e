import Mathlib.Data.Int.Basic
import Mathlib.Data.List.Basic
import Mathlib.Tactic.Linarith

/-!
# Pictures made of filled rectangles

A picture gives every pixel a colour, and is drawn by filling rectangles one
after another. Square tiles laid out in rows are told apart by integer
division: a pixel inside a tile names the tile. A picture drawn tile by tile is
a colouring of the tile numbers.
-/

namespace MinRender.Raster

/-- A pixel, and a rectangle of them: `width` pixels from `left` on, `height`
from `top` on. -/
structure Pixel where
  x : Int
  y : Int
deriving DecidableEq, Repr

structure Rect where
  left : Int
  top : Int
  width : Int
  height : Int
deriving DecidableEq, Repr

def Rect.Has (r : Rect) (p : Pixel) : Prop :=
  r.left ≤ p.x ∧ p.x < r.left + r.width ∧ r.top ≤ p.y ∧ p.y < r.top + r.height

instance (r : Rect) (p : Pixel) : Decidable (r.Has p) := inferInstanceAs (Decidable (_ ∧ _))

variable {κ : Type*}

def fillRect (r : Rect) (color : κ) (picture : Pixel → κ) (p : Pixel) : κ :=
  if r.Has p then color else picture p

/-! ## Tiles in rows -/

/-- Square tiles of side `side`, `cols` of them in a row, drawn with a margin. -/
structure Tiling where
  side : Int
  cols : Int
  margin : Int
  side_pos : 0 < side
  cols_pos : 0 < cols
  margin_nonneg : 0 ≤ margin

namespace Tiling

variable (t : Tiling)

/-- What is drawn of tile `i`. -/
def tile (i : Int) : Rect where
  left := i % t.cols * t.side + t.margin
  top := i / t.cols * t.side + t.margin
  width := t.side - 2 * t.margin
  height := t.side - 2 * t.margin

/-- The tile of a pixel, counted row by row. -/
def tileAt (p : Pixel) : Int := p.y / t.side * t.cols + p.x / t.side

/-- The pixel is in the columns of the tiles, and not above them. -/
def Covers (p : Pixel) : Prop := 0 ≤ p.x ∧ 0 ≤ p.y ∧ p.x / t.side < t.cols

/-- The pixel is off the margins of its tile. -/
def Inside (p : Pixel) : Prop :=
  (t.margin ≤ p.x % t.side ∧ p.x % t.side < t.side - t.margin) ∧
    t.margin ≤ p.y % t.side ∧ p.y % t.side < t.side - t.margin

instance (p : Pixel) : Decidable (t.Covers p) := inferInstanceAs (Decidable (_ ∧ _))
instance (p : Pixel) : Decidable (t.Inside p) := inferInstanceAs (Decidable (_ ∧ _))

variable {t} {p : Pixel} {i : Int}

/-- A coordinate is between the margins of cell `k` where `k` is its quotient and its
remainder is off the margins. -/
theorem between_iff (x k : Int) :
    k * t.side + t.margin ≤ x ∧ x < k * t.side + t.margin + (t.side - 2 * t.margin) ↔
      x / t.side = k ∧ t.margin ≤ x % t.side ∧ x % t.side < t.side - t.margin := by
  have hside := t.side_pos
  have hmargin := t.margin_nonneg
  have hdiv := Int.mul_ediv_add_emod x t.side
  constructor
  · rintro ⟨hlow, hhigh⟩
    have hquot : x / t.side = k := by
      refine Int.ediv_eq_iff_of_pos hside |>.mpr ⟨?_, ?_⟩
      · linarith
      · linarith
    rw [hquot, Int.mul_comm] at hdiv
    refine ⟨hquot, ?_, ?_⟩
    · linarith
    · linarith
  · rintro ⟨rfl, hlow, hhigh⟩
    rw [Int.mul_comm] at hdiv
    constructor
    · linarith
    · linarith

/-- The tile of a covered pixel is in its row and column. -/
theorem tileAt_split (h : t.Covers p) :
    t.tileAt p % t.cols = p.x / t.side ∧ t.tileAt p / t.cols = p.y / t.side := by
  have hcol : 0 ≤ p.x / t.side := Int.ediv_nonneg h.1 (Int.le_of_lt t.side_pos)
  have hcols : t.cols ≠ 0 := Int.ne_of_gt t.cols_pos
  unfold tileAt
  constructor
  · rw [Int.add_comm, Int.add_mul_emod_self_right, Int.emod_eq_of_lt hcol h.2.2]
  · rw [Int.add_comm, Int.add_mul_ediv_right _ _ hcols, Int.ediv_eq_zero_of_lt hcol h.2.2,
      Int.zero_add]

/-- The pixel is anywhere in the square of tile `i`. -/
theorem covers_iff (hi : 0 ≤ i) :
    p.x / t.side = i % t.cols ∧ p.y / t.side = i / t.cols ↔ t.Covers p ∧ t.tileAt p = i := by
  have hcols := t.cols_pos
  have hside := t.side_pos
  constructor
  · rintro ⟨hcol, hrow⟩
    have hmod : 0 ≤ i % t.cols ∧ i % t.cols < t.cols :=
      ⟨Int.emod_nonneg i (Int.ne_of_gt hcols), Int.emod_lt_of_pos i hcols⟩
    have hdiv : 0 ≤ i / t.cols := Int.ediv_nonneg hi (Int.le_of_lt hcols)
    refine ⟨⟨?_, ?_, hcol ▸ hmod.2⟩, ?_⟩
    · exact (Int.ediv_nonneg_iff_of_pos hside).mp (hcol ▸ hmod.1)
    · exact (Int.ediv_nonneg_iff_of_pos hside).mp (hrow ▸ hdiv)
    · unfold tileAt
      rw [hcol, hrow, Int.mul_comm]
      exact Int.mul_ediv_add_emod i t.cols
  · rintro ⟨hcovers, rfl⟩
    obtain ⟨hcol, hrow⟩ := tileAt_split hcovers
    exact ⟨hcol.symm, hrow.symm⟩

/-- **A pixel that is drawn with a tile names it.** -/
theorem has_tile_iff (hi : 0 ≤ i) :
    (t.tile i).Has p ↔ t.Inside p ∧ t.Covers p ∧ t.tileAt p = i := by
  have hx := between_iff (t := t) p.x (i % t.cols)
  have hy := between_iff (t := t) p.y (i / t.cols)
  rw [← covers_iff hi]
  unfold Rect.Has tile Inside
  dsimp only
  constructor
  · rintro ⟨hleft, hright, htop, hbottom⟩
    obtain ⟨hcol, hinx⟩ := hx.mp ⟨hleft, hright⟩
    obtain ⟨hrow, hiny⟩ := hy.mp ⟨htop, hbottom⟩
    exact ⟨⟨hinx, hiny⟩, hcol, hrow⟩
  · rintro ⟨⟨hinx, hiny⟩, hcol, hrow⟩
    obtain ⟨hleft, hright⟩ := hx.mpr ⟨hcol, hinx⟩
    obtain ⟨htop, hbottom⟩ := hy.mpr ⟨hrow, hiny⟩
    exact ⟨hleft, hright, htop, hbottom⟩

/-! ## Pictures by tile -/

/-- The picture shows the colouring of the tiles, and `back` outside them. -/
def Shows (t : Tiling) (back : κ) (colors : Int → κ) (picture : Pixel → κ) : Prop :=
  ∀ p, picture p = if t.Inside p ∧ t.Covers p then colors (t.tileAt p) else back

theorem shows_back {back : κ} : Shows t back (fun _ => back) fun _ => back := fun p => by
  rw [ite_self]

/-- Filling a tile recolours it. -/
theorem Shows.fill {back : κ} {colors : Int → κ} {picture : Pixel → κ}
    (h : Shows t back colors picture) (hi : 0 ≤ i) (color : κ) :
    Shows t back (fun j => if j = i then color else colors j)
      (fillRect (t.tile i) color picture) := by
  intro p
  unfold fillRect
  rw [h p]
  by_cases hin : t.Inside p ∧ t.Covers p
  · rw [if_pos hin, if_pos hin]
    dsimp only
    by_cases htile : t.tileAt p = i
    · rw [if_pos ((has_tile_iff hi).mpr ⟨hin.1, hin.2, htile⟩), if_pos htile]
    · rw [if_neg fun hhas => htile ((has_tile_iff hi).mp hhas).2.2, if_neg htile]
  · rw [if_neg hin, if_neg hin, if_neg fun hhas => ?_]
    obtain ⟨hinside, hcovers, -⟩ := (has_tile_iff hi).mp hhas
    exact hin ⟨hinside, hcovers⟩

/-- Filling several tiles recolours those. -/
theorem Shows.fill_all {back : κ} (color : κ) :
    ∀ {tiles : List Int} {colors : Int → κ} {picture : Pixel → κ}, (∀ i ∈ tiles, 0 ≤ i) →
      Shows t back colors picture →
      Shows t back (fun j => if j ∈ tiles then color else colors j)
        (tiles.foldl (fun picture i => fillRect (t.tile i) color picture) picture)
  | [], colors, picture, _, h => by simpa using h
  | i :: tiles, colors, picture, hnonneg, h => by
      obtain ⟨hi, hrest⟩ := List.forall_mem_cons.mp hnonneg
      have hall := Shows.fill_all color hrest (h.fill hi color)
      intro p
      rw [List.foldl_cons, hall p]
      congr 1
      dsimp only
      by_cases hin : t.tileAt p ∈ tiles
      · rw [if_pos hin, if_pos (List.mem_cons_of_mem _ hin)]
      · rw [if_neg hin]
        by_cases heq : t.tileAt p = i
        · rw [if_pos heq, if_pos (heq ▸ List.mem_cons_self)]
        · rw [if_neg heq, if_neg (by simp [heq, hin])]

end Tiling

end MinRender.Raster
