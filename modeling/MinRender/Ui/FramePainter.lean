import Mathlib.Data.Rat.Floor
import MinRender.Core.FrameGrid
import MinRender.Framework.Raster
import MinRender.Monitor.AssignmentPass
import MinRender.Monitor.ChunkTable
import MinRender.Ui.ListModels

/-!
# The grid of frames

`FrameGrid` paints a job as one cell per frame and answers which frame a click
is on. Both go by the same cells: the colour inside a cell is decided by the one
chunk that has its frame, the gutter belongs to the selection, and a click
anywhere in the cell finds the frame.
-/

namespace MinRender.FramePainter
open Raster ChunksModel

/-- `static_cast<int>` -/
def toInt (x : Rat) : Int := if x < 0 then ⌈x⌉ else ⌊x⌋

def columns (width : Rat) (cellSize : Int) : Int := max 1 ((toInt width).tdiv cellSize)

/-- What the item computes from its properties is in the range of an `int`. -/
structure GridFits (frameStart frameEnd cellSize : Int) (width : Rat) : Prop where
  first : Int32 frameStart
  last : Int32 frameEnd
  span : Int32 (frameEnd - frameStart)
  count : Int32 (frameEnd - frameStart + 1)
  breadth : Int32 (toInt width)
  sum : Int32 (frameEnd - frameStart + 1 + columns width cellSize)
  height : ((frameEnd - frameStart).tdiv (columns width cellSize) + 1) * cellSize < 2 ^ 31

/-- The properties of the item. The setters keep the cell size positive. -/
structure FrameGrid where
  frameStart : Int := 0
  frameEnd : Int := 0
  cellSize : Int := 8
  selectedFrame : Int := -1
  width : Rat
  sized : 0 < cellSize
  fits : GridFits frameStart frameEnd cellSize width

/-- The colours the item is given, and the white of the outline. -/
structure Palette (κ : Type*) where
  bg : κ
  unclaimed : κ
  assigned : κ
  rendered : κ
  completed : κ
  failed : κ
  outline : κ

namespace FrameGrid

variable (g : FrameGrid)

def totalFrames : Int := g.frameEnd - g.frameStart + 1

def cellsPerRow : Int := columns g.width g.cellSize

def padding : Int := 1

/-- The cells: `cellRect` of the code is `tile`. -/
def tiling : Tiling where
  side := g.cellSize
  cols := g.cellsPerRow
  margin := padding
  side_pos := g.sized
  cols_pos := Int.lt_of_lt_of_le Int.zero_lt_one (Int.le_max_left _ _)
  margin_nonneg := Int.zero_le_ofNat 1

def frameAtPosition (x y : Rat) : Int :=
  if g.totalFrames ≤ 0 ∨ g.cellSize ≤ 0 ∨ x < 0 ∨ y < 0 then -1
  else
    let col := (toInt x).tdiv g.cellSize
    let row := (toInt y).tdiv g.cellSize
    if g.cellsPerRow ≤ col then -1
    else
      let idx := row * g.cellsPerRow + col
      if idx < 0 ∨ g.totalFrames ≤ idx then -1 else g.frameStart + idx

def implicitHeight : Int :=
  if g.totalFrames ≤ 0 ∨ g.cellSize ≤ 0 then 0
  else
    let cols := max 1 ((max 1 (toInt g.width)).tdiv g.cellSize)
    (g.totalFrames + cols - 1).tdiv cols * g.cellSize

end FrameGrid

/-! ## Painting -/

/-- `for (int i = lo; i <= hi; ++i)` -/
def indices (lo hi : Int) : List Int :=
  (List.range (hi - lo + 1).toNat).map fun (k : Nat) => lo + (k : Int)

variable {κ : Type*}

def fillCells (g : FrameGrid) (color : κ) (cells : List Int) (picture : Pixel → κ) : Pixel → κ :=
  cells.foldl (fun picture i => fillRect (g.tiling.tile i) color picture) picture

/-- The cells of a chunk that are in the grid. -/
def cellsOf (g : FrameGrid) (c : Row) : List Int :=
  indices (max 0 (c.frameStart - g.frameStart))
    (min (g.totalFrames - 1) (c.frameEnd - g.frameStart))

def chunkColor (palette : Palette κ) (state : String) : κ :=
  if state = "completed" then palette.completed
  else if state = "failed" then palette.failed
  else if state = "assigned" ∨ state = "rendering" then palette.assigned
  else palette.unclaimed

def frameDoneColor (palette : Palette κ) (state : String) : κ :=
  if state = "completed" then palette.completed else palette.rendered

/-- The completed frames of a chunk that are in the grid. -/
def doneCells (g : FrameGrid) (c : Row) : List Int :=
  (c.completedFrames.map (· - g.frameStart)).filter fun i => 0 ≤ i ∧ i < g.totalFrames

def paintChunk [DecidableEq κ] (g : FrameGrid) (palette : Palette κ) (picture : Pixel → κ)
    (c : Row) : Pixel → κ :=
  if c.state = "stopped" then fillCells g palette.bg (cellsOf g c) picture
  else
    let color := chunkColor palette c.state
    -- a pending chunk stays as the first pass left it
    let picture := if color ≠ palette.unclaimed then fillCells g color (cellsOf g c) picture
      else picture
    fillCells g (frameDoneColor palette c.state) (doneCells g c) picture

/-- `drawRect` with a pen one pixel wide. -/
def drawRect (left top width height : Int) (color : κ) (picture : Pixel → κ) (p : Pixel) : κ :=
  if (left ≤ p.x ∧ p.x ≤ left + width ∧ top ≤ p.y ∧ p.y ≤ top + height) ∧
      (p.x = left ∨ p.x = left + width ∨ p.y = top ∨ p.y = top + height) then color
  else picture p

def paintSelection (g : FrameGrid) (palette : Palette κ) (picture : Pixel → κ) : Pixel → κ :=
  if g.frameStart ≤ g.selectedFrame ∧ g.selectedFrame ≤ g.frameEnd then
    let idx := g.selectedFrame - g.frameStart
    drawRect (idx.tmod g.cellsPerRow * g.cellSize) (idx.tdiv g.cellsPerRow * g.cellSize)
      (g.cellSize - 1) (g.cellSize - 1) palette.outline picture
  else picture

/-- `none` where the item has no model. -/
def paint [DecidableEq κ] (g : FrameGrid) (palette : Palette κ) (model : Option (List Row)) :
    Pixel → κ :=
  let picture : Pixel → κ := fun _ => palette.bg
  match model with
  | none => picture
  | some rows =>
      if g.frameEnd < g.frameStart ∨ g.cellSize ≤ 0 then picture
      else if g.cellSize - 2 * FrameGrid.padding ≤ 0 then picture
      else
        let picture := fillCells g palette.unclaimed (indices 0 (g.totalFrames - 1)) picture
        let picture := rows.foldl (paintChunk g palette) picture
        paintSelection g palette picture

/-! ## What a picture should show -/

/-- The pixel is in the square of the frame's cell, gutter included. -/
def InCell (g : FrameGrid) (frame : Int) (p : Pixel) : Prop :=
  (g.frameStart ≤ frame ∧ frame ≤ g.frameEnd) ∧ g.tiling.Covers p ∧
    g.tiling.tileAt p = frame - g.frameStart

/-- The chunk has the frame. -/
def HasFrame (c : Row) (frame : Int) : Prop := c.frameStart ≤ frame ∧ frame ≤ c.frameEnd

instance (c : Row) (frame : Int) : Decidable (HasFrame c frame) :=
  inferInstanceAs (Decidable (_ ∧ _))

/-- A frame of the chunk: the background where that is stopped, and done frames
apart from the rest of it. -/
def rowColor (palette : Palette κ) (c : Row) (frame : Int) : κ :=
  if c.state = "stopped" then palette.bg
  else if frame ∈ c.completedFrames then frameDoneColor palette c.state
  else chunkColor palette c.state

def frameColor (palette : Palette κ) (rows : List Row) (frame : Int) : κ :=
  match rows.find? fun c => HasFrame c frame with
  | none => palette.unclaimed
  | some c => rowColor palette c frame

/-- The chunks have their frames to themselves, and list only their own as done. -/
structure RowsOk (rows : List Row) : Prop where
  apart : rows.Pairwise fun c d => ∀ frame, HasFrame c frame → ¬ HasFrame d frame
  within : ∀ c ∈ rows, ∀ frame ∈ c.completedFrames, HasFrame c frame

/-! ## The cells of a chunk -/

theorem mem_indices {lo hi i : Int} : i ∈ indices lo hi ↔ lo ≤ i ∧ i ≤ hi := by
  unfold indices
  rw [List.mem_map]
  constructor
  · rintro ⟨k, hk, rfl⟩
    rw [List.mem_range] at hk
    omega
  · rintro ⟨hlo, hhi⟩
    refine ⟨(i - lo).toNat, List.mem_range.mpr (by omega), by omega⟩

variable {g : FrameGrid} {palette : Palette κ} {c : Row} {i : Int}

theorem mem_cellsOf : i ∈ cellsOf g c ↔
    (0 ≤ i ∧ i < g.totalFrames) ∧ HasFrame c (g.frameStart + i) := by
  unfold cellsOf HasFrame
  rw [mem_indices]
  omega

theorem mem_doneCells : i ∈ doneCells g c ↔
    (0 ≤ i ∧ i < g.totalFrames) ∧ g.frameStart + i ∈ c.completedFrames := by
  unfold doneCells
  rw [List.mem_filter, List.mem_map, decide_eq_true_eq, and_comm]
  refine and_congr_right fun _ => ?_
  constructor
  · rintro ⟨f, hf, rfl⟩
    rwa [add_sub_cancel]
  · intro hf
    exact ⟨_, hf, by omega⟩

/-! ## Painting tile by tile -/

/-- The cells after the chunks in `past`; nothing is painted outside the range. -/
def PaintedBy (g : FrameGrid) (palette : Palette κ) (past : List Row) (colors : Int → κ) : Prop :=
  ∀ i, colors i = if 0 ≤ i ∧ i < g.totalFrames then frameColor palette past (g.frameStart + i)
    else palette.bg

theorem fillCells_shows {color : κ} {cells : List Int} {colors : Int → κ} {picture : Pixel → κ}
    (hcells : ∀ i ∈ cells, 0 ≤ i) (h : g.tiling.Shows palette.bg colors picture) :
    g.tiling.Shows palette.bg (fun i => if i ∈ cells then color else colors i)
      (fillCells g color cells picture) :=
  Tiling.Shows.fill_all color hcells h

theorem frameColor_concat_of_not {past : List Row} {frame : Int} (h : ¬ HasFrame c frame) :
    frameColor palette (past ++ [c]) frame = frameColor palette past frame := by
  unfold frameColor
  rw [List.find?_append, List.find?_singleton, if_neg (by simpa using h), Option.or_none]

theorem frameColor_of_none {past : List Row} {frame : Int}
    (h : ∀ d ∈ past, ¬ HasFrame d frame) : frameColor palette past frame = palette.unclaimed := by
  have hnone : past.find? (fun d => HasFrame d frame) = none :=
    List.find?_eq_none.mpr fun d hd => by simpa using h d hd
  unfold frameColor
  rw [hnone]

theorem frameColor_concat_of_has {past : List Row} {frame : Int}
    (hpast : ∀ d ∈ past, ¬ HasFrame d frame) (h : HasFrame c frame) :
    frameColor palette (past ++ [c]) frame = rowColor palette c frame := by
  have hnone : past.find? (fun d => HasFrame d frame) = none :=
    List.find?_eq_none.mpr fun d hd => by simpa using hpast d hd
  unfold frameColor
  rw [List.find?_append, hnone, List.find?_singleton, if_pos (by simpa using h), Option.none_or]

/-- **A chunk is painted over the chunks before it.** -/
theorem paintChunk_shows [DecidableEq κ] {past : List Row} {colors : Int → κ} {picture : Pixel → κ}
    (hpast : ∀ d ∈ past, ∀ frame, HasFrame d frame → ¬ HasFrame c frame)
    (hwithin : ∀ frame ∈ c.completedFrames, HasFrame c frame)
    (hpainted : PaintedBy g palette past colors)
    (h : g.tiling.Shows palette.bg colors picture) :
    ∃ colors', PaintedBy g palette (past ++ [c]) colors' ∧
      g.tiling.Shows palette.bg colors' (paintChunk g palette picture c) := by
  have hcells : ∀ i ∈ cellsOf g c, 0 ≤ i := fun i hi => (mem_cellsOf.mp hi).1.1
  have hdone : ∀ i ∈ doneCells g c, 0 ≤ i := fun i hi => (mem_doneCells.mp hi).1.1
  -- a cell of the chunk is still as the first pass left it
  have hfresh : ∀ i, (0 ≤ i ∧ i < g.totalFrames) → HasFrame c (g.frameStart + i) →
      (∀ d ∈ past, ¬ HasFrame d (g.frameStart + i)) ∧ colors i = palette.unclaimed := by
    intro i hi hhas
    have hnone : ∀ d ∈ past, ¬ HasFrame d (g.frameStart + i) :=
      fun d hd hd' => hpast d hd _ hd' hhas
    rw [hpainted i, if_pos hi, frameColor_of_none hnone]
    exact ⟨hnone, rfl⟩
  have hother : ∀ i, ¬ ((0 ≤ i ∧ i < g.totalFrames) ∧ HasFrame c (g.frameStart + i)) →
      colors i = if 0 ≤ i ∧ i < g.totalFrames
        then frameColor palette (past ++ [c]) (g.frameStart + i) else palette.bg := by
    intro i hi
    rw [hpainted i]
    split
    · rename_i hrange
      rw [frameColor_concat_of_not fun hhas => hi ⟨hrange, hhas⟩]
    · rfl
  unfold paintChunk
  by_cases hstopped : c.state = "stopped"
  · rw [if_pos hstopped]
    refine ⟨_, fun i => ?_, fillCells_shows hcells h⟩
    by_cases hi : i ∈ cellsOf g c
    · obtain ⟨hrange, hhas⟩ := mem_cellsOf.mp hi
      rw [if_pos hi, if_pos hrange, frameColor_concat_of_has (hfresh i hrange hhas).1 hhas]
      unfold rowColor
      rw [if_pos hstopped]
    · rw [if_neg hi]
      exact hother i (mt mem_cellsOf.mpr hi)
  · rw [if_neg hstopped]
    have hbase : ∃ base : Int → κ,
        (∀ i, base i = if i ∈ cellsOf g c then chunkColor palette c.state else colors i) ∧
        g.tiling.Shows palette.bg base
          (if chunkColor palette c.state ≠ palette.unclaimed
            then fillCells g (chunkColor palette c.state) (cellsOf g c) picture else picture) := by
      split
      · exact ⟨_, fun _ => rfl, fillCells_shows hcells h⟩
      · rename_i hcolor
        refine ⟨colors, fun i => ?_, h⟩
        split
        · rename_i hi
          obtain ⟨hrange, hhas⟩ := mem_cellsOf.mp hi
          exact (hfresh i hrange hhas).2.trans (not_not.mp hcolor).symm
        · rfl
    obtain ⟨base, hcolors, hshows⟩ := hbase
    refine ⟨_, fun i => ?_, fillCells_shows hdone hshows⟩
    by_cases hi : i ∈ cellsOf g c
    · obtain ⟨hrange, hhas⟩ := mem_cellsOf.mp hi
      rw [if_pos hrange, frameColor_concat_of_has (hfresh i hrange hhas).1 hhas, hcolors, if_pos hi]
      unfold rowColor
      rw [if_neg hstopped]
      exact if_congr (mem_doneCells.trans (and_iff_right hrange)) rfl rfl
    · -- a done frame is one of the chunk's
      have hnot : i ∉ doneCells g c := fun hmem =>
        hi (mem_cellsOf.mpr ⟨(mem_doneCells.mp hmem).1, hwithin _ (mem_doneCells.mp hmem).2⟩)
      rw [if_neg hnot, hcolors, if_neg hi]
      exact hother i (mt mem_cellsOf.mpr hi)

theorem paintChunks_show [DecidableEq κ] {rows past : List Row} {colors : Int → κ}
    {picture : Pixel → κ} (hrows : RowsOk (past ++ rows))
    (hpainted : PaintedBy g palette past colors)
    (h : g.tiling.Shows palette.bg colors picture) :
    ∃ colors', PaintedBy g palette (past ++ rows) colors' ∧
      g.tiling.Shows palette.bg colors' (rows.foldl (paintChunk g palette) picture) := by
  induction rows generalizing past colors picture with
  | nil => exact ⟨colors, by rwa [List.append_nil], h⟩
  | cons c rows ih =>
      have hsplit : past ++ c :: rows = (past ++ [c]) ++ rows := by simp
      obtain ⟨hapart, hwithin⟩ := hrows
      have hpast : ∀ d ∈ past, ∀ frame, HasFrame d frame → ¬ HasFrame c frame :=
        fun d hd => (List.pairwise_append.mp hapart).2.2 d hd c List.mem_cons_self
      obtain ⟨colors₁, hpainted₁, h₁⟩ :=
        paintChunk_shows hpast (hwithin c (by simp)) hpainted h
      rw [hsplit] at hapart hwithin ⊢
      exact ih ⟨hapart, hwithin⟩ hpainted₁ h₁

/-! ## The selection -/

/-- A coordinate between the edges of cell `k`, and on one of them. -/
theorem edge_iff {side : Int} (hside : 0 < side) (x k : Int) :
    (k * side ≤ x ∧ x ≤ k * side + (side - 1) ↔ x / side = k) ∧
      (x / side = k → ((x = k * side ∨ x = k * side + (side - 1)) ↔
        ¬ (1 ≤ x % side ∧ x % side < side - 1))) := by
  have hdiv := Int.mul_ediv_add_emod x side
  have hmod := Int.emod_nonneg x (Int.ne_of_gt hside)
  have hlt := Int.emod_lt_of_pos x hside
  constructor
  · rw [Int.ediv_eq_iff_of_pos hside]
    omega
  · rintro rfl
    rw [Int.mul_comm] at hdiv
    omega

/-- **The outline is the gutter of the selected frame's cell.** -/
theorem paintSelection_eq (g : FrameGrid) (palette : Palette κ) (picture : Pixel → κ) (p : Pixel) :
    (InCell g g.selectedFrame p ∧ ¬ g.tiling.Inside p →
      paintSelection g palette picture p = palette.outline) ∧
    (¬ (InCell g g.selectedFrame p ∧ ¬ g.tiling.Inside p) →
      paintSelection g palette picture p = picture p) := by
  unfold paintSelection
  by_cases hsel : g.frameStart ≤ g.selectedFrame ∧ g.selectedFrame ≤ g.frameEnd
  · have hidx : 0 ≤ g.selectedFrame - g.frameStart := by omega
    rw [if_pos hsel]
    unfold drawRect
    rw [Int.tdiv_eq_ediv_of_nonneg hidx, Int.tmod_eq_emod_of_nonneg hidx]
    obtain ⟨hx, hxEdge⟩ :=
      edge_iff g.sized p.x ((g.selectedFrame - g.frameStart) % g.cellsPerRow)
    obtain ⟨hy, hyEdge⟩ :=
      edge_iff g.sized p.y ((g.selectedFrame - g.frameStart) / g.cellsPerRow)
    have hcell : InCell g g.selectedFrame p ↔
        p.x / g.cellSize = (g.selectedFrame - g.frameStart) % g.cellsPerRow ∧
          p.y / g.cellSize = (g.selectedFrame - g.frameStart) / g.cellsPerRow := by
      unfold InCell
      rw [and_iff_right hsel, ← Tiling.covers_iff hidx]
      rfl
    have hinside : g.tiling.Inside p ↔
        (1 ≤ p.x % g.cellSize ∧ p.x % g.cellSize < g.cellSize - 1) ∧
          1 ≤ p.y % g.cellSize ∧ p.y % g.cellSize < g.cellSize - 1 := Iff.rfl
    rw [hcell, hinside]
    constructor
    · rintro ⟨⟨hcol, hrow⟩, hedge⟩
      obtain ⟨hleft, hright⟩ := hx.mpr hcol
      obtain ⟨htop, hbottom⟩ := hy.mpr hrow
      rw [if_pos]
      refine ⟨⟨hleft, hright, htop, hbottom⟩, ?_⟩
      rcases not_and_or.mp hedge with h | h
      · exact ((hxEdge hcol).mpr h).elim .inl fun h => .inr (.inl h)
      · exact ((hyEdge hrow).mpr h).elim (fun h => .inr (.inr (.inl h)))
          fun h => .inr (.inr (.inr h))
    · intro hnot
      rw [if_neg]
      rintro ⟨⟨hleft, hright, htop, hbottom⟩, hedge⟩
      have hcol := hx.mp ⟨hleft, hright⟩
      have hrow := hy.mp ⟨htop, hbottom⟩
      refine hnot ⟨⟨hcol, hrow⟩, fun hin => ?_⟩
      rcases hedge with h | h | h | h
      · exact (hxEdge hcol).mp (.inl h) hin.1
      · exact (hxEdge hcol).mp (.inr h) hin.1
      · exact (hyEdge hrow).mp (.inl h) hin.2
      · exact (hyEdge hrow).mp (.inr h) hin.2
  · rw [if_neg hsel]
    exact ⟨fun h => absurd h.1.1 hsel, fun _ => rfl⟩

/-! ## The picture -/

/-- What the picture shows at each pixel. -/
structure Picture (g : FrameGrid) (palette : Palette κ) (rows : List Row)
    (picture : Pixel → κ) : Prop where
  frame : 2 < g.cellSize → ∀ frame p, InCell g frame p → g.tiling.Inside p →
    picture p = frameColor palette rows frame
  selected : 2 < g.cellSize → ∀ p, InCell g g.selectedFrame p → ¬ g.tiling.Inside p →
    picture p = palette.outline
  gutter : ∀ frame p, InCell g frame p → ¬ g.tiling.Inside p → frame ≠ g.selectedFrame →
    picture p = palette.bg
  outside : ∀ p, (∀ frame, ¬ InCell g frame p) → picture p = palette.bg
  tiny : g.cellSize ≤ 2 → ∀ p, picture p = palette.bg

theorem InCell.unique {frame other : Int} {p : Pixel} (h : InCell g frame p)
    (h' : InCell g other p) : frame = other := by
  obtain ⟨-, -, htile⟩ := h
  obtain ⟨-, -, htile'⟩ := h'
  omega

/-- The first pass over a blank picture. -/
theorem firstPass_shows (g : FrameGrid) (palette : Palette κ) : PaintedBy g palette [] (fun i =>
      if i ∈ indices 0 (g.totalFrames - 1) then palette.unclaimed else palette.bg) ∧
    g.tiling.Shows palette.bg (fun i =>
      if i ∈ indices 0 (g.totalFrames - 1) then palette.unclaimed else palette.bg)
      (fillCells g palette.unclaimed (indices 0 (g.totalFrames - 1)) fun _ => palette.bg) := by
  constructor
  · intro i
    refine if_congr (mem_indices.trans ?_) rfl rfl
    omega
  · exact fillCells_shows (fun i hi => (mem_indices.mp hi).1) Tiling.shows_back

/-- **The picture.** -/
theorem paint_picture [DecidableEq κ] (g : FrameGrid) (palette : Palette κ) {rows : List Row}
    (hrows : RowsOk rows) : Picture g palette rows (paint g palette (some rows)) := by
  by_cases hblank : (g.frameEnd < g.frameStart ∨ g.cellSize ≤ 0) ∨
      g.cellSize - 2 * FrameGrid.padding ≤ 0
  · -- no frames, or no room inside a cell
    have hback : paint g palette (some rows) = fun _ => palette.bg := by
      unfold paint
      dsimp only
      split
      · rfl
      · rename_i hframes
        exact if_pos (hblank.resolve_left hframes)
    have hnone : 2 < g.cellSize → ∀ frame p, ¬ InCell g frame p := by
      intro hsize frame p h
      have hrange := h.1
      unfold FrameGrid.padding at hblank
      omega
    rw [hback]
    exact ⟨fun hsize frame p h _ => absurd h (hnone hsize frame p),
      fun hsize p h _ => absurd h (hnone hsize _ p), fun _ _ _ _ _ => rfl, fun _ _ => rfl,
      fun _ _ => rfl⟩
  · obtain ⟨hframes, hroom⟩ := not_or.mp hblank
    obtain ⟨hfirst, hfirstShows⟩ := firstPass_shows g palette
    have hrows' : RowsOk ([] ++ rows) := hrows
    obtain ⟨colors, hpainted, hshows⟩ := paintChunks_show hrows' hfirst hfirstShows
    rw [List.nil_append] at hpainted
    have hpaint : ∀ p, paint g palette (some rows) p = paintSelection g palette
        (rows.foldl (paintChunk g palette) (fillCells g palette.unclaimed
          (indices 0 (g.totalFrames - 1)) fun _ => palette.bg)) p := by
      intro p
      unfold paint
      dsimp only
      rw [if_neg hframes, if_neg hroom]
    generalize rows.foldl (paintChunk g palette) _ = picture at hshows hpaint
    have hsize : ¬ g.cellSize ≤ 2 := by
      unfold FrameGrid.padding at hroom
      omega
    have hsel := paintSelection_eq g palette picture
    refine ⟨fun _ frame p h hin => ?_, fun _ p h hin => ?_, fun frame p h hin hne => ?_,
      fun p h => ?_, fun hle => absurd hle hsize⟩
    · obtain ⟨hrange, hcovers, htile⟩ := h
      rw [hpaint, (hsel p).2 fun hout => hout.2 hin, hshows p, if_pos ⟨hin, hcovers⟩, htile,
        hpainted, if_pos, add_sub_cancel]
      unfold FrameGrid.totalFrames
      omega
    · rw [hpaint, (hsel p).1 ⟨h, hin⟩]
    · rw [hpaint, (hsel p).2 fun hout => hne (h.unique hout.1), hshows p,
        if_neg fun hboth => hin hboth.1]
    · rw [hpaint, (hsel p).2 fun hout => h _ hout.1, hshows p]
      split
      · rename_i hin
        rw [hpainted, if_neg]
        intro hrange
        refine h (g.frameStart + g.tiling.tileAt p) ⟨?_, hin.2, by omega⟩
        unfold FrameGrid.totalFrames at hrange
        omega
      · rfl

/-! ## Clicks and height -/

theorem toInt_of_nonneg {x : Rat} (h : 0 ≤ x) : toInt x = ⌊x⌋ := if_neg (not_lt.mpr h)

/-- The pixel of a position. -/
def pixelOf (x y : Rat) : Pixel := ⟨⌊x⌋, ⌊y⌋⟩

/-- **A click finds the frame of the cell it is in.** -/
theorem frameAtPosition_eq (g : FrameGrid) {x y : Rat} (hx : 0 ≤ x) (hy : 0 ≤ y) :
    (∀ frame, InCell g frame (pixelOf x y) → g.frameAtPosition x y = frame) ∧
      ((∀ frame, ¬ InCell g frame (pixelOf x y)) → g.frameAtPosition x y = -1) := by
  have hfx : 0 ≤ ⌊x⌋ := Int.floor_nonneg.mpr hx
  have hfy : 0 ≤ ⌊y⌋ := Int.floor_nonneg.mpr hy
  have hside : ¬ g.cellSize ≤ 0 := not_le.mpr g.sized
  have hcovers : g.tiling.Covers (pixelOf x y) ↔ ⌊x⌋ / g.cellSize < g.cellsPerRow :=
    ⟨fun h => h.2.2, fun h => ⟨hfx, hfy, h⟩⟩
  have htile : g.tiling.tileAt (pixelOf x y) =
      ⌊y⌋ / g.cellSize * g.cellsPerRow + ⌊x⌋ / g.cellSize := rfl
  unfold FrameGrid.frameAtPosition
  rw [toInt_of_nonneg hx, toInt_of_nonneg hy, Int.tdiv_eq_ediv_of_nonneg hfx,
    Int.tdiv_eq_ediv_of_nonneg hfy]
  dsimp only
  rw [← htile]
  have htotal : g.totalFrames = g.frameEnd - g.frameStart + 1 := rfl
  constructor
  · rintro frame ⟨hrange, hcov, hat⟩
    rw [if_neg (by simp [hside, not_lt.mpr hx, not_lt.mpr hy]; omega),
      if_neg (not_le.mpr (hcovers.mp hcov)), hat, if_neg (by omega), add_sub_cancel]
  · intro hnone
    split
    · rfl
    · split
      · rfl
      · rename_i hcol
        split
        · rfl
        · rename_i hidx
          refine absurd ⟨?_, hcovers.mpr (not_le.mp hcol), ?_⟩
            (hnone (g.frameStart + g.tiling.tileAt (pixelOf x y)))
          · omega
          · omega

/-- The height has its own count of the columns. -/
theorem cols_eq (g : FrameGrid) :
    max 1 ((max 1 (toInt g.width)).tdiv g.cellSize) = g.cellsPerRow := by
  have hside := g.sized
  unfold FrameGrid.cellsPerRow columns
  rcases Int.lt_or_le 0 (toInt g.width) with hpos | hneg
  · rw [Int.max_eq_right (by omega : 1 ≤ toInt g.width)]
  · have hlow := Int.tdiv_nonneg (Int.neg_nonneg_of_nonpos hneg) (Int.le_of_lt hside)
    rw [Int.neg_tdiv] at hlow
    have hone : (1 : Int).tdiv g.cellSize ≤ 1 := by
      rw [Int.tdiv_eq_ediv_of_nonneg Int.one_nonneg]
      exact Int.ediv_le_self _ Int.one_nonneg
    rw [Int.max_eq_left (by omega : toInt g.width ≤ 1), Int.max_eq_left hone,
      Int.max_eq_left (by omega)]

/-- The item is as high as the rows down to the last frame's. -/
theorem implicitHeight_eq (g : FrameGrid) (h : g.frameStart ≤ g.frameEnd) :
    g.implicitHeight = ((g.frameEnd - g.frameStart) / g.cellsPerRow + 1) * g.cellSize := by
  have hcols : 0 < g.cellsPerRow := g.tiling.cols_pos
  have hside := g.sized
  have htotal : ¬ (g.totalFrames ≤ 0 ∨ g.cellSize ≤ 0) := by
    unfold FrameGrid.totalFrames
    omega
  unfold FrameGrid.implicitHeight
  dsimp only
  rw [if_neg htotal, cols_eq]
  have hsum : g.totalFrames + g.cellsPerRow - 1 = g.frameEnd - g.frameStart + g.cellsPerRow := by
    unfold FrameGrid.totalFrames
    omega
  have hnext := Int.add_mul_ediv_right (g.frameEnd - g.frameStart) 1 (Int.ne_of_gt hcols)
  rw [Int.one_mul] at hnext
  rw [hsum, Int.tdiv_eq_ediv_of_nonneg (by omega), hnext]

/-- The item is just high enough for its cells. -/
theorem implicitHeight_fits (g : FrameGrid) :
    (∀ frame p, InCell g frame p → p.y < g.implicitHeight) ∧
      (g.frameStart ≤ g.frameEnd → ∃ p, InCell g g.frameEnd p ∧ p.y + 1 = g.implicitHeight) := by
  have hcols : 0 < g.cellsPerRow := g.tiling.cols_pos
  have hside := g.sized
  constructor
  · rintro frame p ⟨hrange, hcovers, hat⟩
    have hrow := (Tiling.tileAt_split hcovers).2
    rw [hat] at hrow
    have hle : (frame - g.frameStart) / g.cellsPerRow ≤
        (g.frameEnd - g.frameStart) / g.cellsPerRow := Int.ediv_le_ediv hcols (by omega)
    rw [implicitHeight_eq g (by omega)]
    refine (Int.ediv_lt_iff_lt_mul hside).mp ?_
    have hrow : (frame - g.frameStart) / g.cellsPerRow = p.y / g.cellSize := hrow
    omega
  · intro hframes
    rw [implicitHeight_eq g hframes]
    have hidx : 0 ≤ g.frameEnd - g.frameStart := by omega
    refine ⟨⟨(g.frameEnd - g.frameStart) % g.cellsPerRow * g.cellSize,
      ((g.frameEnd - g.frameStart) / g.cellsPerRow + 1) * g.cellSize - 1⟩,
      ⟨⟨hframes, le_refl _⟩, (Tiling.covers_iff hidx).mp ⟨?_, ?_⟩⟩,
      Int.sub_add_cancel _ _⟩
    · exact Int.mul_ediv_cancel _ (Int.ne_of_gt hside)
    · refine (Int.ediv_eq_iff_of_pos hside).mpr ?_
      show _ / g.cellsPerRow * g.cellSize ≤ _ ∧ _
      rw [Int.add_mul, Int.one_mul]
      dsimp only
      constructor
      · omega
      · show _ < _ / g.cellsPerRow * g.cellSize + g.cellSize
        omega

/-! ## No number overflows -/

/-- A position whose cell has a number: what a click on it computes is in the
range of an `int`. -/
structure Clickable (g : FrameGrid) (x y : Rat) : Prop where
  right : 0 ≤ x
  down : 0 ≤ y
  left : Int32 (toInt x)
  top : Int32 (toInt y)
  cell : Int32 ((toInt y).tdiv g.cellSize * g.cellsPerRow + (toInt x).tdiv g.cellSize)

/-- What painting computes is in the range of an `int`: the places of frames in
the grid, the corners of cells, and the height. -/
structure NoOverflow (g : FrameGrid) (rows : List Row) : Prop where
  offsets : ∀ c ∈ rows, ∀ frame ∈ c.frameStart :: c.frameEnd :: c.completedFrames,
    Int32 (frame - g.frameStart)
  corners : ∀ i, 0 ≤ i → i < g.totalFrames →
    Int32 (g.tiling.tile i).left ∧ Int32 (g.tiling.tile i).top
  height : Int32 g.implicitHeight

/-- The cells of a row are in the item. -/
theorem left_le (g : FrameGrid) {col : Int} (hcol : col < g.cellsPerRow) (hpos : 0 < col) :
    (col + 1) * g.cellSize ≤ toInt g.width := by
  have hside := g.sized
  have hwidth : g.cellsPerRow = (toInt g.width).tdiv g.cellSize := by
    refine max_eq_right ?_
    by_contra hone
    have hcols : g.cellsPerRow = 1 := max_eq_left (le_of_not_ge hone)
    omega
  have hnonneg : 0 ≤ toInt g.width := by
    by_contra hneg
    have hlow := Int.tdiv_nonneg (a := -toInt g.width) (b := g.cellSize) (by omega) (by omega)
    rw [Int.neg_tdiv] at hlow
    omega
  rw [Int.tdiv_eq_ediv_of_nonneg hnonneg] at hwidth
  exact (Int.le_ediv_iff_mul_le hside).mp (by omega)

/-- And above its bottom. -/
theorem rowBottom_lt (g : FrameGrid) {i : Int} (hi : 0 ≤ i) (hlt : i < g.totalFrames) :
    (i / g.cellsPerRow + 1) * g.cellSize < 2 ^ 31 := by
  have hcols : 0 < g.cellsPerRow := g.tiling.cols_pos
  have hspan : i ≤ g.frameEnd - g.frameStart := by
    unfold FrameGrid.totalFrames at hlt
    omega
  have hrow := Int.ediv_le_ediv hcols hspan
  have hheight : ((g.frameEnd - g.frameStart) / g.cellsPerRow + 1) * g.cellSize < 2 ^ 31 := by
    rw [← Int.tdiv_eq_ediv_of_nonneg (hi.trans hspan)]
    exact g.fits.height
  refine lt_of_le_of_lt (Int.mul_le_mul_of_nonneg_right ?_ (Int.le_of_lt g.sized)) hheight
  omega

theorem noOverflow (g : FrameGrid) {rows : List Row} (hrows : RowsOk rows)
    (hoffsets : ∀ c ∈ rows, Int32 (c.frameStart - g.frameStart) ∧
      Int32 (c.frameEnd - g.frameStart)) : NoOverflow g rows where
  offsets := by
    intro c hc frame hframe
    obtain ⟨hfirst, hlast⟩ := hoffsets c hc
    rcases List.mem_cons.mp hframe with rfl | hframe
    · exact hfirst
    rcases List.mem_cons.mp hframe with rfl | hframe
    · exact hlast
    -- a done frame is between the ends of its chunk
    obtain ⟨hlow, hhigh⟩ := hrows.within c hc frame hframe
    exact ⟨hfirst.1.trans (by omega), lt_of_le_of_lt (by omega) hlast.2⟩
  corners := by
    intro i hi hlt
    have hside := g.sized
    have hcols : 0 < g.cellsPerRow := g.tiling.cols_pos
    have hcol := Int.emod_nonneg i (Int.ne_of_gt hcols)
    have hrow := Int.ediv_nonneg hi (Int.le_of_lt hcols)
    have hbelow := rowBottom_lt g hi hlt
    have hwidth := g.fits.breadth.2
    show Int32 (i % g.cellsPerRow * g.cellSize + 1) ∧ Int32 (i / g.cellsPerRow * g.cellSize + 1)
    have hx := Int.mul_nonneg hcol (Int.le_of_lt hside)
    have hy := Int.mul_nonneg hrow (Int.le_of_lt hside)
    refine ⟨⟨by omega, ?_⟩, by omega, ?_⟩
    · rcases Int.lt_or_eq_of_le hcol with hpos | hzero
      · have hright := left_le g (Int.emod_lt_of_pos i hcols) hpos
        rw [Int.add_mul, Int.one_mul] at hright
        omega
      · rw [← hzero, Int.zero_mul]
        decide
    · rw [Int.add_mul, Int.one_mul] at hbelow
      omega
  height := by
    by_cases hframes : g.frameStart ≤ g.frameEnd
    · have hlast : g.frameEnd - g.frameStart < g.totalFrames := by
        unfold FrameGrid.totalFrames
        omega
      have hbelow := rowBottom_lt g (by omega) hlast
      rw [← implicitHeight_eq g hframes] at hbelow
      have habove : 0 ≤ g.implicitHeight := by
        rw [implicitHeight_eq g hframes]
        have hrow := Int.ediv_nonneg (by omega : 0 ≤ g.frameEnd - g.frameStart)
          (Int.le_of_lt g.tiling.cols_pos)
        exact Int.mul_nonneg (Int.le_trans hrow (Int.le_add_one le_rfl)) (Int.le_of_lt g.sized)
      exact ⟨by omega, hbelow⟩
    · have hzero : g.implicitHeight = 0 := by
        refine if_pos (.inl ?_)
        unfold FrameGrid.totalFrames
        omega
      rw [hzero]
      decide

/-- A row of the table, as the model gets it. -/
def rowOf (c : ChunkRow) : Row where
  id := c.id
  frameStart := c.frameStart
  frameEnd := c.frameEnd
  state := c.state.text
  assignedTo := c.assignedTo
  assignedAtMs := c.assignedAtMs
  completedAtMs := c.completedAtMs
  retryCount := c.retryCount
  completedFrames := c.completedFrames

/-- The table's chunks are fit to be painted. -/
theorem rowsOk_of_table {db : Db} (h : ChunkTable db) (jobId : String) :
    RowsOk ((DatabaseManager.getChunksForJob db jobId).map rowOf) := by
  unfold DatabaseManager.getChunksForJob
  rw [List.map_map]
  have hmem : ∀ c ∈ DatabaseManager.byFrame (DatabaseManager.chunksOf db jobId),
      c ∈ db.chunks ∧ c.jobId = jobId := fun c hc =>
    DatabaseManager.mem_chunksOf.mp ((List.mem_insertionSort _).mp hc)
  constructor
  · have hsymm : ∀ {a b : ChunkRecord}, KeyApart a.key b.key → KeyApart b.key a.key :=
      fun hab hsame => (hab hsame.symm).symm
    have hapart : (DatabaseManager.byFrame (DatabaseManager.chunksOf db jobId)).Pairwise
        fun a b => KeyApart a.key b.key :=
      ((List.perm_insertionSort _ _).pairwise_iff hsymm).mpr
        ((List.pairwise_map.mp h.apart).sublist List.filter_sublist)
    rw [List.pairwise_map]
    refine hapart.imp_of_mem ?_
    intro a b ha hb hab frame hfa hfb
    have hsame : a.key.1 = b.key.1 := (hmem a ha).2.trans (hmem b hb).2.symm
    have hfa : a.frameStart ≤ frame ∧ frame ≤ a.frameEnd := hfa
    have hfb : b.frameStart ≤ frame ∧ frame ≤ b.frameEnd := hfb
    rcases hab hsame with hbefore | hbefore
    · have hlt : a.frameEnd < b.frameStart := hbefore
      omega
    · have hlt : b.frameEnd < a.frameStart := hbefore
      omega
  · intro row hrow frame hframe
    obtain ⟨c, hc, rfl⟩ := List.mem_map.mp hrow
    exact (h.rows c (hmem c hc).1).frames.within frame hframe

/-- A job of two chunks on a strip of five columns, with frame 12 selected. -/
def strip : FrameGrid where
  frameStart := 1
  frameEnd := 20
  cellSize := 10
  selectedFrame := 12
  width := 54
  sized := by decide
  fits := by
    have hwidth : toInt 54 = 54 := by norm_num [toInt]
    have hcols : columns 54 10 = 5 := by
      unfold columns
      rw [hwidth]
      rfl
    exact
      { first := by decide
        last := by decide
        span := by decide
        count := by decide
        breadth := by rw [hwidth]; decide
        sum := by rw [hcols]; decide
        height := by rw [hcols]; decide }

end MinRender.FramePainter
