import Mathlib
import FieldDiagram.Proofs.Geometry.Factor
import FieldDiagram.Proofs.Geometry.PixelGrid
import FieldDiagram.Proofs.Renderer.Colors
import FieldDiagram.Proofs.Renderer.Persistence
/-!
# Grid lines on the device

A pass counts in logical pixels, and the map that the canvas tells stretches them by one ratio. In exact
numbers that is all that the map does: both axes have as many pixels to a unit as the ratio says, so a
snapped point comes to lie at the snapped place of its device coordinates, and a width that was divided
by the ratio is multiplied by it again. What is left of a grid line is then one number on the device,
`gridPlace`, and all its properties come from those of `snapPixel`.

Main statement: `Renderer.gridLines_on_device`.
-/

namespace FieldDiagram

variable {ι : Type}

/-! ## The scale of a surface

Snapping asks the map for its scaling factors. Under a scale by one ratio both are that ratio, so the
snapped place can be computed on the device. -/

section Scaled

variable {ratio : ℝ}

/-- Under the scale of a surface a snapped point lies where its device coordinates are snapped to. -/
theorem Affine.snapped_scaling (hratio : 0 < ratio) (p : Point ℝ) :
    (scaling ratio ratio).snapped p = ⟨snapPixel (ratio * p.x), snapPixel (ratio * p.y)⟩ := by
  have hfactors : (scaling ratio ratio).scalingFactors = ⟨ratio, ratio⟩ := by
    simp [scalingFactors, scaling, Real.sqrt_sq hratio.le]
  rw [snapped, onPoint_scaling, align, hfactors, mul_alignCoord hratio.ne', mul_alignCoord hratio.ne']

/-! ## One kind of lines

Upright and level lines are spread in the same way over their sides, so they are treated as one kind with a
start, a length and a number. -/

/-- Where the line with number `i` lies on the device, if `n` lines are spread over a side. -/
noncomputable def gridPlace (ratio edge side : ℝ) (n i : Nat) : ℝ :=
  snapPixel (ratio * (edge + i * side / (n - 1)))

/-- What a diagram promises of the places of `n` lines that are spread over a side. -/
structure SpreadLines (place : Nat → ℝ) (ratio edge side : ℝ) (n : Nat) : Prop where
  /-- Every line lies on a boundary or in the middle of a pixel. -/
  onHalfPixel : ∀ i, OnHalfPixel (place i)
  /-- No line is more than half a pixel away from where it belongs. -/
  near : ∀ i, |place i - ratio * (edge + i * side / (n - 1))| ≤ 1 / 2
  /-- The first line is the snapped edge at which the side begins. -/
  first : place 0 = ratio * alignCoord edge ratio
  /-- The last line is the snapped edge at which the side ends. -/
  last : place (n - 1) = ratio * alignCoord (edge + side) ratio
  /-- Unless the side is turned round, no line lies before the one that it follows. -/
  mono : 0 ≤ side → Monotone place

variable {edge side : ℝ} {n : Nat}

theorem gridPlace_zero : gridPlace ratio edge side n 0 = snapPixel (ratio * edge) := by
  rw [gridPlace, Nat.cast_zero, zero_mul, zero_div, add_zero]

section Several

variable (hn : 2 ≤ n)

include hn

theorem gridPlace_last : gridPlace ratio edge side n (n - 1) = snapPixel (ratio * (edge + side)) := by
  have hcast : ((n - 1 : Nat) : ℝ) = n - 1 := Nat.cast_pred (by omega)
  have hgaps : (0 : ℝ) < n - 1 := sub_pos.2 (Nat.one_lt_cast.2 hn)
  rw [gridPlace, hcast, mul_div_cancel_left₀ _ hgaps.ne']

theorem spreadLines_gridPlace (hratio : 0 < ratio) :
    SpreadLines (gridPlace ratio edge side n) ratio edge side n := by
  refine ⟨?_, ?_, ?_, ?_, ?_⟩
  · intro i
    exact onHalfPixel_snapPixel _
  · intro i
    exact abs_snapPixel_sub_le _
  · rw [gridPlace_zero, mul_alignCoord hratio.ne']
  · rw [gridPlace_last hn, mul_alignCoord hratio.ne']
  · intro hside i j hij
    have hgaps : (0 : ℝ) ≤ n - 1 := sub_nonneg.2 (Nat.one_le_cast.2 (by omega))
    apply snapPixel_mono
    gcongr

/-- The place of a line on the device, from the one that the pass gives it in logical pixels. -/
theorem snapPixel_line (i : Nat) :
    snapPixel (ratio * (edge + side / Scalar.ofNat (max (n - 1) 1) * Scalar.ofNat i)) =
      gridPlace ratio edge side n i := by
  have hgaps : (Scalar.ofNat (max (n - 1) 1) : ℝ) = n - 1 := by
    rw [max_eq_left (by omega), Scalar.ofNat_real, Nat.cast_pred (by omega)]
  rw [gridPlace, hgaps, Scalar.ofNat_real, div_mul_eq_mul_div, mul_comm side]

end Several

end Scaled

/-! ## Strokes

From the lines of a pass in logical pixels to strokes on the device. -/

namespace Renderer

section Pass

variable {size : SurfaceSize ℝ} {r : Renderer ℝ ι}

variable (hratio : 0 < size.ratio) (hwidth : 0 < r.options.gridLineWidth)

include hratio hwidth

/-- A line is stroked from snapped place to snapped place, and the ratio has no part in its width. -/
theorem gridStroke_eq (line : Point ℝ × Point ℝ) :
    r.gridStroke size line =
      .stroke [.moveTo ⟨snapPixel (size.ratio * line.1.x), snapPixel (size.ratio * line.1.y)⟩,
        .lineTo ⟨snapPixel (size.ratio * line.2.x), snapPixel (size.ratio * line.2.y)⟩]
        r.options.gridLineColor 1 r.options.gridLineWidth .butt := by
  have hmap : (Paint.scaledBy size.ratio).transform = .scaling size.ratio size.ratio :=
    Affine.identity_mul _
  have hthin : Scalar.isWidth (r.options.gridLineWidth / size.ratio) = true :=
    Scalar.isWidth_real_iff.2 (div_pos hwidth hratio)
  have hfactor : (Affine.scaling size.ratio size.ratio).uniformScale = size.ratio := by
    rw [Affine.uniformScale_scaling rfl, abs_of_pos hratio]
  simp only [gridStroke, hmap, hthin, if_true, Affine.snapped_scaling hratio, hfactor,
    div_mul_cancel₀ _ hratio.ne', Scalar.one_real]

/-- The strokes of a grid: first the lines from top to bottom, each from the first to the last place
of the other kind, and then those from side to side. -/
theorem gridStrokes_eq_places (hgrid : 2 ≤ r.grid.horizontal ∧ 2 ≤ r.grid.vertical) :
    let rect := FieldRect.onSurface size r.options.padding
    let x := gridPlace size.ratio rect.x rect.width r.grid.horizontal
    let y := gridPlace size.ratio rect.y rect.height r.grid.vertical
    let line : Point ℝ → Point ℝ → DrawCommand ℝ ι := fun p q =>
      .stroke [.moveTo p, .lineTo q] r.options.gridLineColor 1 r.options.gridLineWidth .butt
    r.gridStrokes size =
      (List.range r.grid.horizontal).map
        (fun i => line ⟨x i, y 0⟩ ⟨x i, y (r.grid.vertical - 1)⟩) ++
      (List.range r.grid.vertical).map
        (fun i => line ⟨x 0, y i⟩ ⟨x (r.grid.horizontal - 1), y i⟩) := by
  intro rect x y line
  obtain ⟨hacross, hdown⟩ := hgrid
  rw [gridStrokes_eq_append, uprightLines, levelLines, List.map_map, List.map_map]
  congr 1
  · apply List.map_congr_left
    intro i _
    rw [Function.comp_apply, gridStroke_eq hratio hwidth]
    dsimp only
    rw [snapPixel_line hacross, ← gridPlace_zero, ← gridPlace_last hdown]
  · apply List.map_congr_left
    intro i _
    rw [Function.comp_apply, gridStroke_eq hratio hwidth]
    dsimp only
    rw [snapPixel_line hdown, ← gridPlace_zero, ← gridPlace_last hacross]

end Pass

/-! ## Grid lines after any history

The number of lines comes from overlays of earlier passes. It is never below two, whatever was asked for,
and that is all the proof needs to know of the history. -/

/-- No history leaves an axis with fewer than two lines. -/
theorem two_le_grid_calls {canvas : Canvas ℝ ι} (htells : canvas.reportsTransform = true)
    (options : Options ℝ) (h : List (RendererCall ℝ ι)) :
    2 ≤ ((new canvas options).calls h).grid.horizontal ∧
      2 ≤ ((new canvas options).calls h).grid.vertical := by
  have hleaves := leaves_calls (r := new canvas options) htells h
  rw [hleaves.grid]
  rcases hlast : latest? Op.newGrid? ((new canvas options).executed h) with _ | grid
  · exact (by decide : 2 ≤ GridTicks.standard.horizontal ∧ 2 ≤ GridTicks.standard.vertical)
  · -- a grid that was asked for has been raised to the fewest lines
    obtain ⟨op, -, hop⟩ := exists_of_latest?_eq_some hlast
    exact Op.fewest_le_of_newGrid? hop

/-- **The grid lines of a pass**, with exact numbers, after any history and whichever call runs the pass,
if the surface has a positive ratio and the lines a positive width. Behind the background, which has no
lines, and before the overlay there are the lines from top to bottom and then those from side to side,
as many as the grid has ticks, which is at least two of either kind. Each of them is one stroke between
two places that differ in one coordinate only, and it is as wide on the device as the options say. The
places of either kind are spread over the field's square: on half pixels, within half a pixel of an even
spacing, from snapped edge to snapped edge, and in order unless the padding leaves no square at all. A
canvas that does not tell its map is wiped and gets no lines. -/
theorem gridLines_on_device (canvas : Canvas ℝ ι) (options : Options ℝ) (h : List (RendererCall ℝ ι))
    (d : RendererCall ℝ ι) (size : SurfaceSize ℝ) (hratio : 0 < size.ratio)
    (hwidth : 0 < options.gridLineWidth) (hpass : ((new canvas options).calls h).passOf? d = some size) :
    let r := (new canvas options).calls h
    let rect := FieldRect.onSurface size options.padding
    let x := gridPlace size.ratio rect.x rect.width r.grid.horizontal
    let y := gridPlace size.ratio rect.y rect.height r.grid.vertical
    let line : Point ℝ → Point ℝ → DrawCommand ℝ ι := fun p q =>
      .stroke [.moveTo p, .lineTo q] options.gridLineColor 1 options.gridLineWidth .butt
    (canvas.reportsTransform = true →
      (r.call d).canvas.commands.toList = ((r.met d).backdrop size).commands.toList ++
        ((List.range r.grid.horizontal).map
          (fun i => line ⟨x i, y 0⟩ ⟨x i, y (r.grid.vertical - 1)⟩) ++
        (List.range r.grid.vertical).map
          (fun i => line ⟨x 0, y i⟩ ⟨x (r.grid.horizontal - 1), y i⟩)) ++ r.overlayDrawing size ∧
      (∀ c ∈ ((r.met d).backdrop size).commands.toList, c.color? = none) ∧
      (2 ≤ r.grid.horizontal ∧ 2 ≤ r.grid.vertical) ∧
      SpreadLines x size.ratio rect.x rect.width r.grid.horizontal ∧
      SpreadLines y size.ratio rect.y rect.height r.grid.vertical) ∧
    (canvas.reportsTransform = false →
      (r.call d).canvas.commands.toList = [.clear size.width size.height]) := by
  intro r rect x y line
  obtain ⟨hcanvas, hoptions, hoverlay, hheld⟩ := r.met_keeps d
  obtain ⟨hkept, hreports⟩ := options_calls (new canvas options) h
  have hsame : r.options = options := hkept
  have hmet : (r.met d).canvas.reportsTransform = canvas.reportsTransform := by
    rw [hcanvas]
    exact hreports
  refine ⟨?_, ?_⟩
  · intro htells
    have hgrid : 2 ≤ r.grid.horizontal ∧ 2 ≤ r.grid.vertical := two_le_grid_calls htells options h
    -- the pass runs on the renderer that the call meets, which holds what the history left
    have hcommands : (r.call d).canvas.commands.toList =
        ((r.met d).backdrop size).commands.toList ++ r.gridStrokes size ++ r.overlayDrawing size := by
      rw [call_of_passOf? hpass, commands_render (hmet.trans htells)]
      simp only [gridStrokes, gridPaint, overlayDrawing, baseFor, hoptions, hoverlay, hheld]
    have hstrokes := gridStrokes_eq_places (r := r) hratio (by rw [hsame]; exact hwidth) hgrid
    rw [hsame] at hstrokes
    refine ⟨?_, ?_, hgrid, ?_, ?_⟩
    · rw [hcommands, hstrokes]
    · intro c hc
      exact color?_of_mem_backdrop Scalar.isOpacity_one_real hc
    · exact spreadLines_gridPlace hgrid.1 hratio
    · exact spreadLines_gridPlace hgrid.2 hratio
  · intro hnot
    rw [call_of_passOf? hpass, render_of_not_tells (hmet.trans hnot)]
    rfl

/-- Three lines and five, asked for by an overlay of an earlier pass, with two device pixels to a logical
one: the middle one of the three lies in the middle of the surface and runs from edge to edge. -/
theorem gridLines_on_device_of_three :
    let size : SurfaceSize ℝ := ⟨800, 600, 2⟩
    let options : Options ℝ := ⟨15, 1, 144, ⟨250, by decide⟩, 3, .black, "field.png"⟩
    let overlay : Overlay ℝ := ⟨[.grid ⟨3, by decide, by decide⟩ ⟨5, by decide, by decide⟩]⟩
    let r : Renderer ℝ String := (new (.empty true) options).calls [.setOverlay overlay, .render size]
    0 < size.ratio ∧ 0 < options.gridLineWidth ∧ r.passOf? (.render size) = some size ∧
      r.grid = ⟨3, 5⟩ ∧
      .stroke [.moveTo ⟨400, 30⟩, .lineTo ⟨400, 570⟩] .black 1 3 .butt ∈
        (r.call (.render size)).canvas.commands.toList := by
  intro size options overlay r
  have hratio : 0 < size.ratio := by norm_num [size]
  have hwidth : 0 < options.gridLineWidth := by norm_num [options]
  have hgrid : r.grid = ⟨3, 5⟩ := (leaves_calls (r := new (.empty true) options) rfl _).grid
  have hsquare : FieldRect.onSurface size options.padding = ⟨65, 15, 270, 270⟩ := by
    simp only [FieldRect.onSurface, FieldRect.centeredSquare, SurfaceSize.logical, size, options,
      Scalar.min_real, Scalar.ofNat_real]
    norm_num
  have hmiddle : gridPlace 2 65 270 3 1 = 400 := by
    rw [gridPlace, show (2 : ℝ) * (65 + (1 : Nat) * 270 / ((3 : Nat) - 1)) = (400 : ℤ) by norm_num,
      snapPixel_intCast, Int.cast_ofNat]
  have htop : gridPlace 2 15 270 5 0 = 30 := by
    rw [gridPlace_zero, show (2 : ℝ) * 15 = (30 : ℤ) by norm_num, snapPixel_intCast, Int.cast_ofNat]
  have hbottom : gridPlace 2 15 270 5 (5 - 1) = 570 := by
    rw [gridPlace_last (by decide), show (2 : ℝ) * (15 + 270) = (570 : ℤ) by norm_num,
      snapPixel_intCast, Int.cast_ofNat]
  obtain ⟨hlines, -⟩ := gridLines_on_device (.empty true) options [.setOverlay overlay, .render size]
    (.render size) size hratio hwidth rfl
  obtain ⟨hcommands, -⟩ := hlines rfl
  refine ⟨hratio, hwidth, rfl, hgrid, ?_⟩
  change _ ∈ (((new (.empty true) options).calls [.setOverlay overlay, .render size]).call
    (.render size)).canvas.commands.toList
  rw [hcommands, hsquare, show ((new (.empty true) options).calls
    [.setOverlay overlay, .render size]).grid = ⟨3, 5⟩ from hgrid]
  refine List.mem_append_left _ (List.mem_append_right _ (List.mem_append_left _ ?_))
  refine List.mem_map.2 ⟨1, List.mem_range.2 (by decide), ?_⟩
  rw [hmiddle, htop, hbottom]

end Renderer

end FieldDiagram
