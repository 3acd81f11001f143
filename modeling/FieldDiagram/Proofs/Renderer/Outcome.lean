import FieldDiagram.Proofs.Canvas.DisplayList
import FieldDiagram.Proofs.Pass.Extent
import FieldDiagram.Proofs.Renderer.Stages
/-!
# What a pass leaves

Everything that a pass over a canvas that tells its map leaves, part by part and without the canvas: how
it ends (`error_render`), what it draws (`commands_render`), and what becomes of the grid, the images
and the base transform. Every part is told by options, overlay, grid and images of the renderer before
the pass and by the size. What was on the canvas has no part in any of them, since a pass wipes it.
-/

namespace FieldDiagram

variable {α ι : Type}

/-- The operations of an overlay that a pass carries out where the canvas tells its map. -/
def Overlay.executed (o : Overlay α) : List (Op α) := Op.executed true o.ops

variable [Scalar α]

open Scalar (one isWidth)

/-- The paint of a pass outside all brackets. -/
def Paint.scaledBy (ratio : α) : Paint α :=
  { Paint.standard with transform := .identity * .scaling ratio ratio }

/-- A canvas that tells its map is the same as any other once it is wiped. -/
theorem Canvas.call_reset_of_tells {c : Canvas α ι} (h : c.reportsTransform = true) (width height : α) :
    c.call (.reset width height) = (Canvas.empty true).call (.reset width height) := by
  simp only [call, empty, h]

/-! ## Background and grid

Both are drawn within brackets, so what they leave are commands and the images that they found. -/

namespace ImageCache

omit [Scalar α] in
theorem isPlain_of_mem_baseCalls (c : ImageCache α ι) {rect : FieldRect α} {alpha : α}
    {d : CanvasCall α ι} (h : d ∈ c.baseCalls rect alpha) : d.isPlain = true := by
  unfold baseCalls at h
  cases himage : c.baseImage? with
  | none => simp [himage] at h
  | some image =>
    simp only [himage, List.mem_cons, List.not_mem_nil, or_false] at h
    rcases h with rfl | rfl <;> rfl

theorem isPlain_of_mem_altCalls (c : ImageCache α ι) {rect : FieldRect α} {alpha : α}
    {d : CanvasCall α ι} (h : d ∈ c.altCalls rect alpha) : d.isPlain = true := by
  unfold altCalls at h
  cases himage : c.altImage? with
  | none => simp [himage] at h
  | some image =>
    simp only [himage, List.mem_cons, List.not_mem_nil, or_false] at h
    rcases h with rfl | rfl | rfl <;> rfl

end ImageCache

namespace Renderer

/-- The canvas of a pass when its background is drawn. -/
def backdrop (size : SurfaceSize α) (r : Renderer α ι) : Canvas α ι :=
  ((r.canvas.call (.reset size.width size.height)).call (.scale size.ratio size.ratio)).calls
    (r.backgroundCalls (FieldRect.onSurface size r.options.padding))

/-- The paint of the grid lines. -/
def gridPaint (size : SurfaceSize α) (r : Renderer α ι) : Paint α :=
  let width := r.options.gridLineWidth / size.ratio
  { Paint.scaledBy size.ratio with
    stroke := r.options.gridLineColor
    lineWidth := if isWidth width then width else one }

/-- The strokes that draw the grid that a renderer holds. -/
def gridStrokes (size : SurfaceSize α) (r : Renderer α ι) : List (DrawCommand α ι) :=
  (gridLines r.grid (FieldRect.onSurface size r.options.padding)).map fun line =>
    (r.gridPaint size).finished true ((r.gridPaint size).transform.snappedChain [line.1, line.2])

/-- There is one stroke for each tick. -/
theorem length_gridStrokes (size : SurfaceSize α) (r : Renderer α ι) :
    (r.gridStrokes size).length = r.grid.horizontal + r.grid.vertical := by
  simp [gridStrokes, gridLines]

/-- The background is drawn within one bracket. -/
theorem backgroundCalls_eq_bracket (rect : FieldRect α) (r : Renderer α ι) :
    ∃ inner, CanvasCall.Balanced inner ∧
      r.backgroundCalls rect = .save :: inner ++ [.restore] := by
  refine ⟨.setAlpha r.options.alpha ::
    (r.images.baseCalls rect r.options.alpha ++ r.images.altCalls rect r.options.alpha), ?_, ?_⟩
  · apply CanvasCall.Balanced.of_plain
    intro d hd
    rcases List.mem_cons.1 hd with rfl | hd
    · rfl
    · rcases List.mem_append.1 hd with hd | hd
      · exact r.images.isPlain_of_mem_baseCalls hd
      · exact r.images.isPlain_of_mem_altCalls hd
  · simp [backgroundCalls]

theorem paint_backdrop (size : SurfaceSize α) (r : Renderer α ι) :
    (r.backdrop size).paint = .scaledBy size.ratio ∧ (r.backdrop size).saved = [] := by
  obtain ⟨inner, hinner, hcalls⟩ :=
    r.backgroundCalls_eq_bracket (FieldRect.onSurface size r.options.padding)
  rw [backdrop, hcalls, (Canvas.calls_bracket hinner _).1, (Canvas.calls_bracket hinner _).2]
  exact ⟨rfl, rfl⟩

/-- The canvas from which the overlay starts. -/
theorem canvas_beneath (size : SurfaceSize α) (r : Renderer α ι) :
    (r.beneath size).canvas.paint = .scaledBy size.ratio ∧
      (r.beneath size).canvas.saved = [] ∧
      (r.beneath size).canvas.commands.toList =
        (r.backdrop size).commands.toList ++ r.gridStrokes size := by
  obtain ⟨hpaint, hsaved⟩ := r.paint_backdrop size
  have hcanvas : (r.beneath size).canvas = (((r.backdrop size).calls [.save,
      .setStroke r.options.gridLineColor,
      .setLineWidth (r.options.gridLineWidth / size.ratio)]).withLines
        (gridLines r.grid (FieldRect.onSurface size r.options.padding))).call .restore := rfl
  -- a width that makes no sense is passed over, so the paint of the lines has two forms
  have hprepared : (r.backdrop size).calls [.save, .setStroke r.options.gridLineColor,
      .setLineWidth (r.options.gridLineWidth / size.ratio)] =
        { r.backdrop size with
          paint := r.gridPaint size
          saved := [.scaledBy size.ratio] } := by
    simp only [Canvas.calls_cons, Canvas.calls_nil, Canvas.call, Canvas.withPaint, hpaint, hsaved,
      gridPaint]
    split <;> rfl
  rw [hcanvas, hprepared, Canvas.call_restore (Canvas.saved_withLines _ _)]
  refine ⟨rfl, rfl, ?_⟩
  dsimp only
  rw [Canvas.commands_withLines]
  rfl

/-! ## The overlay

The overlay starts from a paint that is known in all its parts. From here on no canvas from before the pass
has to be mentioned. -/

/-- The base transform of a pass of this size. -/
def baseFor (size : SurfaceSize α) (r : Renderer α ι) : Affine α :=
  (FieldRect.onSurface size r.options.padding).baseTransform
    (.identity * .scaling size.ratio size.ratio) r.options.fieldSize

/-- What the overlay of a pass draws, on top of background and grid. -/
def overlayDrawing (size : SurfaceSize α) (r : Renderer α ι) : List (DrawCommand α ι) :=
  { Paint.standard with transform := r.baseFor size }.drawing
    ⟨r.baseFor size, r.options.splineSamples.1⟩ (.seeded r.grid) r.overlay.executed

/-- The pass over the overlay, at its end. -/
def overlayEnd (size : SurfaceSize α) (r : Renderer α ι) : Pass α ι × Option RenderError :=
  ((r.beneath size).overlayStart (r.baseFor size)).run
    ⟨r.baseFor size, r.options.splineSamples.1⟩ r.overlay.ops

/-- The renderer when the pass over its overlay has come to an end. -/
def close (size : SurfaceSize α) (r : Renderer α ι) (p : Pass α ι) : Renderer α ι :=
  { r.beneath size with
    canvas := p.canvas.call .restore
    images := p.images
    base := r.baseFor size
    grid := p.state.grid
    log := r.log ++ p.log }

/-- What becomes of a renderer in a pass over a canvas that tells its map. -/
theorem render_eq {r : Renderer α ι} (h : r.canvas.reportsTransform = true) (size : SurfaceSize α) :
    r.render size = (r.close size (r.overlayEnd size).1, (r.overlayEnd size).2) := by
  rw [render_of_tells h, drawOverlay_of_tells (by rw [reportsTransform_beneath, h]),
    (r.canvas_beneath size).1]
  rfl

theorem tells_overlayStart {r : Renderer α ι} (h : r.canvas.reportsTransform = true)
    (size : SurfaceSize α) :
    ((r.beneath size).overlayStart (r.baseFor size)).canvas.reportsTransform = true := by
  rw [overlayStart, Canvas.reportsTransform_calls, reportsTransform_beneath, h]

/-- The paint from which an overlay starts: background and grid have put theirs back. -/
theorem paint_overlayStart (size : SurfaceSize α) (r : Renderer α ι) (base : Affine α) :
    ((r.beneath size).overlayStart base).canvas.paint =
      { Paint.standard with transform := base } := by
  simp only [overlayStart, Canvas.calls_cons, Canvas.calls_nil, Canvas.call, Canvas.withPaint,
    (r.canvas_beneath size).1, Paint.scaledBy, Paint.standard]

/-- The overlay gets as far as its first unknown operation. -/
theorem reaches_overlayEnd {r : Renderer α ι} (h : r.canvas.reportsTransform = true)
    (size : SurfaceSize α) :
    Pass.Reaches ⟨r.baseFor size, r.options.splineSamples.1⟩
        ((r.beneath size).overlayStart (r.baseFor size)) r.overlay.executed (r.overlayEnd size).1 ∧
      (r.overlayEnd size).2 = Op.ending? true r.overlay.ops := by
  have hrun := Pass.reaches_run ⟨r.baseFor size, r.options.splineSamples.1⟩ r.overlay.ops
    ((r.beneath size).overlayStart (r.baseFor size))
  rw [tells_overlayStart h] at hrun
  exact hrun

/-! ## The parts

Read off `render_eq`, one by one. -/

section Parts

variable {r : Renderer α ι} (h : r.canvas.reportsTransform = true) (size : SurfaceSize α)

include h

/-- A pass ends as the first unknown operation of the overlay says. -/
theorem error_render : (r.render size).2 = Op.ending? true r.overlay.ops := by
  rw [render_eq h]
  exact (reaches_overlayEnd h size).2

/-- A pass leaves a canvas that tells its map. -/
theorem tells_render : (r.render size).1.canvas.reportsTransform = true := by
  rw [(options_render size r).2.2, h]

theorem base_render : (r.render size).1.base = r.baseFor size := by
  rw [render_eq h, close]

/-- The grid of the next pass is the one that was asked for last. -/
theorem grid_render :
    (r.render size).1.grid = (latest? Op.newGrid? r.overlay.executed).getD r.grid := by
  rw [render_eq h]
  exact congrArg OverlayState.grid (reaches_overlayEnd h size).1.state

/-- The images after a pass, which may have been deferred before it came to its overlay. -/
theorem images_render_of_tells :
    (r.render size).1.images =
      (if r.images.baseImage?.isSome then r.images else r.images.defer size).after
        r.overlay.executed := by
  rw [render_eq h]
  exact (reaches_overlayEnd h size).1.images

/-- An overlay asks for other art, and that is all that a pass changes of the alternate slot and the
requests. -/
theorem art_render :
    let art? := latest? Op.newArt? r.overlay.executed
    (r.render size).1.images.alt = (art?.map fun art => .wanting art.1).or r.images.alt ∧
      (r.render size).1.images.placement = (art?.map Prod.snd).getD r.images.placement ∧
      (r.render size).1.images.requests =
        r.images.requests ++ r.overlay.executed.filterMap Op.source? := by
  rw [images_render_of_tells h]
  split <;> exact ⟨rfl, rfl, rfl⟩

/-- What a pass draws: the background, the grid that the renderer held before, and the overlay. -/
theorem commands_render :
    (r.render size).1.canvas.commands.toList =
      (r.backdrop size).commands.toList ++ r.gridStrokes size ++ r.overlayDrawing size := by
  obtain ⟨-, -, hcommands⟩ := r.canvas_beneath size
  rw [render_eq h, close]
  dsimp only
  -- neither restoring nor the settings before the overlay record anything
  rw [Canvas.commands_call_of_not_draws rfl rfl, (reaches_overlayEnd h size).1.commands, ← hcommands,
    r.paint_overlayStart size]
  rfl

end Parts

end Renderer

end FieldDiagram
