import FieldDiagram.Canvas.FieldTransform
import FieldDiagram.Options
import FieldDiagram.Pass
/-!
# Rendering a diagram

A renderer owns a canvas, the field's art and the overlay to draw. A pass draws the background, the
grid and the overlay, each between saving and restoring the canvas. A pass that runs while the field's
art is missing is repeated once the art is there. The grid lines that an overlay asks for are drawn
from the next pass on.
-/

namespace FieldDiagram

/-- A renderer between two passes. -/
structure Renderer (α ι : Type) where
  canvas : Canvas α ι
  options : Options α
  overlay : Overlay α
  images : ImageCache α ι
  /-- The base transform of the last pass that came to its overlay. -/
  base : Affine α
  /-- The grid of the next pass. -/
  grid : GridTicks
  log : List LogLine

namespace Renderer

variable {α ι : Type} [Scalar α]

open Scalar (ofNat)

/-- A renderer that has asked for the field's art and has nothing to draw on it. -/
def new (canvas : Canvas α ι) (options : Options α) : Renderer α ι where
  canvas
  options
  overlay := ⟨[]⟩
  images := ImageCache.empty.loadBase options.fieldImage
  base := .identity
  grid := .standard
  log := []

/-- Replaces the overlay of the passes to come. -/
def setOverlay (overlay : Overlay α) (r : Renderer α ι) : Renderer α ι := { r with overlay }

/-- The calls that draw the background. -/
def backgroundCalls (r : Renderer α ι) (rect : FieldRect α) : List (CanvasCall α ι) :=
  let alpha := r.options.alpha
  [.save, .setAlpha alpha] ++ r.images.baseCalls rect alpha ++ r.images.altCalls rect alpha ++
    [.restore]

/-! ## Grid -/

/-- The ends of the grid lines in a rectangle: `horizontal` lines from top to bottom, spread across
the width, and then `vertical` lines from side to side. The first and the last line of each kind are
edges of the rectangle. -/
def gridLines (grid : GridTicks) (rect : FieldRect α) : List (Point α × Point α) :=
  let spacingX := rect.width / ofNat (max (grid.horizontal - 1) 1)
  let spacingY := rect.height / ofNat (max (grid.vertical - 1) 1)
  let upright := (List.range grid.horizontal).map fun i =>
    let x := rect.x + spacingX * ofNat i
    (Point.mk x rect.y, Point.mk x (rect.y + rect.height))
  let level := (List.range grid.vertical).map fun i =>
    let y := rect.y + spacingY * ofNat i
    (Point.mk rect.x y, Point.mk (rect.x + rect.width) y)
  upright ++ level

/-- Strokes a line between two snapped points. -/
def strokeLine (c : Canvas α ι) (line : Point α × Point α) : Except SurfaceError (Canvas α ι) := do
  let c ← (c.call .beginPath).alignedMoveTo line.1
  let c ← c.alignedLineTo line.2
  return c.call .stroke

/-- Strokes lines in order; if one cannot be stroked, the canvas is left as it is at that point. -/
def strokeLines (c : Canvas α ι) : List (Point α × Point α) → Canvas α ι × Option SurfaceError
  | [] => (c, none)
  | line :: lines =>
    match strokeLine c line with
    | .ok c => strokeLines c lines
    | .error e => (c.call .beginPath, some e)

/-- Draws the grid. The width of its lines is given in device pixels, the canvas is scaled already. -/
def drawGrid (r : Renderer α ι) (rect : FieldRect α) (ratio : α) (c : Canvas α ι) :
    Canvas α ι × Option SurfaceError :=
  let prepared := c.calls [.save, .setStroke r.options.gridLineColor,
    .setLineWidth (r.options.gridLineWidth / ratio)]
  let (drawn, e) := strokeLines prepared (gridLines r.grid rect)
  (drawn.call .restore, e)

/-! ## Overlay -/

/-- Draws the overlay on top of the base transform. The grid that it asks for is kept also if it was
not carried out to its end. -/
def drawOverlay (rect : FieldRect α) (r : Renderer α ι) : Renderer α ι × Option RenderError :=
  let saved := r.canvas.call .save
  match saved.establish rect r.options.fieldSize with
  | .error e => ({ r with canvas := saved.call .restore }, some (.surface e))
  | .ok (base, ready) =>
    let start : Pass α ι := {
      canvas := ready.call (.setLineCap .butt)
      images := r.images
      state := .seeded r.grid
      log := [] }
    let (p, e) := start.run ⟨base, r.options.splineSamples.1⟩ r.overlay.ops
    ({ r with
        canvas := p.canvas.call .restore
        images := p.images
        base
        grid := p.state.grid
        log := r.log ++ p.log }, e)

/-! ## Passes -/

/-- Draws the whole diagram for a surface of this size. -/
def render (size : SurfaceSize α) (r : Renderer α ι) : Renderer α ι × Option RenderError :=
  let wiped := r.canvas.call (.reset size.width size.height)
  match wiped.transform? with
  | .error e => ({ r with canvas := wiped }, some (.surface e))
  | .ok _ =>
    let rect := FieldRect.onSurface size r.options.padding
    -- the pass runs without the base image too, and once more when it has come
    let images := if r.images.baseImage?.isSome then r.images else r.images.defer size
    let background := (wiped.call (.scale size.ratio size.ratio)).calls (r.backgroundCalls rect)
    match r.drawGrid rect size.ratio background with
    | (canvas, some e) => ({ r with canvas, images }, some (.surface e))
    | (canvas, none) => drawOverlay rect { r with canvas, images }

/-- Takes an image that has been loaded. If a pass was waiting for it, it is repeated now. -/
def imageLoaded (url : String) (image : ι) (r : Renderer α ι) :
    Renderer α ι × Option RenderError :=
  let (replay, images) := r.images.complete url image
  let told := { r with images, log := r.log ++ r.images.completionLog url }
  match replay with
  | some size => told.render size
  | none => (told, none)

/-- Takes note of an image that could not be loaded; it is never drawn. -/
def imageFailed (url : String) (r : Renderer α ι) : Renderer α ι :=
  { r with images := r.images.fail url, log := r.log ++ r.images.failureLog url }

/-- Hands out the log. -/
def takeLog (r : Renderer α ι) : List LogLine × Renderer α ι := (r.log, { r with log := [] })

end Renderer

end FieldDiagram
