import FieldDiagram.Proofs.Pass.Step
import FieldDiagram.Renderer
/-!
# The stages of a pass

A pass wipes the canvas, draws background and grid, and then the overlay. A canvas that does not tell
its map refuses the pass as soon as it is wiped; on every other canvas nothing can fail before the
overlay, and `render_of_tells` and `drawOverlay_of_tells` say what the overlay starts from and what
becomes of the renderer. Whatever the overlay does, base image and deferred pass are as background and
grid leave them.
-/

namespace FieldDiagram

variable {α ι : Type}

namespace Canvas

theorem transform?_of_tells {c : Canvas α ι} (h : c.reportsTransform = true) :
    c.transform? = .ok c.paint.transform := by
  rw [transform?, if_pos h]

theorem transform?_of_not_tells {c : Canvas α ι} (h : c.reportsTransform = false) :
    c.transform? = .error .transformUnavailable := by
  rw [transform?, h, if_neg Bool.false_ne_true]

end Canvas

variable [Scalar α]

/-! ## What an overlay leaves alone

An induction over steps that needs only what one step keeps. It is used for whatever holds also of passes
that fail. -/

namespace Pass

/-- What each step keeps is kept by all operations together, also where they fail. -/
theorem runFrom_induction {setting : PassSetting α} {motive : Pass α ι → Prop}
    (hstep : ∀ index op p, motive p → motive (p.step setting index op).1)
    (index : Nat) (ops : List (Op α)) (p : Pass α ι) (hp : motive p) :
    motive (p.runFrom setting index ops).1 := by
  -- the operations behind a failure are not carried out, and nothing has to be shown of them
  induction ops generalizing index p with
  | nil => exact hp
  | cons op ops ih =>
    have hnext := hstep index op p hp
    rw [runFrom]
    rcases h : p.step setting index op with ⟨q, _ | e⟩
    · rw [h] at hnext
      exact ih (index + 1) q hnext
    · rw [h] at hnext
      exact hnext

theorem reportsTransform_run (setting : PassSetting α) (ops : List (Op α)) (p : Pass α ι) :
    (p.run setting ops).1.canvas.reportsTransform = p.canvas.reportsTransform :=
  runFrom_induction (motive := fun q => q.canvas.reportsTransform = p.canvas.reportsTransform)
    (fun index op q hq => by rw [reportsTransform_step, hq]) 0 ops p rfl

/-- An overlay asks for other art, but it does not answer for the field's own. -/
theorem base_run (setting : PassSetting α) (ops : List (Op α)) (p : Pass α ι) :
    (p.run setting ops).1.images.base = p.images.base ∧
      (p.run setting ops).1.images.deferred = p.images.deferred := by
  refine runFrom_induction (motive := fun q => q.images.base = p.images.base ∧
    q.images.deferred = p.images.deferred) ?_ 0 ops p ⟨rfl, rfl⟩
  intro index op q hq
  rw [images_step]
  cases op <;> exact hq

end Pass

/-! ## Grid lines

Lines are stroked one by one, with a path of their own each. Where the canvas tells its map none of them
fails, and all are stroked by the same map. -/

namespace Canvas

/-- A canvas after a line has been stroked on it. -/
def withLine (c : Canvas α ι) (line : Point α × Point α) : Canvas α ι :=
  (c.withPath (c.paint.transform.snappedChain [line.1, line.2])).call .stroke

/-- A canvas after lines have been stroked on it. -/
def withLines (c : Canvas α ι) (lines : List (Point α × Point α)) : Canvas α ι :=
  lines.foldl withLine c

@[simp] theorem paint_withLines (c : Canvas α ι) (lines : List (Point α × Point α)) :
    (c.withLines lines).paint = c.paint := by
  induction lines generalizing c with
  | nil => rfl
  | cons line lines ih => exact ih (c.withLine line)

@[simp] theorem saved_withLines (c : Canvas α ι) (lines : List (Point α × Point α)) :
    (c.withLines lines).saved = c.saved := by
  induction lines generalizing c with
  | nil => rfl
  | cons line lines ih => exact ih (c.withLine line)

@[simp] theorem reportsTransform_withLines (c : Canvas α ι) (lines : List (Point α × Point α)) :
    (c.withLines lines).reportsTransform = c.reportsTransform := by
  induction lines generalizing c with
  | nil => rfl
  | cons line lines ih => exact ih (c.withLine line)

theorem commands_withLines (c : Canvas α ι) (lines : List (Point α × Point α)) :
    (c.withLines lines).commands.toList = c.commands.toList ++
      lines.map fun line =>
        c.paint.finished true (c.paint.transform.snappedChain [line.1, line.2]) := by
  induction lines generalizing c with
  | nil => exact (List.append_nil _).symm
  | cons line lines ih =>
    have hline : (c.withLine line).commands.toList = c.commands.toList ++
        [c.paint.finished true (c.paint.transform.snappedChain [line.1, line.2])] :=
      Array.toList_push
    have hrest := ih (c.withLine line)
    rw [hline, List.append_assoc] at hrest
    exact hrest

@[simp] theorem reportsTransform_calls (c : Canvas α ι) (ds : List (CanvasCall α ι)) :
    (c.calls ds).reportsTransform = c.reportsTransform := by
  induction ds generalizing c with
  | nil => rfl
  | cons d ds ih => rw [calls_cons, ih, reportsTransform_call]

end Canvas

namespace Renderer

theorem strokeLine_of_tells {c : Canvas α ι} (h : c.reportsTransform = true)
    (line : Point α × Point α) : strokeLine c line = .ok (c.withLine line) := by
  have hbegun : (c.call .beginPath).reportsTransform = true := h
  rw [strokeLine, Canvas.alignedMoveTo_of_tells hbegun]
  simp only [bind, Except.bind]
  rw [Canvas.alignedLineTo_of_tells (by exact h), Canvas.extendBy_extendBy, Canvas.extendBy_beginPath]
  rfl

theorem strokeLines_of_tells {c : Canvas α ι} (h : c.reportsTransform = true)
    (lines : List (Point α × Point α)) : strokeLines c lines = (c.withLines lines, none) := by
  induction lines generalizing c with
  | nil => rfl
  | cons line lines ih =>
    rw [strokeLines, strokeLine_of_tells h]
    exact ih h

/-- The renderer when background and grid are drawn: what the overlay of a pass of this size starts
from. -/
def beneath (size : SurfaceSize α) (r : Renderer α ι) : Renderer α ι :=
  let rect := FieldRect.onSurface size r.options.padding
  let scaled := (r.canvas.call (.reset size.width size.height)).call (.scale size.ratio size.ratio)
  let gridded := (scaled.calls (r.backgroundCalls rect)).calls
    [.save, .setStroke r.options.gridLineColor, .setLineWidth (r.options.gridLineWidth / size.ratio)]
  { r with
    canvas := (gridded.withLines (gridLines r.grid rect)).call .restore
    images := if r.images.baseImage?.isSome then r.images else r.images.defer size }

/-- The pass over the overlay, at its start: the base transform is set, the rest of the paint is as it
was, and the settings are fresh but for the grid. -/
def overlayStart (base : Affine α) (r : Renderer α ι) : Pass α ι where
  canvas := r.canvas.calls [.save, .setTransform base, .setLineCap .butt]
  images := r.images
  state := .seeded r.grid
  log := []

@[simp] theorem reportsTransform_beneath (size : SurfaceSize α) (r : Renderer α ι) :
    (r.beneath size).canvas.reportsTransform = r.canvas.reportsTransform := by
  simp only [beneath, Canvas.reportsTransform_call, Canvas.reportsTransform_withLines,
    Canvas.reportsTransform_calls]

/-- A canvas that does not tell its map refuses a pass as soon as it is wiped. -/
theorem render_of_not_tells {r : Renderer α ι} (h : r.canvas.reportsTransform = false)
    (size : SurfaceSize α) :
    r.render size = ({ r with canvas := r.canvas.call (.reset size.width size.height) },
      some (.surface .transformUnavailable)) := by
  rw [render, Canvas.transform?_of_not_tells (by exact h)]

/-- What is left of such a pass is the cleared canvas. -/
theorem commands_render_of_not_tells {r : Renderer α ι} (h : r.canvas.reportsTransform = false)
    (size : SurfaceSize α) :
    (r.render size).1.canvas.commands.toList = [.clear size.width size.height] := by
  rw [render_of_not_tells h]
  rfl

/-- On a canvas that tells its map every pass comes to its overlay. -/
theorem render_of_tells {r : Renderer α ι} (h : r.canvas.reportsTransform = true)
    (size : SurfaceSize α) :
    r.render size =
      (r.beneath size).drawOverlay (FieldRect.onSurface size r.options.padding) := by
  rw [render, Canvas.transform?_of_tells (by exact h)]
  dsimp only
  rw [drawGrid, strokeLines_of_tells (by simpa using h)]
  rfl

/-- What an overlay makes of a renderer whose canvas tells its map. -/
theorem drawOverlay_of_tells {r : Renderer α ι} (h : r.canvas.reportsTransform = true)
    (rect : FieldRect α) :
    r.drawOverlay rect =
      let base := rect.baseTransform r.canvas.paint.transform r.options.fieldSize
      let (p, e) := (r.overlayStart base).run ⟨base, r.options.splineSamples.1⟩ r.overlay.ops
      ({ r with
          canvas := p.canvas.call .restore
          images := p.images
          base
          grid := p.state.grid
          log := r.log ++ p.log }, e) := by
  rw [drawOverlay, Canvas.establish, Canvas.transform?_of_tells (by exact h)]
  rfl

/-! ## What a pass leaves alone

These hold of every pass, on any canvas and however it ends. -/

/-- No pass changes options or overlay, or whether the canvas tells its map. -/
theorem options_render (size : SurfaceSize α) (r : Renderer α ι) :
    (r.render size).1.options = r.options ∧ (r.render size).1.overlay = r.overlay ∧
      (r.render size).1.canvas.reportsTransform = r.canvas.reportsTransform := by
  rcases h : r.canvas.reportsTransform with _ | _
  · rw [render_of_not_tells h]
    exact ⟨rfl, rfl, h⟩
  · rw [render_of_tells h, drawOverlay_of_tells (by rw [reportsTransform_beneath, h])]
    refine ⟨rfl, rfl, ?_⟩
    dsimp only
    rw [Canvas.reportsTransform_call, Pass.reportsTransform_run, overlayStart,
      Canvas.reportsTransform_calls, reportsTransform_beneath, h]

/-- A pass does not answer for the field's art, and it is deferred exactly if that art is missing and
the canvas tells its map. -/
theorem images_render (size : SurfaceSize α) (r : Renderer α ι) :
    (r.render size).1.images.base = r.images.base ∧
      (r.render size).1.images.deferred =
        if r.canvas.reportsTransform && r.images.baseImage?.isNone then some size
        else r.images.deferred := by
  rcases h : r.canvas.reportsTransform with _ | _
  · rw [render_of_not_tells h]
    exact ⟨rfl, rfl⟩
  · rw [render_of_tells h, drawOverlay_of_tells (by rw [reportsTransform_beneath, h])]
    dsimp only
    rw [(Pass.base_run _ _ _).1, (Pass.base_run _ _ _).2, overlayStart, beneath]
    rcases himage : r.images.baseImage? with _ | image <;> exact ⟨rfl, rfl⟩

end Renderer

end FieldDiagram
