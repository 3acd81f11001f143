import FieldDiagram.Proofs.Renderer.Outcome
import FieldDiagram.Scalar.Machine
/-!
# The parts of a diagram

What a pass has drawn, command by command: the canvas is cleared, then come the images that are there,
the grid lines from top to bottom, those from side to side, and the overlay. Each of these is drawn
within a bracket of its own, so no opacity, colour or width of one part reaches the next, and at the
end the canvas has the paint that it was given at the start. Main statement: `anatomy`.
-/

namespace FieldDiagram

variable {α ι : Type} [Scalar α]

open Scalar (zero one isOpacity isWidth)

/-! ## Images

Opacity is the one setting that images change. Each of them finds the opacity of the field's art and leaves
it, so either may be missing without a trace in the other. -/

/-- The opacity of the field's art. A value that makes no sense is passed over, and art is then opaque. -/
def Options.artOpacity (o : Options α) : α := if isOpacity o.alpha then o.alpha else one

/-- The command that draws an image at a place in logical pixels. -/
def SurfaceSize.artCommand (size : SurfaceSize α) (image : ι) (corner extent : Point α) (alpha : α) :
    DrawCommand α ι :=
  let map := (Paint.scaledBy size.ratio).transform
  .image image (map.onPoint corner) (map.onVector extent) alpha

/-- The command that draws the base image over the field. -/
def Options.baseArt (o : Options α) (size : SurfaceSize α) (image : ι) : DrawCommand α ι :=
  let rect := FieldRect.onSurface size o.padding
  size.artCommand image ⟨rect.x, rect.y⟩ ⟨rect.width, rect.height⟩ o.artOpacity

/-- The command that draws an alternate image at its place. -/
def Options.altArt (o : Options α) (size : SurfaceSize α) (placement : AltPlacement α) (image : ι) :
    DrawCommand α ι :=
  let (corner, extent) := placement.resolve (FieldRect.onSurface size o.padding)
  size.artCommand image corner extent (if placement.opaqueArt then one else o.artOpacity)

namespace Canvas

theorem call_setAlpha (c : Canvas α ι) (alpha : α) :
    c.call (.setAlpha alpha) =
      c.withPaint fun p => { p with alpha := if isOpacity alpha then alpha else p.alpha } := by
  rw [call]
  split <;> rfl

omit [Scalar α] in
theorem commands_recordAny (c : Canvas α ι) (d? : Option (DrawCommand α ι)) :
    (c.recordAny d?).commands.toList = c.commands.toList ++ d?.toList := by
  cases d? <;> simp [recordAny, record]

omit [Scalar α] in
theorem paint_recordAny (c : Canvas α ι) (d? : Option (DrawCommand α ι)) :
    (c.recordAny d?).paint = c.paint := by
  cases d? <;> rfl

end Canvas

section Background

variable {size : SurfaceSize α} {o : Options α} {c : Canvas α ι}
  (hpaint : c.paint = { Paint.scaledBy size.ratio with alpha := o.artOpacity })

include hpaint

/-- Asking for the opacity of the field's art once more changes nothing. -/
theorem Canvas.call_setAlpha_again : c.call (.setAlpha o.alpha) = c := by
  have hsame : (if isOpacity o.alpha then o.alpha else c.paint.alpha) = c.paint.alpha := by
    rw [hpaint, Options.artOpacity]
    split <;> rfl
  rw [call_setAlpha, withPaint, hsame]

theorem ImageCache.calls_baseCalls (images : ImageCache α ι) :
    c.calls (images.baseCalls (FieldRect.onSurface size o.padding) o.alpha) =
      c.recordAny (images.baseImage?.map (o.baseArt size)) := by
  rw [baseCalls]
  cases images.baseImage? with
  | none => rfl
  | some image =>
    dsimp only
    rw [Canvas.calls_cons, Canvas.call_setAlpha_again hpaint, Canvas.calls_cons, Canvas.calls_nil,
      Canvas.call, Canvas.toDevice, hpaint]
    rfl

/-- An opaque image sets its own opacity, and the one of the field's art is put back behind it. -/
theorem ImageCache.calls_altCalls (hone : isOpacity (one : α) = true) (images : ImageCache α ι) :
    c.calls (images.altCalls (FieldRect.onSurface size o.padding) o.alpha) =
      c.recordAny (images.altImage?.map (o.altArt size images.placement)) := by
  rw [altCalls]
  cases images.altImage? with
  | none => rfl
  | some image =>
    simp only [Canvas.calls_cons, Canvas.calls_nil, Options.altArt, Option.map_some,
      SurfaceSize.artCommand]
    cases images.placement.opaqueArt with
    | false =>
      rw [if_neg Bool.false_ne_true, if_neg Bool.false_ne_true, Canvas.call_setAlpha_again hpaint]
      rw [Canvas.call_setAlpha_again (by exact hpaint), Canvas.call, Canvas.toDevice, hpaint]
      rfl
    | true =>
      rw [if_pos rfl, if_pos rfl, Canvas.call_setAlpha, Canvas.call_setAlpha]
      have hmap : (Paint.scaledBy size.ratio).transform = c.paint.transform := by
        rw [hpaint]
      have hback : (if isOpacity o.alpha then o.alpha else one) = c.paint.alpha := by
        rw [hpaint, Options.artOpacity]
      simp only [Canvas.withPaint, Canvas.call, Canvas.record, Canvas.toDevice, hone, if_true, hback]
      rw [hmap]
      rfl

end Background

namespace Renderer

/-- The background: what is wiped, and the images that are there, the base image first. -/
theorem commands_backdrop (hone : isOpacity (one : α) = true) (size : SurfaceSize α)
    (r : Renderer α ι) :
    (r.backdrop size).commands.toList =
      .clear size.width size.height ::
        ((r.images.baseImage?.map (r.options.baseArt size)).toList ++
          (r.images.altImage?.map (r.options.altArt size r.images.placement)).toList) := by
  let wiped : Canvas α ι := ((r.canvas.call (.reset size.width size.height)).call
    (.scale size.ratio size.ratio)).call .save
  have hpaint : (wiped.call (.setAlpha r.options.alpha)).paint =
      { Paint.scaledBy size.ratio with alpha := r.options.artOpacity } := by
    rw [Canvas.call_setAlpha]
    rfl
  have hcommands : (wiped.call (.setAlpha r.options.alpha)).commands =
      #[.clear size.width size.height] := by
    rw [Canvas.call_setAlpha]
    rfl
  have hbackdrop : r.backdrop size = (((wiped.call (.setAlpha r.options.alpha)).calls
      (r.images.baseCalls (FieldRect.onSurface size r.options.padding) r.options.alpha)).calls
      (r.images.altCalls (FieldRect.onSurface size r.options.padding) r.options.alpha)).call
        .restore := by
    rw [backdrop, backgroundCalls, Canvas.calls_append, Canvas.calls_append, Canvas.calls_append]
    rfl
  rw [hbackdrop, Canvas.commands_call_of_not_draws rfl rfl, ImageCache.calls_baseCalls hpaint,
    ImageCache.calls_altCalls (by rw [Canvas.paint_recordAny, hpaint]) hone,
    Canvas.commands_recordAny, Canvas.commands_recordAny, hcommands, List.append_assoc]
  rfl

/-! ## Grid

The lines of the grid form two groups, and each line is one stroke. -/

/-- The grid lines from top to bottom, spread across the width. -/
def uprightLines (grid : GridTicks) (rect : FieldRect α) : List (Point α × Point α) :=
  let spacing := rect.width / Scalar.ofNat (max (grid.horizontal - 1) 1)
  (List.range grid.horizontal).map fun i =>
    let x := rect.x + spacing * Scalar.ofNat i
    (⟨x, rect.y⟩, ⟨x, rect.y + rect.height⟩)

/-- The grid lines from side to side, spread across the height. -/
def levelLines (grid : GridTicks) (rect : FieldRect α) : List (Point α × Point α) :=
  let spacing := rect.height / Scalar.ofNat (max (grid.vertical - 1) 1)
  (List.range grid.vertical).map fun i =>
    let y := rect.y + spacing * Scalar.ofNat i
    (⟨rect.x, y⟩, ⟨rect.x + rect.width, y⟩)

theorem length_uprightLines (grid : GridTicks) (rect : FieldRect α) :
    (uprightLines grid rect).length = grid.horizontal := by
  rw [uprightLines, List.length_map, List.length_range]

theorem length_levelLines (grid : GridTicks) (rect : FieldRect α) :
    (levelLines grid rect).length = grid.vertical := by
  rw [levelLines, List.length_map, List.length_range]

/-- Both ends of a line from top to bottom lie above each other. -/
theorem x_of_mem_uprightLines {grid : GridTicks} {rect : FieldRect α} :
    ∀ line ∈ uprightLines grid rect, line.1.x = line.2.x :=
  List.forall_mem_map.2 fun _ _ => rfl

/-- Both ends of a line from side to side lie on one level. -/
theorem y_of_mem_levelLines {grid : GridTicks} {rect : FieldRect α} :
    ∀ line ∈ levelLines grid rect, line.1.y = line.2.y :=
  List.forall_mem_map.2 fun _ _ => rfl

theorem gridLines_eq_append (grid : GridTicks) (rect : FieldRect α) :
    gridLines grid rect = uprightLines grid rect ++ levelLines grid rect := rfl

/-- The stroke that draws a grid line from its one snapped end to the other. -/
def gridStroke (size : SurfaceSize α) (r : Renderer α ι) (line : Point α × Point α) :
    DrawCommand α ι :=
  let map := (Paint.scaledBy size.ratio).transform
  let width := r.options.gridLineWidth / size.ratio
  .stroke [.moveTo (map.snapped line.1), .lineTo (map.snapped line.2)] r.options.gridLineColor one
    ((if isWidth width then width else one) * map.uniformScale) .butt

theorem gridStrokes_eq_append (size : SurfaceSize α) (r : Renderer α ι) :
    r.gridStrokes size =
      (uprightLines r.grid (FieldRect.onSurface size r.options.padding)).map (r.gridStroke size) ++
      (levelLines r.grid (FieldRect.onSurface size r.options.padding)).map (r.gridStroke size) := by
  rw [gridStrokes, gridLines_eq_append, List.map_append]
  rfl

/-! ## Overlay

What an overlay draws is told without the rest of the diagram: by a pass over it alone, on a canvas on which
nothing was drawn. That this is the same says that no part of the diagram reaches into the overlay. -/

/-- A pass over the overlay alone, on a canvas on which nothing was done but to set the base
transform. -/
def overlayAlone (size : SurfaceSize α) (r : Renderer α ι) : Pass α ι where
  canvas := (Canvas.empty true).call (.setTransform (r.baseFor size))
  images := r.images
  state := .seeded r.grid
  log := []

/-- Background and grid leave no trace in what the overlay draws. -/
theorem overlayDrawing_eq (size : SurfaceSize α) (r : Renderer α ι) :
    r.overlayDrawing size = ((r.overlayAlone size).run
      ⟨r.baseFor size, r.options.splineSamples.1⟩ r.overlay.ops).1.canvas.commands.toList :=
  (Pass.reaches_run ⟨r.baseFor size, r.options.splineSamples.1⟩ r.overlay.ops
    (r.overlayAlone size)).1.commands.symm

/-! ## The whole pass

The parts of a pass one after the other. As each of them is within its bracket, the paint at the end is that
at the start. -/

/-- What is on the canvas at the end of a pass, besides the commands. -/
theorem paint_render {r : Renderer α ι} (h : r.canvas.reportsTransform = true) (size : SurfaceSize α) :
    (r.render size).1.canvas.paint = .scaledBy size.ratio ∧
      (r.render size).1.canvas.saved = [] := by
  obtain ⟨hpaint, hsaved, -⟩ := r.canvas_beneath size
  have hend : (r.overlayEnd size).1.canvas.saved = [.scaledBy size.ratio] := by
    rw [(reaches_overlayEnd h size).1.saved, overlayStart]
    simp only [Canvas.calls_cons, Canvas.calls_nil, Canvas.call, Canvas.withPaint, hpaint, hsaved]
  rw [render_eq h, close, Canvas.call_restore hend]
  exact ⟨rfl, rfl⟩

/-- **Anatomy of a pass.** Over a canvas that tells its map, a pass draws in this order: the cleared
canvas; the base image, if it is there, with the opacity of the options or, where that makes no sense,
with full opacity; the alternate image, if it is there, with full opacity if it asks for that and else
like the base image; a stroke of two elements for each line from top to bottom and then for each from
side to side, as many as the ticks that were held before; and what the overlay adds, which is what it
draws by itself on an untouched canvas with the base transform. It ends well or at an unknown
operation, with nothing saved and untouched paint but for the scale of the surface. A canvas that does
not tell its map is cleared, and nothing else of the renderer changes. -/
theorem anatomy (size : SurfaceSize Float) (r : Renderer Float ι) :
    let o := r.options
    let rect := FieldRect.onSurface size o.padding
    let opacity := if isOpacity o.alpha then o.alpha else one
    let width := o.gridLineWidth / size.ratio
    let map := ((Canvas.empty true : Canvas Float ι).call (.scale size.ratio size.ratio)).paint.transform
    let setting : PassSetting Float := ⟨r.baseFor size, o.splineSamples.1⟩
    let emitted := ((r.overlayAlone size).run setting r.overlay.ops).1.canvas.commands.toList
    let start := (r.beneath size).overlayStart setting.base
    let stroke : Point Float × Point Float → DrawCommand Float ι := fun (p, q) =>
      .stroke [.moveTo (map.snapped p), .lineTo (map.snapped q)] o.gridLineColor one
        ((if isWidth width then width else one) * map.uniformScale) .butt
    (r.canvas.reportsTransform = true →
      (r.render size).1.canvas.commands.toList =
        [.clear size.width size.height] ++
        (r.images.baseImage?.map fun image => DrawCommand.image image (map.onPoint ⟨rect.x, rect.y⟩)
          (map.onVector ⟨rect.width, rect.height⟩) opacity).toList ++
        (r.images.altImage?.map fun image =>
          let (corner, extent) := r.images.placement.resolve rect
          DrawCommand.image image (map.onPoint corner) (map.onVector extent)
            (if r.images.placement.opaqueArt then one else opacity)).toList ++
        (uprightLines r.grid rect).map stroke ++ (levelLines r.grid rect).map stroke ++ emitted ∧
      (start.run setting r.overlay.ops).1.canvas.commands.toList =
        start.canvas.commands.toList ++ emitted ∧
      ((uprightLines r.grid rect).length = r.grid.horizontal ∧
        ∀ line ∈ uprightLines r.grid rect, line.1.x = line.2.x) ∧
      ((levelLines r.grid rect).length = r.grid.vertical ∧
        ∀ line ∈ levelLines r.grid rect, line.1.y = line.2.y) ∧
      ((r.render size).2 = none ∨
        ∃ kind index, (r.render size).2 = some (.unknownOperation kind index)) ∧
      (r.render size).1.canvas.saved = [] ∧
      (r.render size).1.canvas.paint = { Paint.standard with transform := map }) ∧
    (r.canvas.reportsTransform = false →
      r.render size =
        ({ r with canvas := ⟨.standard, [], #[], #[.clear size.width size.height], false⟩ },
          some (.surface .transformUnavailable))) := by
  intro o rect opacity width map setting emitted start stroke
  constructor
  · intro h
    obtain ⟨hpaint, hsaved⟩ := paint_render h size
    refine ⟨?_, ?_, ⟨length_uprightLines _ _, x_of_mem_uprightLines⟩,
      ⟨length_levelLines _ _, y_of_mem_levelLines⟩, ?_, hsaved, hpaint⟩
    · rw [commands_render h, commands_backdrop (by decide +kernel), gridStrokes_eq_append,
        overlayDrawing_eq]
      simp only [List.append_assoc, List.cons_append, List.nil_append]
      rfl
    · have hadded := (reaches_overlayEnd h size).1.commands
      rw [paint_overlayStart] at hadded
      exact hadded.trans (congrArg _ (r.overlayDrawing_eq size))
    · rw [error_render h, Op.ending?_true]
      refine (Option.eq_none_or_eq_some _).imp_right ?_
      rintro ⟨e, he⟩
      obtain ⟨⟨op, i⟩, -, rfl⟩ := Option.map_eq_some_iff.1 he
      exact ⟨op.kind, i, he⟩
  · intro h
    rw [render_of_not_tells h, Canvas.call, h]

/-- An opacity that makes no sense, art that has come and an overlay that is aborted, with a save left
on the canvas; and a canvas that does not tell its map. -/
theorem anatomy_of_aborted :
    let size : SurfaceSize Float := ⟨Scalar.ofNat 800, Scalar.ofNat 600, Scalar.ofNat 2⟩
    let o : Options Float := { Options.standard with alpha := Scalar.ofNat 2 }
    let overlay : Overlay Float := ⟨[.stroke "red", .circle .zero one true, .unknown "hexagon",
      .grid ⟨3, by decide, by decide⟩ ⟨4, by decide, by decide⟩]⟩
    let fresh : Renderer Float String := new (.empty true) o
    let r : Renderer Float String :=
      { fresh.setOverlay overlay with
        canvas := { Canvas.empty true with saved := [.standard] }
        images := ⟨some ⟨"field.png", .loaded "art"⟩, some ⟨"alt.png", .failed⟩, .empty, none, []⟩ }
    let mute : Renderer Float String := new (.empty false) o
    r.canvas.reportsTransform = true ∧ mute.canvas.reportsTransform = false ∧
      (∃ point extent rest, (r.render size).1.canvas.commands.toList =
        .clear size.width size.height ::
          .image "art" point extent (if isOpacity o.alpha then o.alpha else one) :: rest) ∧
      (r.render size).1.canvas.saved = [] ∧
      (mute.render size).2 = some (.surface .transformUnavailable) ∧
      (mute.render size).1.images = mute.images := by
  intro size o overlay fresh r mute
  obtain ⟨hcommands, -, -, -, -, hsaved, -⟩ := (anatomy size r).1 rfl
  have hmute := (anatomy size mute).2 rfl
  refine ⟨rfl, rfl, ⟨_, _, _, hcommands⟩, hsaved, ?_, ?_⟩
  · rw [hmute]
  · rw [hmute]

end Renderer

end FieldDiagram
