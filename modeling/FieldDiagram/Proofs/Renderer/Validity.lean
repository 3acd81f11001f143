import FieldDiagram.Proofs.Canvas.Validity
import FieldDiagram.Proofs.Ensures
import FieldDiagram.Proofs.Renderer.History
/-!
# Frames that make sense

A renderer changes its canvas only by calls. So what every call keeps is kept by passes, by all parts of a
frame and by everything that a host can do, for all options and overlays: with it, the sense that the paint
and the commands of a canvas make.

Main statements: `Renderer.called_call`, `Renderer.frames_valid`.
-/

namespace FieldDiagram

variable {α ι : Type} [Scalar α]

open Scalar (zero one)

namespace Canvas

/-- A canvas that is another one after some calls. -/
def Called (c c' : Canvas α ι) : Prop := ∃ ds, c' = c.calls ds

variable {c c' c'' : Canvas α ι}

theorem Called.refl (c : Canvas α ι) : Called c c := ⟨[], rfl⟩

theorem Called.calls (c : Canvas α ι) (ds : List (CanvasCall α ι)) : Called c (c.calls ds) := ⟨ds, rfl⟩

theorem Called.trans (h : Called c c') (h' : Called c' c'') : Called c c'' := by
  obtain ⟨ds, rfl⟩ := h
  obtain ⟨es, rfl⟩ := h'
  exact ⟨ds ++ es, (calls_append c ds es).symm⟩

theorem Called.andCall (h : Called c c') (d : CanvasCall α ι) : Called c (c'.call d) :=
  h.trans (.calls c' [d])

theorem Called.andCalls (h : Called c c') (ds : List (CanvasCall α ι)) : Called c (c'.calls ds) :=
  h.trans (.calls c' ds)

/-! ## Snapped points

Snapping can fail, and then there is no canvas; where it does not, it has made calls. -/

theorem called_alignedMoveTo {p : Point α} (h : c.alignedMoveTo p = .ok c') : Called c c' := by
  obtain ⟨q, -, rfl⟩ := exists_of_map h
  exact .calls c [.moveTo q.x q.y]

theorem called_alignedLineTo {p : Point α} (h : c.alignedLineTo p = .ok c') : Called c c' := by
  obtain ⟨q, -, rfl⟩ := exists_of_map h
  exact .calls c [.lineTo q.x q.y]

theorem called_foldlM_alignedLineTo {ps : List (Point α)} (h : ps.foldlM alignedLineTo c = .ok c') :
    Called c c' := by
  induction ps generalizing c with
  | nil =>
    obtain rfl : c = c' := Except.ok.inj h
    exact .refl c
  | cons p ps ih =>
    rw [List.foldlM_cons] at h
    obtain ⟨next, hline, hrest⟩ := exists_of_bind h
    exact (called_alignedLineTo hline).trans (ih hrest)

theorem called_alignedPolyline {ps : List (Point α)} (h : c.alignedPolyline ps = .ok c') :
    Called c c' := by
  cases ps with
  | nil =>
    obtain rfl : c = c' := Except.ok.inj h
    exact .refl c
  | cons p ps =>
    obtain ⟨next, hstart, hrest⟩ := exists_of_bind h
    exact (called_alignedMoveTo hstart).trans (called_foldlM_alignedLineTo hrest)

end Canvas

open Canvas (Called)

namespace Pass

/-! ## Operations

Every operation comes to calls, also where it fails. -/

theorem called_curvePath {ps : List (Point α)} {c c' : Canvas α ι} (h : curvePath ps c = .ok c') :
    Called c c' := by
  cases ps with
  | nil =>
    obtain rfl : c = c' := Except.ok.inj h
    exact .refl c
  | cons p ps =>
    obtain ⟨next, hstart, hrest⟩ := exists_of_bind h
    obtain rfl := Except.ok.inj hrest
    exact (Canvas.called_alignedMoveTo hstart).andCalls _

theorem called_drawPath {build : Canvas α ι → Except SurfaceError (Canvas α ι)}
    (hbuild : ∀ {c c'}, build c = .ok c' → Called c c') (rest : List (CanvasCall α ι)) (p : Pass α ι) :
    Called p.canvas (p.drawPath build rest).1.canvas := by
  rw [drawPath]
  rcases hpath : build (p.canvas.call .beginPath) with e | c
  · exact .calls p.canvas [.beginPath]
  · exact ((Called.calls p.canvas [.beginPath]).trans (hbuild hpath)).andCalls rest

/-- An operation changes the canvas by calls, also one that fails. -/
theorem called_step (setting : PassSetting α) (index : Nat) (op : Op α) (p : Pass α ι) :
    Called p.canvas (p.step setting index op).1.canvas := by
  cases op with
  | image url placement => exact .refl _
  | grid horizontal vertical =>
    rw [step]
    dsimp only
    split <;> exact .refl _
  | scale x y => exact (Called.calls p.canvas [.setTransform _]).andCall (.scale x y)
  | rotation angle => exact .calls p.canvas [.setTransform _]
  | origin point => exact .calls p.canvas [.setTransform _]
  | alpha a =>
    rw [step]
    dsimp only
    split <;> exact .calls p.canvas [.setAlpha a]
  | fill text =>
    rw [step, setColor]
    cases Color.parse text with
    | error e => exact .refl _
    | ok color => exact .calls p.canvas [.setFill color]
  | stroke text =>
    rw [step, setColor]
    cases Color.parse text with
    | error e => exact .refl _
    | ok color => exact .calls p.canvas [.setStroke color]
  | strokeWidth width =>
    rw [step]
    dsimp only
    split <;> exact .calls p.canvas [.setLineWidth width]
  | text content point font angle outlined => exact .calls p.canvas _
  | circle center radius outlined => exact .calls p.canvas _
  | polygon xs ys outlined => exact called_drawPath Canvas.called_alignedPolyline _ p
  | polyline xs ys => exact called_drawPath Canvas.called_alignedPolyline _ p
  | spline curve => exact called_drawPath called_curvePath _ p
  | unknown kind => exact .refl _

theorem called_run (setting : PassSetting α) (ops : List (Op α)) (p : Pass α ι) :
    Called p.canvas (p.run setting ops).1.canvas := by
  apply runFrom_induction (motive := fun q => Called p.canvas q.canvas)
  · intro index op q hq
    exact hq.trans (called_step setting index op q)
  · exact .refl _

end Pass

namespace Renderer

/-! ## Frames

A frame is a list of calls, whatever decides about which. So all that is known of calls is known of frames,
without a look at what they draw. -/

theorem called_strokeLine {c c' : Canvas α ι} {line : Point α × Point α}
    (h : strokeLine c line = .ok c') : Called c c' := by
  obtain ⟨started, hstart, hrest⟩ := exists_of_bind h
  obtain ⟨ended, hend, hdone⟩ := exists_of_bind hrest
  obtain rfl := Except.ok.inj hdone
  have hbegun : Called c (c.call .beginPath) := .calls c [.beginPath]
  exact ((hbegun.trans (Canvas.called_alignedMoveTo hstart)).trans
    (Canvas.called_alignedLineTo hend)).andCall .stroke

theorem called_strokeLines (c : Canvas α ι) (lines : List (Point α × Point α)) :
    Called c (strokeLines c lines).1 := by
  induction lines generalizing c with
  | nil => exact .refl c
  | cons line lines ih =>
    rw [strokeLines]
    rcases hline : strokeLine c line with e | next
    · exact .calls c [.beginPath]
    · exact (called_strokeLine hline).trans (ih next)

theorem called_drawGrid (r : Renderer α ι) (rect : FieldRect α) (ratio : α) (c : Canvas α ι) :
    Called c (r.drawGrid rect ratio c).1 :=
  ((Called.calls c _).trans (called_strokeLines _ _)).andCall .restore

theorem called_drawOverlay (rect : FieldRect α) (r : Renderer α ι) :
    Called r.canvas (r.drawOverlay rect).1.canvas := by
  have hsaved : Called r.canvas (r.canvas.call .save) := .calls r.canvas [.save]
  rw [drawOverlay, Canvas.establish]
  rcases (r.canvas.call .save).transform? with e | m
  · exact hsaved.andCall .restore
  · exact ((hsaved.andCalls [.setTransform _, .setLineCap .butt]).trans
      (Pass.called_run _ _ _)).andCall .restore

/-- A frame changes the canvas by calls, wherever it ends. -/
theorem called_render (size : SurfaceSize α) (r : Renderer α ι) :
    Called r.canvas (r.render size).1.canvas := by
  have hwiped : Called r.canvas (r.canvas.call (.reset size.width size.height)) :=
    .calls r.canvas [.reset size.width size.height]
  rw [render]
  rcases (r.canvas.call (.reset size.width size.height)).transform? with e | m
  · exact hwiped
  · dsimp only
    have hbackground := (hwiped.andCall (.scale size.ratio size.ratio)).andCalls
      (r.backgroundCalls (FieldRect.onSurface size r.options.padding))
    have hgrid := hbackground.trans
      (called_drawGrid r (FieldRect.onSurface size r.options.padding) size.ratio _)
    rcases hdrawn : r.drawGrid _ size.ratio _ with ⟨canvas, _ | e⟩
    · rw [hdrawn] at hgrid
      exact hgrid.trans (called_drawOverlay _ _)
    · rw [hdrawn] at hgrid
      exact hgrid

/-- Whatever a host does, the canvas is changed by calls, or its commands are handed out. -/
theorem called_call (r : Renderer α ι) (d : RendererCall α ι) :
    Called r.canvas (r.call d).canvas ∨ (r.call d).canvas = r.canvas.takeCommands.2 := by
  cases d with
  | setOverlay overlay => exact Or.inl (.refl _)
  | render size => exact Or.inl (called_render size r)
  | imageLoaded url image =>
    left
    rw [call, imageLoaded_eq]
    rcases (r.images.complete url image).1 with _ | size
    · exact .refl _
    · exact called_render size (r.told url image)
  | imageFailed url => exact Or.inl (.refl _)
  | drain => exact Or.inl (.refl _)
  | onCanvas d => exact Or.inl (.calls r.canvas [d])
  | takeCommands => exact Or.inr rfl

/-- What calls keep, and handing out the commands keeps too, is kept by everything that a host can do. -/
theorem calls_induction {motive : Canvas α ι → Prop}
    (hcall : ∀ c d, motive c → motive (Canvas.call c d))
    (htake : ∀ c, motive c → motive (Canvas.takeCommands c).2)
    (r : Renderer α ι) (h : List (RendererCall α ι)) (hr : motive r.canvas) :
    motive (r.calls h).canvas := by
  have hcalls : ∀ (ds : List (CanvasCall α ι)) (c : Canvas α ι), motive c → motive (c.calls ds) := by
    intro ds
    induction ds with
    | nil => exact fun c hc => hc
    | cons d ds ih => exact fun c hc => ih (c.call d) (hcall c d hc)
  induction h using List.reverseRecOn with
  | nil => exact hr
  | append_singleton h d ih =>
    rw [calls_concat]
    rcases called_call (r.calls h) d with ⟨ds, hcanvas⟩ | htaken
    · rw [hcanvas]
      exact hcalls ds _ ih
    · rw [htaken]
      exact htake _ ih

/-- **Paint makes sense at all times.** After any calls on a canvas, with any numbers, the opacity of the
paint and of every saved paint lies between zero and one and their line widths are finite and above zero;
so every command has such an opacity, and no stroke has a negative width. The same holds of the canvas of a
renderer, with any options, after everything that a host can do to it: any overlays, frames, images and
calls of its own on the canvas, in any order. -/
theorem frames_valid (reportsTransform : Bool) (ds : List (CanvasCall Float ι)) :
    ((Canvas.empty reportsTransform).calls ds).Valid ∧
      ∀ (options : Options Float) (h : List (RendererCall Float ι)),
        ((new ((Canvas.empty reportsTransform).calls ds) options).calls h).canvas.Valid := by
  have hvalid := (Canvas.valid_empty reportsTransform).calls ds
  refine ⟨hvalid, ?_⟩
  intro options h
  apply calls_induction
  · intro c d hc
    exact hc.call d
  · intro c hc
    exact hc.takeCommands
  · exact hvalid

end Renderer

end FieldDiagram
