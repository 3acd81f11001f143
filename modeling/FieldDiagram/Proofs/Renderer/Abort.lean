import FieldDiagram.Proofs.Renderer.History
import FieldDiagram.Proofs.Renderer.Outcome
/-!
# Passes that are aborted

An unknown operation ends a pass from within three brackets: the overlay's operations, the settings that
they keep, and the pass itself. All that was done before it is kept, and all three are left as they are
left at a proper end. So an aborted pass is the pass over the operations before the unknown one, but for
what it reports. Main statement: `render_aborted`.
-/

namespace FieldDiagram.Renderer

variable {α ι : Type} [Scalar α]

open Scalar (one)

/-- Over every overlay a pass starts from the same background and grid, and closes with what the
operations have come to. -/
theorem render_setOverlay {r : Renderer α ι} (h : r.canvas.reportsTransform = true)
    (size : SurfaceSize α) {ops : List (Op α)} {p : Pass α ι} {e : Option RenderError}
    (hrun : ((r.beneath size).overlayStart (r.baseFor size)).run
      ⟨r.baseFor size, r.options.splineSamples.1⟩ ops = (p, e)) :
    (r.setOverlay ⟨ops⟩).render size = ((r.setOverlay ⟨ops⟩).close size p, e) := by
  have hend : (r.setOverlay ⟨ops⟩).overlayEnd size = (p, e) := hrun
  rw [render_eq (r := r.setOverlay ⟨ops⟩) h, hend]

/-- The log is only written to: a pass does not depend on what is in it. -/
theorem render_with_log {r : Renderer α ι} (h : r.canvas.reportsTransform = true)
    (size : SurfaceSize α) (log : List LogLine) :
    ({ r with log }.render size).2 = (r.render size).2 ∧
      ({ r with log }.render size).1 =
        { (r.render size).1 with log := ({ r with log }.render size).1.log } := by
  rw [render_eq (r := { r with log }) h, render_eq h]
  exact ⟨rfl, rfl⟩

/-- **An aborted pass is the pass over what stands before the unknown operation.** It reports that
operation and its place, and but for the log the renderer is left as the shorter overlay leaves it:
canvas, images, grid and base transform are the same, whatever stands behind. Grid and art that were
asked for before the abort are kept, and no later pass, over any overlay, can tell the two apart. -/
theorem render_aborted (r : Renderer α ι) (size : SurfaceSize α) (pre post : List (Op α))
    (kind : String) (htells : r.canvas.reportsTransform = true)
    (hknown : ∀ op ∈ pre, op.isUnknown = false) :
    let whole : Overlay α := ⟨pre ++ .unknown kind :: post⟩
    let aborted := (r.setOverlay whole).render size
    let cut := (r.setOverlay ⟨pre⟩).render size
    aborted.2 = some (.unknownOperation kind pre.length) ∧ cut.2 = none ∧
    aborted.1 =
      { cut.1 with overlay := whole, log := cut.1.log ++ [Pass.unknownOperation] } ∧
    aborted.1.grid = (latest? Op.newGrid? pre).getD r.grid ∧
    aborted.1.images =
      (if r.images.baseImage?.isSome then r.images else r.images.defer size).after pre ∧
    ∀ (overlay : Overlay α) (next : SurfaceSize α),
      let after := (aborted.1.setOverlay overlay).render next
      let clean := (cut.1.setOverlay overlay).render next
      after.2 = clean.2 ∧ after.1 = { clean.1 with log := after.1.log } := by
  intro whole aborted cut
  obtain ⟨q, hrun, hq⟩ := Pass.run_known ⟨r.baseFor size, r.options.splineSamples.1⟩ pre
    ((r.beneath size).overlayStart (r.baseFor size)) hknown (tells_overlayStart htells size)
  -- the unknown operation adds a line to the log and nothing else
  have habort : ((r.beneath size).overlayStart (r.baseFor size)).run
      ⟨r.baseFor size, r.options.splineSamples.1⟩ (pre ++ .unknown kind :: post) =
        (q.note Pass.unknownOperation, some (.unknownOperation kind pre.length)) :=
    Pass.run_append_of_fails hrun rfl post
  have hcut : cut = _ := render_setOverlay htells size hrun
  have haborted : aborted = _ := render_setOverlay htells size habort
  have hsame : aborted.1 =
      { cut.1 with overlay := whole, log := cut.1.log ++ [Pass.unknownOperation] } := by
    rw [haborted, hcut]
    simp only [close, Pass.note, List.append_assoc]
    rfl
  have htellsCut : cut.1.canvas.reportsTransform = true :=
    tells_render (r := r.setOverlay ⟨pre⟩) htells size
  refine ⟨by rw [haborted], by rw [hcut], hsame, ?_, ?_, ?_⟩
  · rw [hsame, hcut]
    exact congrArg OverlayState.grid hq.state
  · rw [hsame, hcut]
    exact hq.images
  · intro overlay next after clean
    have hafter : after = ({ cut.1.setOverlay overlay with
        log := cut.1.log ++ [Pass.unknownOperation] } : Renderer α ι).render next := by
      simp only [after, hsame, setOverlay]
    rw [hafter]
    exact render_with_log (r := cut.1.setOverlay overlay) htellsCut next
      (cut.1.log ++ [Pass.unknownOperation])

/-- A renderer whose art has come and whose host has left a save on the canvas. -/
theorem render_aborted_in_use :
    let size : SurfaceSize Float := ⟨Scalar.ofNat 800, Scalar.ofNat 600, one⟩
    let r : Renderer Float String := (new (.empty true) .standard).calls
      [.render size, .imageLoaded "field.png" "art", .onCanvas .save]
    let pre : List (Op Float) := [.circle .zero one false, .grid ⟨3, by decide, by decide⟩
      ⟨1, by decide, by decide⟩, .image "alt.png" .empty]
    let aborted := (r.setOverlay ⟨pre ++ .unknown "hexagon" :: [.scale one one]⟩).render size
    r.canvas.reportsTransform = true ∧ (∀ op ∈ pre, op.isUnknown = false) ∧
      aborted.2 = some (.unknownOperation "hexagon" 3) ∧ aborted.1.grid = ⟨3, 2⟩ ∧
      aborted.1.images.alt = some (.wanting "alt.png") := by
  intro size r pre aborted
  have htells : r.canvas.reportsTransform = true := (options_calls _ _).2
  have hknown : ∀ op ∈ pre, op.isUnknown = false := by
    simp [pre, Op.isUnknown]
  obtain ⟨hfailed, -, -, hgrid, himages, -⟩ :=
    render_aborted r size pre [.scale one one] "hexagon" htells hknown
  refine ⟨htells, hknown, hfailed, hgrid, ?_⟩
  rw [himages]
  rfl

end FieldDiagram.Renderer
