import FieldDiagram.Proofs.Renderer.Outcome
/-!
# Settings that mirror the paint

A pass keeps colours, line width and opacity twice, in its own settings and in the paint of its canvas,
and which values make sense for them is decided on either side. The two never come apart: an operation
that is passed over on one side is passed over on the other, and a text, which sets a font of its own,
puts the paint back. What is true of one operation is true of all that a pass executes, since settings
and paint are as the last effective operations say. Main statement: `mirrors_throughout`.
-/

namespace FieldDiagram

variable {α ι : Type} [Scalar α]

open Scalar (zero one)

/-- Whether settings are the colours, the line width and the opacity of some paint. -/
structure OverlayState.Mirrors (s : OverlayState α) (p : Paint α) : Prop where
  fill : s.fill = p.fill
  stroke : s.stroke = p.stroke
  strokeWidth : s.strokeWidth = p.lineWidth
  alpha : s.alpha = p.alpha

namespace OverlayState.Mirrors

/-- Fresh settings mirror the paint of a canvas that nothing was set on but a map. -/
theorem seeded (grid : GridTicks) (transform : Affine α) :
    (OverlayState.seeded grid : OverlayState α).Mirrors { Paint.standard with transform } :=
  ⟨rfl, rfl, rfl, rfl⟩

/-- Operations that are executed say the same to the settings and to the paint. -/
theorem after {s : OverlayState α} {p : Paint α} (h : s.Mirrors p) (base : Affine α)
    (ops : List (Op α)) : (s.after ops).Mirrors (p.after base s ops) where
  fill := by rw [OverlayState.after, Paint.after, h.fill]
  stroke := by rw [OverlayState.after, Paint.after, h.stroke]
  strokeWidth := by rw [OverlayState.after, Paint.after, h.strokeWidth]
  alpha := by rw [OverlayState.after, Paint.after, h.alpha]

end OverlayState.Mirrors

namespace Pass

/-- Settings that mirror the paint at the start of a pass do so wherever it ends. -/
theorem mirrors_run {setting : PassSetting α} {p : Pass α ι} (h : p.state.Mirrors p.canvas.paint)
    (ops : List (Op α)) :
    (p.run setting ops).1.state.Mirrors (p.run setting ops).1.canvas.paint := by
  have hreached := (reaches_run setting ops p).1
  rw [hreached.state, hreached.paint]
  exact h.after setting.base _

/-- What was saved is still saved, and no operation sets cap or font for those behind it. -/
theorem kept_run (setting : PassSetting α) (ops : List (Op α)) (p : Pass α ι) :
    (p.run setting ops).1.canvas.saved = p.canvas.saved ∧
      (p.run setting ops).1.canvas.paint.font = p.canvas.paint.font ∧
      (p.run setting ops).1.canvas.paint.lineCap = p.canvas.paint.lineCap := by
  have hreached := (reaches_run setting ops p).1
  refine ⟨hreached.saved, ?_, ?_⟩
  · rw [hreached.paint, Paint.after]
  · rw [hreached.paint, Paint.after]

end Pass

namespace Renderer

/-- **Settings mirror the paint.** If they do at the start of a pass, then they do after any of the
first operations of any overlay, whatever their arguments are and whether one of them has ended the
pass; and what is saved, the font and the cap are then as they were at the start. Whatever options,
images and size are, and whatever is on the canvas, a rendering whose canvas tells its map is one such
pass, from settings that mirror the paint; on any other canvas no operation is carried out. -/
theorem mirrors_throughout (setting : PassSetting α) (size : SurfaceSize α) :
    (∀ (ops : List (Op α)) (p : Pass α ι), p.state.Mirrors p.canvas.paint → ∀ n,
      let q := (p.run setting (ops.take n)).1
      q.state.Mirrors q.canvas.paint ∧ q.canvas.saved = p.canvas.saved ∧
        q.canvas.paint.font = p.canvas.paint.font ∧
        q.canvas.paint.lineCap = p.canvas.paint.lineCap) ∧
    (∀ r : Renderer α ι, r.canvas.reportsTransform = true →
      let start := (r.beneath size).overlayStart (r.baseFor size)
      let (p, e) := start.run ⟨r.baseFor size, r.options.splineSamples.1⟩ r.overlay.ops
      start.state.Mirrors start.canvas.paint ∧ r.render size = (r.close size p, e)) ∧
    ∀ r : Renderer α ι, r.canvas.reportsTransform = false →
      r.render size = ({ r with canvas := r.canvas.call (.reset size.width size.height) },
        some (.surface .transformUnavailable)) := by
  refine ⟨?_, ?_, fun r h => render_of_not_tells h size⟩
  · intro ops p h n q
    exact ⟨Pass.mirrors_run h (ops.take n), Pass.kept_run setting (ops.take n) p⟩
  · intro r h start
    have hstart : start.state.Mirrors start.canvas.paint := by
      rw [r.paint_overlayStart size]
      exact .seeded r.grid _
    exact ⟨hstart, render_eq h size⟩

/-- Values that make no sense, and an abort, on a canvas in use whose paint is mirrored; and a new
renderer. -/
theorem mirrors_despite_junk :
    let paint : Paint Float := { Paint.standard with fill := .opaqueOfBytes 255 0 0, alpha := zero }
    let settings : OverlayState Float :=
      { OverlayState.seeded .standard with fill := .opaqueOfBytes 255 0 0, alpha := zero }
    let canvas : Canvas Float String := { Canvas.empty true with paint, saved := [.standard] }
    let p : Pass Float String := ⟨canvas, .empty, settings, []⟩
    let ops : List (Op Float) := [.alpha (zero / zero), .strokeWidth (-one), .fill "no colour",
      .text "A" .zero (some "bold 9px serif") one true, .stroke "navy", .unknown "hexagon",
      .alpha one]
    let q := (p.run ⟨.identity, 4⟩ (ops.take 6)).1
    let size : SurfaceSize Float := ⟨Scalar.ofNat 800, Scalar.ofNat 600, one⟩
    let r : Renderer Float String := new (.empty true) .standard
    let start := (r.beneath size).overlayStart (r.baseFor size)
    p.state.Mirrors p.canvas.paint ∧ r.canvas.reportsTransform = true ∧
      q.state.Mirrors q.canvas.paint ∧ q.canvas.saved = [.standard] ∧
      start.state.Mirrors start.canvas.paint := by
  intro paint settings canvas p ops q size r start
  have hp : p.state.Mirrors p.canvas.paint := ⟨rfl, rfl, rfl, rfl⟩
  obtain ⟨hruns, hrender, -⟩ := mirrors_throughout (ι := String) ⟨.identity, 4⟩ size
  obtain ⟨hmirrors, hsaved, -⟩ := hruns ops p hp 6
  exact ⟨hp, rfl, hmirrors, hsaved, (hrender r rfl).1⟩

end Renderer

end FieldDiagram
