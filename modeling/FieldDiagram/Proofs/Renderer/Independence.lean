import FieldDiagram.Proofs.Renderer.History
import FieldDiagram.Proofs.Renderer.Outcome
import Mathlib.Logic.Function.Iterate
/-!
# Passes do not depend on the past

A pass wipes its canvas and sets up map, paint and settings by itself, so all that reaches it from
earlier passes is the grid that they have left and the images. Two renderers that agree in these
(`Renderer.Alike`) draw the same, whatever has been done to their canvases, and they agree in them
afterwards. Main statement: `render_ignores_past`.
-/

namespace FieldDiagram.Renderer

variable {α ι : Type} [Scalar α]

open Scalar (one)

/-- Two renderers that agree in all that a pass looks at. Canvases, logs, requests and deferred passes
may differ. -/
structure Alike (r₁ r₂ : Renderer α ι) : Prop where
  options : r₁.options = r₂.options
  overlay : r₁.overlay = r₂.overlay
  grid : r₁.grid = r₂.grid
  base : r₁.images.base = r₂.images.base
  alt : r₁.images.alt = r₂.images.alt
  placement : r₁.images.placement = r₂.images.placement

namespace Alike

variable {r₁ r₂ r₃ : Renderer α ι}

omit [Scalar α] in
theorem refl (r : Renderer α ι) : r.Alike r := ⟨rfl, rfl, rfl, rfl, rfl, rfl⟩

omit [Scalar α] in
theorem trans (h : r₁.Alike r₂) (k : r₂.Alike r₃) : r₁.Alike r₃ :=
  ⟨h.options.trans k.options, h.overlay.trans k.overlay, h.grid.trans k.grid, h.base.trans k.base,
    h.alt.trans k.alt, h.placement.trans k.placement⟩

theorem backgroundCalls (h : r₁.Alike r₂) (rect : FieldRect α) :
    r₁.backgroundCalls rect = r₂.backgroundCalls rect := by
  simp only [Renderer.backgroundCalls, ImageCache.baseCalls, ImageCache.altCalls,
    ImageCache.baseImage?, ImageCache.altImage?, h.options, h.base, h.alt, h.placement]

/-! ## One pass

Part by part, everything that a pass leaves is told by what `Alike` compares. -/

section Pass

variable (h : r₁.Alike r₂) (h₁ : r₁.canvas.reportsTransform = true)
  (h₂ : r₂.canvas.reportsTransform = true) (size : SurfaceSize α)

include h h₁ h₂

theorem backdrop : r₁.backdrop size = r₂.backdrop size := by
  unfold Renderer.backdrop
  rw [Canvas.call_reset_of_tells h₁, Canvas.call_reset_of_tells h₂, h.backgroundCalls, h.options]

theorem error_render : (r₁.render size).2 = (r₂.render size).2 := by
  rw [Renderer.error_render h₁, Renderer.error_render h₂, h.overlay]

theorem base_render : (r₁.render size).1.base = (r₂.render size).1.base := by
  rw [Renderer.base_render h₁, Renderer.base_render h₂, baseFor, baseFor, h.options]

theorem commands_render :
    (r₁.render size).1.canvas.commands = (r₂.render size).1.canvas.commands := by
  apply Array.toList_inj.1
  rw [Renderer.commands_render h₁, Renderer.commands_render h₂, h.backdrop h₁ h₂]
  -- grid lines and overlay are drawn by what both renderers hold, and the canvas has no part in it
  simp only [gridStrokes, gridPaint, overlayDrawing, baseFor, h.options, h.overlay, h.grid]

/-- Renderers that agree before a pass agree after it. -/
theorem render : (r₁.render size).1.Alike (r₂.render size).1 := by
  obtain ⟨halt₁, hplacement₁, -⟩ := art_render h₁ size
  obtain ⟨halt₂, hplacement₂, -⟩ := art_render h₂ size
  refine ⟨?_, ?_, ?_, ?_, ?_, ?_⟩
  · rw [(options_render size r₁).1, (options_render size r₂).1, h.options]
  · rw [(options_render size r₁).2.1, (options_render size r₂).2.1, h.overlay]
  · rw [grid_render h₁, grid_render h₂, h.overlay, h.grid]
  · rw [(images_render size r₁).1, (images_render size r₂).1, h.base]
  · rw [halt₁, halt₂, h.overlay, h.alt]
  · rw [hplacement₁, hplacement₂, h.overlay, h.placement]

end Pass

end Alike

/-! ## Passes one after another

A pass changes two things that later passes look at, the grid and the art. After one pass over an overlay
the grid is the one that it asks for, so a second pass finds what it leaves. -/

/-- Without art in the overlay all that a pass changes of what the next one looks at is the grid. -/
theorem alike_render_of_no_art {r : Renderer α ι} (h : r.canvas.reportsTransform = true)
    (size : SurfaceSize α) (hart : latest? Op.newArt? r.overlay.executed = none) :
    { r with grid := (r.render size).1.grid }.Alike (r.render size).1 := by
  obtain ⟨halt, hplacement, -⟩ := art_render h size
  rw [hart] at halt hplacement
  exact ⟨(options_render size r).1.symm, (options_render size r).2.1.symm, rfl,
    (images_render size r).1.symm, halt.symm, hplacement.symm⟩

omit [Scalar α] in
theorem latest?_newArt?_executed {o : Overlay α}
    (h : ∀ url placement, Op.image url placement ∉ o.ops) :
    latest? Op.newArt? o.executed = none := by
  rw [latest?_eq_none_iff]
  intro op hop
  cases op with
  | image url placement => exact absurd (Op.mem_of_mem_executed hop) (h url placement)
  | _ => rfl

/-- From the second pass on, passes at one size leave everything that a pass looks at as it is. -/
theorem alike_iterate_render {r : Renderer α ι} (h : r.canvas.reportsTransform = true)
    (size : SurfaceSize α) (hart : latest? Op.newArt? r.overlay.executed = none) (n : Nat) :
    let again := fun q : Renderer α ι => (q.render size).1
    (again^[n] (again r)).canvas.reportsTransform = true ∧
      (again r).Alike (again^[n] (again r)) := by
  intro again
  -- every later renderer is held against the first pass and not against the one before it: that is
  -- what the statement about all of them needs, and `Alike` carries over through any pass
  induction n with
  | zero => exact ⟨tells_render h size, .refl _⟩
  | succ n ih =>
    obtain ⟨htells, hn⟩ := ih
    rw [Function.iterate_succ_apply']
    refine ⟨tells_render htells size, ?_⟩
    -- the grid that an overlay asks for is the one that its first pass has left already
    have hoverlay : (again r).overlay = r.overlay := (options_render size r).2.1
    have hgrid : (again (again r)).grid = (again r).grid := by
      simp only [again]
      rw [grid_render (tells_render h size), hoverlay, grid_render h]
      cases latest? Op.newGrid? r.overlay.executed <;> rfl
    have hsettled : (again r).Alike (again (again r)) := by
      have hnext := alike_render_of_no_art (tells_render h size) size (by rw [hoverlay]; exact hart)
      rw [show ((again r).render size).1.grid = (again r).grid from hgrid] at hnext
      exact hnext
    exact hsettled.trans (hn.render (tells_render h size) htells size)

/-- **A pass does not depend on the past.** Two renderers that agree in options, overlay, grid, image
slots and placement draw the same in a pass over canvases that tell their map, whatever is on these
canvases, and agree afterwards again. So of passes at one size over an overlay that asks for no art,
the second and all later ones end the same way and draw the same; the first ends the same way, and
draws what it would have drawn with the grid that it leaves. -/
theorem render_ignores_past (size : SurfaceSize α) :
    (∀ r₁ r₂ : Renderer α ι, r₁.canvas.reportsTransform = true →
      r₂.canvas.reportsTransform = true → r₁.Alike r₂ →
      (r₁.render size).2 = (r₂.render size).2 ∧
      (r₁.render size).1.canvas.commands = (r₂.render size).1.canvas.commands ∧
      (r₁.render size).1.base = (r₂.render size).1.base ∧
      (r₁.render size).1.Alike (r₂.render size).1) ∧
    ∀ r : Renderer α ι, r.canvas.reportsTransform = true →
      (∀ url placement, Op.image url placement ∉ r.overlay.ops) →
      let again := fun q : Renderer α ι => (q.render size).1
      let first := again r
      (∀ n, ((again^[n] first).render size).2 = (first.render size).2 ∧
        ((again^[n] first).render size).1.canvas.commands = (first.render size).1.canvas.commands) ∧
      (first.render size).2 = (r.render size).2 ∧
      (first.render size).1.canvas.commands =
        ({ r with grid := first.grid }.render size).1.canvas.commands := by
  constructor
  · intro r₁ r₂ h₁ h₂ h
    exact ⟨h.error_render h₁ h₂ size, h.commands_render h₁ h₂ size, h.base_render h₁ h₂ size,
      h.render h₁ h₂ size⟩
  · intro r htells hops again first
    have hart := latest?_newArt?_executed hops
    have hfirst : first.canvas.reportsTransform = true := tells_render htells size
    refine ⟨?_, ?_, ?_⟩
    · intro n
      obtain ⟨hn, halike⟩ := alike_iterate_render htells size hart n
      exact ⟨(halike.error_render hfirst hn size).symm, (halike.commands_render hfirst hn size).symm⟩
    · rw [error_render hfirst, error_render htells]
      exact congrArg (fun o : Overlay α => Op.ending? true o.ops) (options_render size r).2.1
    · have halike : ({ r with grid := first.grid } : Renderer α ι).Alike first :=
        alike_render_of_no_art htells size hart
      exact (halike.commands_render htells hfirst size).symm

/-- One renderer has drawn a pass and has saves left on its canvas, the other is new; their overlay
changes the grid and is aborted. -/
theorem render_ignores_past_of_use :
    let size : SurfaceSize Float := ⟨Scalar.ofNat 800, Scalar.ofNat 600, one⟩
    let overlay : Overlay Float := ⟨[.grid ⟨3, by decide, by decide⟩ ⟨4, by decide, by decide⟩,
      .origin ⟨one, one⟩, .unknown "hexagon"]⟩
    let fresh : Renderer Float String := (new (.empty true) .standard).calls [.setOverlay overlay]
    let used : Renderer Float String := (new (.empty true) .standard).calls
      [.render size, .onCanvas .save, .onCanvas (.rotate one), .takeCommands, .setOverlay overlay]
    fresh.canvas.reportsTransform = true ∧ used.canvas.reportsTransform = true ∧ fresh.Alike used ∧
      (fresh.render size).1.canvas.commands = (used.render size).1.canvas.commands ∧
      (∀ url placement, Op.image url placement ∉ fresh.overlay.ops) ∧
      ((fresh.render size).1.render size).2 = (fresh.render size).2 := by
  intro size overlay fresh used
  have hfresh : fresh.canvas.reportsTransform = true := (options_calls _ _).2
  have hused : used.canvas.reportsTransform = true := (options_calls _ _).2
  have hplain : ∀ url placement, Op.image url placement ∉ overlay.ops := by
    simp [overlay]
  -- what the host does by itself ends in the canvas, and the pass before it was over an empty overlay
  have hstart : ∀ (start : Renderer Float String) (o : Overlay Float),
      start.canvas.reportsTransform = true → start.overlay = ⟨[]⟩ →
      (start.calls [.setOverlay o]).Alike (start.calls [.render size, .onCanvas .save,
        .onCanvas (.rotate one), .takeCommands, .setOverlay o]) := by
    intro start o htells hempty
    obtain ⟨halt, hplacement, -⟩ := art_render htells size
    have hgrid := grid_render htells size
    rw [hempty] at halt hplacement hgrid
    exact ⟨(options_render size start).1.symm, rfl, hgrid.symm, (images_render size start).1.symm,
      halt.symm, hplacement.symm⟩
  have halike : fresh.Alike used := hstart _ overlay rfl rfl
  obtain ⟨hpair, hrepeat⟩ := render_ignores_past (α := Float) (ι := String) size
  obtain ⟨-, hcommands, -⟩ := hpair fresh used hfresh hused halike
  obtain ⟨-, hends, -⟩ := hrepeat fresh hfresh hplain
  exact ⟨hfresh, hused, halike, hcommands, hplain, hends⟩

end FieldDiagram.Renderer
