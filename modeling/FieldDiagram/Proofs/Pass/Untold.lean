import FieldDiagram.Proofs.Pass.Extent
/-!
# Passes over a canvas that keeps its map to itself

Snapping a point to the pixels of the device takes the map of the canvas. Where the canvas does not tell
it, everything that is drawn without snapping still works, and the first operation that would snap a
point ends the pass, as an unknown operation does. It has begun a path by then, and that is all that is
left of it.

Main statement: `Pass.run_untold`.
-/

namespace FieldDiagram

variable {α ι : Type}

open Scalar (zero one)

namespace Op

/-- The operations that snap a point: every curve, since a curve has a start, and those polygons and
chains of lines of which pairing the coordinates leaves a corner. -/
inductive NeedsMap : Op α → Prop
  | polygon {xs ys : List α} (outlined : Bool) (hpoints : Point.pair xs ys ≠ []) :
    NeedsMap (polygon xs ys outlined)
  | polyline {xs ys : List α} (hpoints : Point.pair xs ys ≠ []) : NeedsMap (polyline xs ys)
  | spline (curve : SplineCurve α) : NeedsMap (spline curve)

theorem needsMap_iff_snaps {op : Op α} : op.NeedsMap ↔ op.snaps = true := by
  constructor
  · intro h
    cases h with
    | polygon outlined hpoints => simpa [snaps] using hpoints
    | polyline hpoints => simpa [snaps] using hpoints
    | spline curve => rfl
  · intro h
    cases op with
    | polygon xs ys outlined => exact .polygon outlined (by simpa [snaps] using h)
    | polyline xs ys => exact .polyline (by simpa [snaps] using h)
    | spline curve => exact .spline curve
    | _ => exact absurd h (by simp [snaps])

/-- Without the map an operation fails if it is unknown or has a point to snap. -/
theorem fails_false_iff {op : Op α} :
    op.fails false = true ↔ op.isUnknown = true ∨ op.NeedsMap := by
  unfold fails
  rw [Bool.not_false, Bool.and_true, Bool.or_eq_true, needsMap_iff_snaps]

end Op

namespace Pass

variable [Scalar α]

/-- A pass gets through exactly if no operation fails. -/
theorem run_eq_none_iff (setting : PassSetting α) (ops : List (Op α)) (p : Pass α ι) :
    (p.run setting ops).2 = none ↔ ∀ op ∈ ops, op.fails p.canvas.reportsTransform = false := by
  constructor
  · intro hok
    rcases Op.executed_cases p.canvas.reportsTransform ops with hall | ⟨op, post, hop, hsplit⟩
    · rw [← hall]
      intro op hmem
      exact Op.fails_of_mem_executed hmem
    · -- the operation behind those that are executed would have ended the pass
      have hending := (reaches_run setting ops p).2
      unfold Op.ending? at hending
      dsimp only at hending
      generalize Op.executed p.canvas.reportsTransform ops = done at hsplit hending
      rw [hok, hsplit, List.getElem?_append_right (Nat.le_refl _), Nat.sub_self,
        List.getElem?_cons_zero, Option.bind_some, eq_comm, Op.failure?_eq_none_iff, hop] at hending
      exact absurd hending Bool.true_eq_false.mp
  · intro hops
    obtain ⟨q, hrun, -⟩ := run_of_none_fails setting ops p hops
    rw [hrun]

theorem drawPath_of_error {build : Canvas α ι → Except SurfaceError (Canvas α ι)}
    (rest : List (CanvasCall α ι)) {p : Pass α ι} {e : SurfaceError}
    (h : build (p.canvas.call .beginPath) = .error e) :
    p.drawPath build rest =
      ({ p with canvas := { p.canvas with path := #[] } }, some (.surface e)) := by
  rw [drawPath, h]
  rfl

/-- An operation that is refused the map leaves an empty path and nothing else. -/
theorem step_of_needsMap (setting : PassSetting α) (index : Nat) {op : Op α} {p : Pass α ι}
    (huntold : p.canvas.reportsTransform = false) (hop : op.NeedsMap) :
    p.step setting index op =
      ({ p with canvas := { p.canvas with path := #[] } },
        some (.surface .transformUnavailable)) := by
  have hchain : ∀ points : List (Point α), points ≠ [] →
      (p.canvas.call .beginPath).alignedPolyline points = .error .transformUnavailable := by
    intro points hpoints
    have hrefuses : ¬ ((p.canvas.call .beginPath).reportsTransform || points.isEmpty) = true := by
      simp [huntold, hpoints]
    rw [Canvas.alignedPolyline_eq, if_neg hrefuses]
  cases hop with
  | polygon outlined hpoints =>
    unfold step
    exact drawPath_of_error _ (hchain _ hpoints)
  | polyline hpoints =>
    unfold step
    exact drawPath_of_error _ (hchain _ hpoints)
  | spline curve =>
    unfold step
    apply drawPath_of_error
    -- a curve always has a start, and the start is what is refused
    have hsome : curve.sample setting.steps ≠ [] := by
      apply List.ne_nil_of_length_pos
      rw [curve.length_sample]
      omega
    have hrefuses : ¬ ((p.canvas.call .beginPath).reportsTransform ||
        (curve.sample setting.steps).isEmpty) = true := by
      simp [huntold, hsome]
    rw [Canvas.curvePath_eq, if_neg hrefuses]

/-- **A pass over a canvas that does not tell its map.** From every state it gets through exactly if no
operation is unknown and none has a point to snap. Otherwise take the first that is or has: the pass
reports it, by kind and place or as refused the map, and what it leaves is the run over the operations
before, as it ended, with a line in the log or with an empty path. So commands, paint, what was saved,
settings and images, with their requests, are those of that run. -/
theorem run_untold (setting : PassSetting α) (ops : List (Op α)) (p : Pass α ι)
    (huntold : p.canvas.reportsTransform = false) :
    ((p.run setting ops).2 = none ↔ ∀ op ∈ ops, op.isUnknown = false ∧ ¬ op.NeedsMap) ∧
    ∀ (pre : List (Op α)) (op : Op α) (post : List (Op α)), ops = pre ++ op :: post →
      (∀ before ∈ pre, before.isUnknown = false ∧ ¬ before.NeedsMap) →
      let cut := p.run setting pre
      cut.2 = none ∧
      (∀ kind, op = .unknown kind → p.run setting ops =
        (cut.1.note unknownOperation, some (.unknownOperation kind pre.length))) ∧
      (op.NeedsMap → p.run setting ops =
        ({ cut.1 with canvas := { cut.1.canvas with path := #[] } },
          some (.surface .transformUnavailable))) := by
  -- without a map an operation fails for its kind or for its points, and for nothing else
  have hproceeds : ∀ op : Op α, op.fails p.canvas.reportsTransform = false ↔
      op.isUnknown = false ∧ ¬ op.NeedsMap := by
    intro op
    rw [huntold, ← Bool.not_eq_true, Op.fails_false_iff, not_or, Bool.not_eq_true]
  refine ⟨?_, ?_⟩
  · simp only [← hproceeds]
    exact run_eq_none_iff setting ops p
  · intro pre op post hsplit hpre cut
    simp only [← hproceeds] at hpre
    obtain ⟨q, hrun, hq⟩ := run_of_none_fails setting pre p hpre
    have hcut : cut = (q, none) := hrun
    have huntoldCut : q.canvas.reportsTransform = false := hq.tells.trans huntold
    rw [hcut, hsplit]
    refine ⟨rfl, ?_, ?_⟩
    · rintro kind rfl
      exact run_append_of_fails hrun rfl post
    · intro hop
      have hfails : op.fails q.canvas.reportsTransform = true := by
        rw [huntoldCut]
        exact Op.fails_false_iff.2 (.inr hop)
      rw [run_append_of_fails hrun hfails]
      exact step_of_needsMap setting pre.length huntoldCut hop

/-- A chain of lines of which one list of coordinates is empty gets through, and so do a circle and new
art; a chain with a corner does not, and what stands behind it has no say. -/
theorem run_untold_on_mixed :
    let p : Pass Float String :=
      ⟨(Canvas.empty false).calls [.save, .moveTo one one], .empty, .seeded .standard, []⟩
    let pre : List (Op Float) := [.circle .zero one true, .polyline [one] [],
      .image "alt.png" .empty, .text "A" .zero none zero false]
    let ops := pre ++ .polyline [one] [zero] :: [.unknown "hexagon", .alpha one]
    p.canvas.reportsTransform = false ∧ (p.run ⟨.identity, 4⟩ ops).2 ≠ none ∧
      (p.run ⟨.identity, 4⟩ pre).2 = none ∧
      p.run ⟨.identity, 4⟩ ops =
        ({ (p.run ⟨.identity, 4⟩ pre).1 with
            canvas := { (p.run ⟨.identity, 4⟩ pre).1.canvas with path := #[] } },
          some (.surface .transformUnavailable)) := by
  intro p pre ops
  have huntold : p.canvas.reportsTransform = false := rfl
  obtain ⟨hiff, hfirst⟩ := run_untold ⟨.identity, 4⟩ ops p huntold
  have hpre : ∀ before ∈ pre, before.isUnknown = false ∧ ¬ before.NeedsMap := by
    simp [pre, Op.needsMap_iff_snaps, Op.isUnknown, Op.snaps, Point.pair]
  obtain ⟨hcut, -, hrefused⟩ := hfirst pre _ _ rfl hpre
  have hrun := hrefused (.polyline (by simp [Point.pair]))
  refine ⟨huntold, ?_, hcut, hrun⟩
  rw [hrun]
  exact Option.some_ne_none _

end Pass

end FieldDiagram
