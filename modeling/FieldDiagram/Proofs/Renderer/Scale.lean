import Mathlib
import FieldDiagram.Proofs.Geometry.Factor
import FieldDiagram.Proofs.Renderer.Place
/-!
# One scale for an overlay

The overlay of a pass is drawn in inches of the field, and there is one number of device pixels to an inch.
Corners are snapped with it along both axes, and radii and widths are multiplied by it, though the two
come from different computations. A diagram may turn its axes and move their origin as often as it
likes; only the factors of a scale make a difference, and only as long as they are in force.

Main statement: `Renderer.drawn_to_scale`.
-/

namespace FieldDiagram

variable {α ι : Type} [Scalar α]

/-! ## Paths with one number for all

The program computes the scale of a map in two ways, for corners and for radii and widths. Here the path of
an operation is written down with one number in all places, and compared with the program's. -/

/-- The device point of a point that is snapped first, with `k` pixels to a unit along both axes. -/
def Affine.snappedBy (m : Affine α) (k : α) (p : Point α) : Point α :=
  m.onPoint ⟨alignCoord p.x k, alignCoord p.y k⟩

/-- The path of an operation that draws one, with `k` pixels to a unit for every snapped corner and every
radius. Of a curve only the start is snapped. -/
def Op.pathBy? (m : Affine α) (k : α) (steps : Nat) : Op α → Option (List (PathElement α))
  | circle center radius _ => some [.arc (m.onPoint center) (radius * k) Scalar.zero Scalar.fullTurn]
  | polygon xs ys _ =>
    some (chainPath ((Point.pair xs ys).map (m.snappedBy k)) ++
      if (Point.pair xs ys).isEmpty then [] else [.close])
  | polyline xs ys => some (chainPath ((Point.pair xs ys).map (m.snappedBy k)))
  | spline curve =>
    let (start, rest) := (curve.sample steps).splitAt 1
    some (chainPath (start.map (m.snappedBy k) ++ rest.map m.onPoint))
  | _ => none

/-- The command that strokes or fills a path, with `k` pixels to a unit of the width. -/
def Paint.finishedBy (p : Paint α) (k : α) (stroked : Bool) (path : List (PathElement α)) :
    DrawCommand α ι :=
  if stroked then .stroke path p.stroke p.alpha (p.lineWidth * k) p.lineCap
  else .fill path p.fill p.alpha

section Factor

variable {m : Affine ℝ} {k : ℝ} (h : m.HasFactor k)

include h

theorem Affine.snapped_eq_snappedBy : m.snapped = m.snappedBy k := by
  funext p
  rw [snapped, align, h.rows, snappedBy]

theorem Affine.curveCorners_eq (ps : List (Point ℝ)) :
    m.curveCorners ps = (ps.splitAt 1).1.map (m.snappedBy k) ++ (ps.splitAt 1).2.map m.onPoint := by
  rw [← snapped_eq_snappedBy h]
  cases ps with
  | nil => rfl
  | cons p ps => simp [curveCorners]

/-- Where both numbers agree, no path shows which of them it was drawn with. -/
theorem Op.path?_eq_pathBy? (steps : Nat) (op : Op ℝ) : op.path? m steps = op.pathBy? m k steps := by
  cases op with
  | circle center radius outlined => rw [path?, pathBy?, h.area]
  | polygon xs ys outlined =>
    rw [path?, pathBy?, snappedChain_eq, Affine.snapped_eq_snappedBy h]
  | polyline xs ys => rw [path?, pathBy?, snappedChain_eq, Affine.snapped_eq_snappedBy h]
  | spline curve => rw [path?, pathBy?, curveChain_eq, Affine.curveCorners_eq h]
  | _ => rfl

end Factor

theorem Paint.draw?_of_pathBy? {p : Paint ℝ} {k : ℝ} (h : p.transform.HasFactor k) {steps : Nat}
    {op : Op ℝ} {path : List (PathElement ℝ)} (hpath : op.pathBy? p.transform k steps = some path) :
    p.draw? steps op = some (p.finishedBy k op.isStroked path : DrawCommand ℝ ι) := by
  rw [← Op.path?_eq_pathBy? h] at hpath
  rw [draw?_of_path? hpath, finished, h.area, finishedBy]

namespace Renderer

/-- The base transform of a pass has as many pixels to an inch as the field's square is larger in pixels
than in inches. -/
theorem hasFactor_baseFor {size : SurfaceSize ℝ} (hratio : 0 < size.ratio) (r : Renderer ℝ ι) :
    (r.baseFor size).HasFactor (size.ratio *
      (|(FieldRect.onSurface size r.options.padding).width| / |r.options.fieldSize|)) := by
  have hsurface : (Affine.identity * Affine.scaling size.ratio size.ratio).HasFactor size.ratio := by
    have hscaled := Affine.hasFactor_identity.stretched (x := size.ratio) rfl
    rwa [one_mul, abs_of_pos hratio] at hscaled
  exact hsurface.base rfl r.options.fieldSize

/-- While no factors are in force, only the base transform decides how many pixels there are to an inch. -/
theorem hasFactor_canvasBehind {r : Renderer ℝ ι} (htells : r.canvas.reportsTransform = true)
    {size : SurfaceSize ℝ} (hratio : 0 < size.ratio) {ops : List (Op ℝ)}
    (hknown : ∀ op ∈ ops, op.fails true = false) (hfree : Op.inForce? ops = none) :
    (r.canvasBehind size ops).paint.transform.HasFactor (size.ratio *
      (|(FieldRect.onSurface size r.options.padding).width| / |r.options.fieldSize|)) := by
  rw [transform_canvasBehind htells size hknown, hfree]
  exact (hasFactor_baseFor hratio r).layered _ _

/-- **One scale for an overlay**, with exact numbers. Moving or turning the plane before any map changes
neither the two factors that it snaps with nor the one by which it changes lengths, and stretching it by
`k` along both axes multiplies all three by the size of `k`.

So take any pass on a surface with a positive ratio, and an operation of its overlay that is carried out
while no factors are in force: before the first scale, or where an origin or a rotation has taken the
last one away. However often the axes were moved and turned, the map of the canvas has
`ratio * |side| / |fieldSize|` pixels to an inch by all three, and if the operation has a path, the command
at its place has every snapped corner, every radius and every width from that one number. On a canvas
that does not tell its map nothing is drawn. -/
theorem drawn_to_scale :
    (∀ m : Affine ℝ,
      (∀ p : Point ℝ, (m * .displacement p).scalingFactors = m.scalingFactors ∧
        (m * .displacement p).uniformScale = m.uniformScale) ∧
      (∀ angle : ℝ, (m * .rotation angle).scalingFactors = m.scalingFactors ∧
        (m * .rotation angle).uniformScale = m.uniformScale) ∧
      ∀ k : ℝ, (m * .scaling k k).scalingFactors =
          ⟨|k| * m.scalingFactors.x, |k| * m.scalingFactors.y⟩ ∧
        (m * .scaling k k).uniformScale = |k| * m.uniformScale) ∧
    ∀ (r : Renderer ℝ ι) (size : SurfaceSize ℝ), 0 < size.ratio → r.options.fieldSize ≠ 0 →
      let side := (FieldRect.onSurface size r.options.padding).width
      let k := size.ratio * (|side| / |r.options.fieldSize|)
      (r.canvas.reportsTransform = true → ∀ pre op post, r.overlay.executed = pre ++ op :: post →
        Op.inForce? pre = none →
        let before := r.canvasBehind size pre
        let map := before.paint.transform
        map.scalingFactors = ⟨k, k⟩ ∧ map.uniformScale = k ∧
          ∀ path, op.pathBy? map k r.options.splineSamples.1 = some path →
            ∃ rest, (r.render size).1.canvas.commands.toList =
              before.commands.toList ++ before.paint.finishedBy k op.isStroked path :: rest) ∧
      (r.canvas.reportsTransform = false →
        (r.render size).1.canvas.commands.toList = [.clear size.width size.height]) := by
  refine ⟨?_, ?_⟩
  · intro m
    refine ⟨?_, ?_, ?_⟩
    · intro p
      exact ⟨Affine.scalingFactors_mul_displacement m p,
        Affine.uniformScale_mul_of_determinant (Affine.determinant_displacement p) m⟩
    · intro angle
      exact ⟨Affine.scalingFactors_mul_rotation m angle,
        Affine.uniformScale_mul_of_determinant (Affine.determinant_rotation angle) m⟩
    · intro k
      refine ⟨Affine.scalingFactors_mul_scaling m rfl, ?_⟩
      rw [Affine.uniformScale_mul, Affine.uniformScale_scaling rfl, mul_comm]
  · intro r size hratio _ side k
    refine ⟨?_, ?_⟩
    · intro htells pre op post hsplit hfree before map
      have hfactor : map.HasFactor k :=
        hasFactor_canvasBehind htells hratio (Overlay.fails_of_split hsplit) hfree
      refine ⟨hfactor.rows, hfactor.area, ?_⟩
      intro path hpath
      obtain ⟨rest, hcommands⟩ := commands_render_split htells size hsplit
      refine ⟨rest, ?_⟩
      rw [hcommands, Paint.draw?_of_pathBy? hfactor hpath, List.append_assoc]
      rfl
    · intro hmute
      exact commands_render_of_not_tells hmute size

/-- A circle behind a scale that a rotation has taken away, on a surface with two device pixels to a
logical one: an inch has four pixels less a quarter, whatever the scale was. -/
theorem drawn_to_scale_of_circle :
    let size : SurfaceSize ℝ := ⟨800, 600, 2⟩
    let options : Options ℝ := ⟨15, 1, 144, ⟨250, by decide⟩, 3, .black, "field.png"⟩
    let pre : List (Op ℝ) := [.origin ⟨5, 7⟩, .scale 3 11, .rotation 1]
    let r : Renderer ℝ String := (new (.empty true) options).setOverlay ⟨pre ++ [.circle ⟨1, 2⟩ 4 true]⟩
    let before := r.canvasBehind size pre
    0 < size.ratio ∧ options.fieldSize ≠ 0 ∧ before.paint.transform.uniformScale = 15 / 4 ∧
      ∃ center rest, (r.render size).1.canvas.commands.toList = before.commands.toList ++
        .stroke [.arc center 15 0 (2 * Real.pi)] .black 1 (15 / 4) .butt :: rest := by
  intro size options pre r before
  have hratio : 0 < size.ratio := by norm_num [size]
  have hfield : options.fieldSize ≠ 0 := by norm_num [options]
  have hside : (FieldRect.onSurface size options.padding).width = 270 := by
    simp only [FieldRect.onSurface, FieldRect.centeredSquare, SurfaceSize.logical, size, options,
      Scalar.min_real, Scalar.ofNat_real]
    norm_num
  obtain ⟨-, hpasses⟩ := drawn_to_scale (ι := String)
  obtain ⟨hdrawn, -⟩ := hpasses r size hratio hfield
  have hinch : size.ratio * (|(FieldRect.onSurface size options.padding).width| / |options.fieldSize|) =
      15 / 4 := by
    rw [hside]
    norm_num [size, options]
  obtain ⟨-, hlengths, hcommand⟩ := hdrawn rfl pre (.circle ⟨1, 2⟩ 4 true) [] rfl rfl
  obtain ⟨rest, hcommands⟩ := hcommand _ rfl
  -- nothing has been said of colour, opacity or width, so they are those of the start
  have hpaint : before.paint = { Paint.standard with transform := before.paint.transform } := by
    have hknown : ∀ op ∈ pre, op.fails true = false := by
      simp [pre, Op.fails, Op.isUnknown, Op.snaps]
    have hafter : before.paint = _ := paint_canvasBehind rfl size hknown
    rw [hafter]
    rfl
  refine ⟨hratio, hfield, hlengths.trans hinch, before.paint.transform.onPoint ⟨1, 2⟩, rest, ?_⟩
  rw [hcommands, show r.options = options from rfl, hinch, hpaint, Paint.finishedBy]
  have hradius : 4 * (15 / 4 : ℝ) = 15 := by norm_num
  simp only [Paint.standard, Op.isStroked, if_true, hradius, Scalar.zero_real, Scalar.one_real,
    Scalar.fullTurn_real, one_mul]
  rfl

end Renderer

end FieldDiagram
