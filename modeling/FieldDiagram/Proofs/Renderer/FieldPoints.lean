import FieldDiagram.Proofs.Geometry.FieldMap
import FieldDiagram.Proofs.Renderer.Scale
/-!
# Points of the field on the surface

Where a point of the field lies on the surface is one formula, `FieldRect.place`, and nothing that an
overlay does changes it but its last origin, its last rotation and the factors of a scale. A circle shows
it: it is recorded around the place of its centre.

Main statement: `Renderer.field_on_surface`.
-/

namespace FieldDiagram.Renderer

variable {ι : Type}

/-- The base transform of a pass puts a point on the field's square and counts in device pixels. -/
theorem onPoint_baseFor (size : SurfaceSize ℝ) (r : Renderer ℝ ι) (p : Point ℝ) :
    let rect := FieldRect.onSurface size r.options.padding
    let q := rect.place r.options.fieldSize p
    (r.baseFor size).onPoint p = ⟨size.ratio * q.x, size.ratio * q.y⟩ := by
  intro rect q
  rw [baseFor, FieldRect.onPoint_baseTransform, Affine.identity_mul, Affine.onPoint_scaling]

/-- While no factors are in force, a point is counted from the last origin and along the axes of the last
rotation. -/
theorem onPoint_canvasBehind {r : Renderer ℝ ι} (htells : r.canvas.reportsTransform = true)
    (size : SurfaceSize ℝ) {ops : List (Op ℝ)} (hknown : ∀ op ∈ ops, op.fails true = false)
    (hfree : Op.inForce? ops = none) (p : Point ℝ) :
    (r.canvasBehind size ops).paint.transform.onPoint p =
      (r.baseFor size).onPoint (.layered (Op.originBehind ops) (Op.rotationBehind ops) p) := by
  rw [transform_canvasBehind htells size hknown, hfree, Affine.stretched, Affine.onPoint_layered]

/-- **Points of the field on the surface**, with exact numbers. Whatever map was there before, the base
transform of a rectangle takes a point of the field to a place on the rectangle, and then goes on with that
map. The places of the field's square fill the rectangle, those of its corners are the corners, and
unless the rectangle is flat every place belongs to one point of the square only; then the base transform
keeps points apart exactly if the map from before does. An origin and a rotation on top of it first count
the point from that origin and along axes turned by that angle.

So in a pass on a surface with a positive ratio, a circle that is carried out while no factors are in force,
as everywhere in an overlay that does not scale, is recorded around the place of its centre in device
pixels, counted from the last origin and along the axes of the last rotation before it. Nothing else that
comes before it matters. On a canvas that does not tell its map nothing is drawn. -/
theorem field_on_surface :
    (∀ (parent : Affine ℝ) (rect : FieldRect ℝ) (fieldSize : ℝ), fieldSize ≠ 0 →
      let base := rect.baseTransform parent fieldSize
      let place : Point ℝ → Point ℝ := fun p =>
        ⟨rect.center.x - p.y * rect.width / fieldSize, rect.center.y - p.x * rect.height / fieldSize⟩
      (∀ p, base.onPoint p = parent.onPoint (place p)) ∧
      place '' FieldRect.square fieldSize = rect.points ∧
      place '' FieldRect.squareCorners fieldSize = rect.corners ∧
      (rect.width ≠ 0 → rect.height ≠ 0 →
        Set.BijOn place (FieldRect.square fieldSize) rect.points ∧
        (Function.Injective base.onPoint ↔ Function.Injective parent.onPoint)) ∧
      ∀ origin angle p,
        (base.layered origin angle).onPoint p = base.onPoint (.layered origin angle p)) ∧
    ∀ (r : Renderer ℝ ι) (size : SurfaceSize ℝ), 0 < size.ratio → r.options.fieldSize ≠ 0 →
      let rect := FieldRect.onSurface size r.options.padding
      let fieldSize := r.options.fieldSize
      (r.canvas.reportsTransform = true → ∀ pre center radius outlined post,
        r.overlay.executed = pre ++ .circle center radius outlined :: post →
        Op.inForce? pre = none →
        let before := r.canvasBehind size pre
        let q := Point.layered (Op.originBehind pre) (Op.rotationBehind pre) center
        ∃ rest, (r.render size).1.canvas.commands.toList = before.commands.toList ++
          before.paint.finished outlined [.arc
            ⟨size.ratio * (rect.center.x - q.y * rect.width / fieldSize),
              size.ratio * (rect.center.y - q.x * rect.width / fieldSize)⟩
            (radius * (size.ratio * (|rect.width| / |fieldSize|))) 0 (2 * Real.pi)] :: rest) ∧
      (r.canvas.reportsTransform = false →
        (r.render size).1.canvas.commands.toList = [.clear size.width size.height]) := by
  refine ⟨?_, ?_⟩
  · intro parent rect fieldSize hsize base place
    refine ⟨?_, ?_, ?_, ?_, ?_⟩
    · intro p
      exact FieldRect.onPoint_baseTransform parent rect fieldSize p
    · exact FieldRect.image_square hsize rect
    · exact FieldRect.image_squareCorners hsize rect
    · intro hwidth hheight
      exact ⟨FieldRect.bijOn_place hsize hwidth hheight,
        FieldRect.injective_baseTransform_iff hsize hwidth hheight parent⟩
    · intro origin angle p
      exact base.onPoint_layered origin angle p
  · intro r size hratio _ rect fieldSize
    refine ⟨?_, ?_⟩
    · intro htells pre center radius outlined post hsplit hfree before q
      have hknown := Overlay.fails_of_split hsplit
      have hfactor := hasFactor_canvasBehind htells hratio hknown hfree
      have hcenter := onPoint_canvasBehind htells size hknown hfree center
      rw [onPoint_baseFor] at hcenter
      obtain ⟨rest, hcommands⟩ := commands_render_split htells size hsplit
      refine ⟨rest, ?_⟩
      rw [hcommands, Paint.draw?_of_path? rfl, hcenter, hfactor.area, Scalar.zero_real,
        Scalar.fullTurn_real, List.append_assoc]
      rfl
    · intro hmute
      exact commands_render_of_not_tells hmute size

/-- A circle behind an origin that is moved, and axes that are turned twice, by a right angle in the end. -/
theorem field_on_surface_of_turned :
    let size : SurfaceSize ℝ := ⟨800, 600, 2⟩
    let options : Options ℝ := ⟨15, 1, 144, ⟨250, by decide⟩, 3, .black, "field.png"⟩
    let pre : List (Op ℝ) :=
      [.rotation 1, .origin ⟨5, 7⟩, .text "A" ⟨1, 2⟩ none 1 false, .rotation (Real.pi / 2), .strokeWidth 2]
    let r : Renderer ℝ String := (new (.empty true) options).setOverlay ⟨pre ++ [.circle ⟨1, 2⟩ 4 true]⟩
    let before := r.canvasBehind size pre
    0 < size.ratio ∧ r.options.fieldSize ≠ 0 ∧ (∀ op ∈ r.overlay.ops, op.factors? = none) ∧
      ∃ rest, (r.render size).1.canvas.commands.toList = before.commands.toList ++
        before.paint.finished true [.arc ⟨370, 1155 / 4⟩ 15 0 (2 * Real.pi)] :: rest := by
  intro size options pre r before
  have hratio : 0 < size.ratio := by norm_num [size]
  have hfield : r.options.fieldSize ≠ 0 := by
    change (144 : ℝ) ≠ 0
    norm_num
  have hunscaled : ∀ op ∈ r.overlay.ops, op.factors? = none := by
    simp [r, pre, setOverlay, Op.factors?]
  have hfree : Op.inForce? pre = none :=
    Op.inForce?_of_no_scale fun op hop => hunscaled op (List.mem_append_left _ hop)
  have hsquare : FieldRect.onSurface size r.options.padding = ⟨65, 15, 270, 270⟩ := by
    change FieldRect.onSurface size 15 = _
    simp only [FieldRect.onSurface, FieldRect.centeredSquare, SurfaceSize.logical, size,
      Scalar.min_real, Scalar.ofNat_real]
    norm_num
  -- counted from the field's own origin, the centre is three inches up and eight to the left
  have hpoint : Point.layered (Op.originBehind pre) (Op.rotationBehind pre) ⟨1, 2⟩ = ⟨3, 8⟩ := by
    change Point.layered ⟨5, 7⟩ (Real.pi / 2) ⟨1, 2⟩ = _
    rw [Point.layered, Real.cos_pi_div_two, Real.sin_pi_div_two]
    norm_num
  obtain ⟨-, hpasses⟩ := field_on_surface (ι := String)
  obtain ⟨hcircles, -⟩ := hpasses r size hratio hfield
  obtain ⟨rest, hcommands⟩ := hcircles rfl pre ⟨1, 2⟩ 4 true [] rfl hfree
  refine ⟨hratio, hfield, hunscaled, rest, hcommands.trans ?_⟩
  have hx : 2 * ((⟨65, 15, 270, 270⟩ : FieldRect ℝ).center.x - 8 * 270 / 144) = 370 := by
    norm_num [FieldRect.center]
  have hy : 2 * ((⟨65, 15, 270, 270⟩ : FieldRect ℝ).center.y - 3 * 270 / 144) = 1155 / 4 := by
    norm_num [FieldRect.center]
  have hradius : 4 * (2 * (|270| / |144|)) = (15 : ℝ) := by norm_num
  rw [hpoint, hsquare, show r.options.fieldSize = 144 from rfl, hx, hy, hradius]

end FieldDiagram.Renderer
