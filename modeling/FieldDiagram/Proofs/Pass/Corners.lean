import FieldDiagram.Proofs.Geometry.AxisParallel
import FieldDiagram.Proofs.Pass.Extent
/-!
# Corners on the grid of the device

The base transform of a pass turns the axes by a quarter. A scale on top of it gives each axis factors
of its own, and the corners of polygons and of chains of lines are snapped with the factors of the wrong
axis. Nothing comes of it as long as both factors have the same size; otherwise there are corners that
are moved too far or do not lie on the grid.

Main statement: `Pass.corners_on_pixels`, with exact numbers.
-/

namespace FieldDiagram

variable {ι : Type}

/-! ## The map of a scaled field

The base transform exchanges the axes, and a scale that comes before it stretches each of them by its own
factor. This is the smallest case in which snapping takes the wrong one. -/

namespace FieldRect

/-- Device pixels to an inch of the field. -/
noncomputable def pixelsPerInch (size : SurfaceSize ℝ) (padding fieldSize : ℝ) : ℝ :=
  size.ratio * ((onSurface size padding).width / fieldSize)

/-- The base transform of a pass on a surface of this size. -/
noncomputable def surfaceTransform (size : SurfaceSize ℝ) (padding fieldSize : ℝ) : Affine ℝ :=
  (onSurface size padding).baseTransform (.identity * .scaling size.ratio size.ratio) fieldSize

/-- It stretches both axes alike, flips the second one and makes a quarter turn, and the middle of the
field goes to the middle of the surface. -/
theorem surfaceTransform_eq {size : SurfaceSize ℝ} (hratio : size.ratio ≠ 0) (padding fieldSize : ℝ) :
    let k := pixelsPerInch size padding fieldSize
    surfaceTransform size padding fieldSize = .displacement ⟨size.width / 2, size.height / 2⟩ *
      (.identity * .scaling k (-k) * .rotation Scalar.quarterTurn) := by
  intro k
  have hcenter : ∀ extent side : ℝ,
      size.ratio * ((extent / size.ratio - side) / 2 + side / 2) = extent / 2 := by
    intro extent side
    field_simp
    ring
  have hflipped : ∀ side : ℝ, -side / fieldSize = -(side / fieldSize) := fun side => neg_div _ _
  rw [Affine.displacement_mul]
  ext <;> simp [-neg_sub, Affine.mul_eq_comp, Affine.comp, Affine.onVector, Affine.identity,
    Affine.scaling, Affine.rotation, Affine.displacement, surfaceTransform, baseTransform, center, k,
    pixelsPerInch, onSurface, centeredSquare, SurfaceSize.logical, hcenter, hflipped]

/-- Stretched further along its axes, the turned field has a factor of its own on each. -/
theorem stretched_parts (k x y : ℝ) :
    (.identity * .scaling k (-k) * .rotation Scalar.quarterTurn * .scaling x y : Affine ℝ) =
      ⟨0, -(k * x), -(k * y), 0, 0, 0⟩ := by
  ext <;> simp [Affine.mul_eq_comp, Affine.comp, Affine.onVector, Affine.identity, Affine.scaling,
    Affine.rotation]

/-- On a surface whose middle lies between whole pixels, the snapped points of a field that is stretched
further lie on the grid exactly if both factors have the same size. -/
theorem snapsToPixels_stretched_iff {size : SurfaceSize ℝ} {padding fieldSize x y : ℝ} {i j : ℤ}
    (hwidth : size.width = 2 * i) (hheight : size.height = 2 * j)
    (hside : pixelsPerInch size padding fieldSize ≠ 0) (hx : x ≠ 0) (hy : y ≠ 0) :
    (surfaceTransform size padding fieldSize * .scaling x y).SnapsToPixels ↔ |x| = |y| := by
  have hratio : size.ratio ≠ 0 := left_ne_zero_of_mul hside
  have hmiddle : (⟨size.width / 2, size.height / 2⟩ : Point ℝ) = ⟨i, j⟩ := by
    rw [hwidth, hheight, mul_div_cancel_left₀ _ two_ne_zero, mul_div_cancel_left₀ _ two_ne_zero]
  have hparallel := (Affine.AxisParallel.identity.stretch hside (neg_ne_zero.2 hside)).turn.stretch hx hy
  rw [surfaceTransform_eq hratio, Affine.mul_assoc, hmiddle, Affine.snapsToPixels_iff hparallel,
    stretched_parts]
  -- the axes have changed places, so all depends on their factors
  have hswapped : ¬ Affine.KeepsAxes ⟨0, -(pixelsPerInch size padding fieldSize * x),
      -(pixelsPerInch size padding fieldSize * y), 0, 0, 0⟩ := fun hkeeps => hkeeps.2.2.1 rfl
  simp only [hswapped, false_or, Affine.scalingFactors, Scalar.hypot_real, ne_eq, OfNat.ofNat_ne_zero,
    not_false_eq_true, zero_pow, zero_add, add_zero, Real.sqrt_sq_eq_abs, abs_neg, abs_mul]
  rw [mul_right_inj' (abs_ne_zero.2 hside), eq_comm]

end FieldRect

namespace Pass

/-- The map after operations of which the last that sets axes is one that scales. -/
theorem transform_of_scale (setting : PassSetting ℝ) (p : Pass ℝ ι) {ops : List (Op ℝ)} {x y : ℝ}
    (hops : ∀ op ∈ ops, op.fails p.canvas.reportsTransform = false)
    (hscale : (ops.filter Op.setsAxes).getLast? = some (.scale x y)) :
    (p.run setting ops).1.canvas.paint.transform =
      setting.base.layered (p.state.after ops).origin (p.state.after ops).rotation * .scaling x y := by
  have hpaint := (reaches_run setting ops p).1.paint
  rw [Op.executed_of_none_fails hops] at hpaint
  rw [hpaint, Paint.after, Op.latest?_stretch?, hscale]
  rfl

/-- Without an origin and a rotation it is the base with the factors on top. -/
theorem transform_of_scale_alone (setting : PassSetting ℝ) (p : Pass ℝ ι) {grid : GridTicks}
    (hstart : p.state = .seeded grid) {ops : List (Op ℝ)} {x y : ℝ}
    (hops : ∀ op ∈ ops, op.fails p.canvas.reportsTransform = false)
    (hplain : ∀ op ∈ ops, op.newOrigin? = none ∧ op.newRotation? = none)
    (hscale : (ops.filter Op.setsAxes).getLast? = some (.scale x y)) :
    (p.run setting ops).1.canvas.paint.transform = setting.base * .scaling x y := by
  have horigin : (p.state.after ops).origin = .zero := by
    rw [OverlayState.after, latest?_eq_none_iff.2 fun op hop => (hplain op hop).1, hstart]
    rfl
  have hrotation : (p.state.after ops).rotation = Scalar.zero := by
    rw [OverlayState.after, latest?_eq_none_iff.2 fun op hop => (hplain op hop).2, hstart]
    rfl
  rw [transform_of_scale setting p hops hscale, horigin, hrotation, Affine.layered,
    Affine.displacement_zero, Affine.rotation_zero, Affine.mul_identity, Affine.mul_identity]

/-- **Corners on the grid.** Take a map that stretches along the axes and turns by quarters, followed by
a displacement of whole pixels. The snapped points under it lie on half pixels and at most half a pixel
from where they were, exactly if the map leaves the axes in their places or has as many pixels to a unit
along both.

So it is with the corners of polygons and of chains of lines behind a scale on the base transform, which
makes a quarter turn, where the middle of the surface lies between whole pixels: they are the snapped
points, and these lie on the grid exactly if both factors of the scale have the same size. -/
theorem corners_on_pixels :
    (∀ m : Affine ℝ, m.AxisParallel → ∀ i j : ℤ,
      (.displacement ⟨i, j⟩ * m : Affine ℝ).SnapsToPixels ↔
        m.KeepsAxes ∨ m.scalingFactors.x = m.scalingFactors.y) ∧
    ∀ (size : SurfaceSize ℝ) (padding fieldSize : ℝ) (i j : ℤ), size.width = 2 * i →
      size.height = 2 * j → FieldRect.pixelsPerInch size padding fieldSize ≠ 0 →
      ∀ (steps : Nat) (p : Pass ℝ ι) (grid : GridTicks) (pre : List (Op ℝ)) (x y : ℝ),
        p.canvas.reportsTransform = true → p.state = .seeded grid →
        (∀ op ∈ pre, op.isUnknown = false) →
        (∀ op ∈ pre, op.newOrigin? = none ∧ op.newRotation? = none) →
        (pre.filter Op.setsAxes).getLast? = some (.scale x y) → x ≠ 0 → y ≠ 0 →
        let setting : PassSetting ℝ := ⟨FieldRect.surfaceTransform size padding fieldSize, steps⟩
        let before := (p.run setting pre).1.canvas
        let map := before.paint.transform
        let drawn (op : Op ℝ) (post : List (Op ℝ)) :=
          (p.run setting (pre ++ op :: post)).1.canvas.commands.toList
        (map.SnapsToPixels ↔ |x| = |y|) ∧
          ∀ (xs ys : List ℝ) (post : List (Op ℝ)),
            let corners := map.snappedChain (Point.pair xs ys)
            (∃ rest, drawn (.polyline xs ys) post = before.commands.toList ++
              [before.paint.finished true corners] ++ rest) ∧
            ∀ outlined, ∃ rest, drawn (.polygon xs ys outlined) post = before.commands.toList ++
              [before.paint.finished outlined
                (corners ++ if (Point.pair xs ys).isEmpty then [] else [.close])] ++ rest := by
  refine ⟨fun m hm => Affine.snapsToPixels_iff hm, ?_⟩
  intro size padding fieldSize i j hwidth hheight hside steps p grid pre x y htells hstart hknown hplain
    hscale hx hy setting before map drawn
  have hfails : ∀ op : Op ℝ, op.fails p.canvas.reportsTransform = op.isUnknown := by
    intro op
    rw [htells, Op.fails_true]
  have hpre : ∀ op ∈ pre, op.fails p.canvas.reportsTransform = false := by
    intro op hop
    rw [hfails, hknown op hop]
  constructor
  · -- nothing moves or turns the field, so the factors come right after the quarter turn
    have hmap : map = setting.base * .scaling x y :=
      transform_of_scale_alone setting p hstart hpre hplain hscale
    rw [hmap]
    exact FieldRect.snapsToPixels_stretched_iff hwidth hheight hside hx hy
  · intro xs ys post corners
    constructor
    · exact commands_run_append setting p hpre (.polyline xs ys) (hfails _) post
    · intro outlined
      exact commands_run_append setting p hpre (.polygon xs ys outlined) (hfails _) post

/-- A scale that only turns an axis round, on a surface of two pixels to a unit and behind an opacity,
leaves the corners on the grid, and one with different factors does not. -/
theorem corners_on_pixels_unless_stretched :
    let size : SurfaceSize ℝ := ⟨200, 100, 2⟩
    let p : Pass ℝ String := ⟨.empty true, .empty, .seeded .standard, []⟩
    let setting : PassSetting ℝ := ⟨FieldRect.surfaceTransform size 0 50, 4⟩
    let map (y : ℝ) := (p.run setting [.alpha (1 / 2), .scale 3 y]).1.canvas.paint.transform
    FieldRect.pixelsPerInch size 0 50 ≠ 0 ∧ (map (-3)).SnapsToPixels ∧ ¬ (map 1).SnapsToPixels := by
  intro size p setting map
  have hside : FieldRect.pixelsPerInch size 0 50 = 2 := by
    have hmin : Scalar.min (200 / 2 : ℝ) (100 / 2) = 50 := by
      change min (200 / 2 : ℝ) (100 / 2) = 50
      norm_num
    simp only [FieldRect.pixelsPerInch, size, FieldRect.onSurface, FieldRect.centeredSquare,
      SurfaceSize.logical, hmin, Scalar.ofNat_real]
    norm_num
  have hmap : ∀ y : ℝ, y ≠ 0 → ((map y).SnapsToPixels ↔ |3| = |y|) := by
    intro y hy
    have hwidth : size.width = 2 * (100 : ℤ) := by norm_num [size]
    have hheight : size.height = 2 * (50 : ℤ) := by norm_num [size]
    exact (corners_on_pixels.2 size 0 50 100 50 hwidth hheight (by rw [hside]; norm_num) 4 p .standard
      [.alpha (1 / 2), .scale 3 y] 3 y rfl rfl (by simp [Op.isUnknown])
      (by simp [Op.newOrigin?, Op.newRotation?]) rfl (by norm_num) hy).1
  refine ⟨by rw [hside]; norm_num, (hmap (-3) (by norm_num)).2 (by norm_num), ?_⟩
  rw [hmap 1 one_ne_zero]
  norm_num

/-- Not every map along the axes snaps to the grid: stretched by four where its first axis has come to
lie, and not where it came from, it moves a point by more than one and a half pixels. -/
theorem corner_off_pixel :
    ¬ ∀ m : Affine ℝ, m.AxisParallel → ∀ (i j : ℤ) (q : Point ℝ),
      let n := Affine.displacement ⟨(i : ℝ), j⟩ * m
      LandsOnPixel (n.snapped q).x (n.onPoint q).x ∧ LandsOnPixel (n.snapped q).y (n.onPoint q).y := by
  intro h
  have hparallel := (Affine.AxisParallel.identity.stretch one_ne_zero (four_ne_zero (α := ℝ))).turn
  obtain ⟨-, -, hnear⟩ := h _ hparallel 0 0 ⟨1 / 10, 0⟩
  have hparts : (.identity * .scaling 1 4 * .rotation Scalar.quarterTurn : Affine ℝ) =
      ⟨0, 4, -1, 0, 0, 0⟩ := by
    ext <;> simp [Affine.mul_eq_comp, Affine.comp, Affine.onVector, Affine.identity, Affine.scaling,
      Affine.rotation]
  have hmiddle : alignCoord (1 / 10 : ℝ) 1 = 1 / 2 := by
    rw [alignCoord_eq, snapPixel_of_mem (n := 0) (by norm_num) (by norm_num)]
    norm_num
  rw [hparts, Affine.displacement_mul] at hnear
  simp only [Affine.snapped, Affine.onPoint, Affine.onVector, Affine.align, Affine.scalingFactors,
    Scalar.hypot_real] at hnear
  norm_num [hmiddle, abs_le, Scalar.half_real] at hnear

end Pass

end FieldDiagram
