import Mathlib
import FieldDiagram.Geometry.FieldRect
import FieldDiagram.Geometry.PixelGrid
import FieldDiagram.Proofs.Geometry.Exact
/-!
# Pixels to a unit

Two numbers say how far a map stretches the plane. Snapping takes the lengths of the rows, one for each
axis of the device; radii and widths take the root of the determinant. Turning and moving the plane first
changes none of them, and stretching it first by the same length along both axes multiplies them all. So
they agree for every map that is made of such steps, and in particular for the base transform of a
square.
-/

namespace FieldDiagram.Affine

/-! ## Rows

Snapping counts pixels along the axes of the device, so it looks at rows; and rows keep their lengths when
the plane is turned before the map. -/

theorem scalingFactors_mul_displacement (m : Affine ℝ) (p : Point ℝ) :
    (m * .displacement p).scalingFactors = m.scalingFactors := by
  simp [scalingFactors, mul_eq_comp, comp, onVector, displacement]

theorem scalingFactors_mul_rotation (m : Affine ℝ) (angle : ℝ) :
    (m * .rotation angle).scalingFactors = m.scalingFactors := by
  -- a row is turned as a vector is, and keeps its length
  have hrow : ∀ a c : ℝ, (a * Real.cos angle + c * Real.sin angle) ^ 2 +
      (a * -Real.sin angle + c * Real.cos angle) ^ 2 = a ^ 2 + c ^ 2 := by
    intro a c
    linear_combination (a ^ 2 + c ^ 2) * Real.sin_sq_add_cos_sq angle
  simp only [scalingFactors, mul_eq_comp, comp, onVector, rotation, Scalar.hypot_real,
    Scalar.cos_real, Scalar.sin_real, hrow]

theorem scalingFactors_mul_scaling (m : Affine ℝ) {x y : ℝ} (h : |x| = |y|) :
    (m * .scaling x y).scalingFactors = ⟨|x| * m.scalingFactors.x, |x| * m.scalingFactors.y⟩ := by
  have hsquares : y ^ 2 = x ^ 2 := by
    rw [← sq_abs y, ← h, sq_abs]
  have hrow : ∀ a c : ℝ, Real.sqrt ((a * x) ^ 2 + (c * y) ^ 2) = |x| * Real.sqrt (a ^ 2 + c ^ 2) := by
    intro a c
    rw [mul_pow, mul_pow, hsquares, ← add_mul, mul_comm, Real.sqrt_mul (sq_nonneg x),
      Real.sqrt_sq_eq_abs]
  simp only [scalingFactors, mul_eq_comp, comp, onVector, scaling, Scalar.hypot_real,
    Scalar.zero_real, mul_zero, add_zero, zero_add, hrow]

/-! ## Areas

Areas know nothing of axes: they are multiplied by the determinant. -/

theorem uniformScale_mul (m n : Affine ℝ) :
    (m * n).uniformScale = m.uniformScale * n.uniformScale := by
  unfold uniformScale
  rw [determinant_mul, Scalar.abs_real, Scalar.abs_real, Scalar.abs_real, abs_mul, Scalar.sqrt_real,
    Real.sqrt_mul (abs_nonneg _)]
  rfl

theorem uniformScale_mul_of_determinant {n : Affine ℝ} (h : n.determinant = 1) (m : Affine ℝ) :
    (m * n).uniformScale = m.uniformScale := by
  have hone : n.uniformScale = 1 := by
    rw [uniformScale, h, Scalar.abs_real, abs_one, Scalar.sqrt_real, Real.sqrt_one]
  rw [uniformScale_mul, hone, mul_one]

theorem determinant_scaling (x y : ℝ) : (scaling x y).determinant = x * y := by
  simp [determinant, scaling]

theorem uniformScale_scaling {x y : ℝ} (h : |x| = |y|) : (scaling x y).uniformScale = |x| := by
  rw [uniformScale, determinant_scaling, Scalar.abs_real, abs_mul, ← h, Scalar.sqrt_real,
    Real.sqrt_mul_self (abs_nonneg x)]

/-- The base transform of a field flips it over. -/
theorem determinant_baseTransform (parent : Affine ℝ) (rect : FieldRect ℝ) (fieldSize : ℝ) :
    (rect.baseTransform parent fieldSize).determinant =
      -(parent.determinant * (rect.width / fieldSize * (rect.height / fieldSize))) := by
  rw [FieldRect.baseTransform, determinant_mul, determinant_mul, determinant_mul, determinant_rotation,
    determinant_displacement, determinant_scaling]
  ring

/-! ## Both together

What both ways of counting agree on. The steps of which a map is made keep it, each for its own reason. -/

/-- Whether a map has `k` pixels to a unit, by each of its rows and by its determinant. -/
structure HasFactor (m : Affine ℝ) (k : ℝ) : Prop where
  rows : m.scalingFactors = ⟨k, k⟩
  area : m.uniformScale = k

theorem hasFactor_identity : identity.HasFactor 1 where
  rows := by simp [scalingFactors, identity]
  area := by
    rw [uniformScale, determinant_identity, Scalar.abs_real, abs_one, Scalar.sqrt_real, Real.sqrt_one]

namespace HasFactor

variable {m : Affine ℝ} {k : ℝ}

theorem moved (h : m.HasFactor k) (p : Point ℝ) : (m * .displacement p).HasFactor k where
  rows := by rw [scalingFactors_mul_displacement, h.rows]
  area := by rw [uniformScale_mul_of_determinant (determinant_displacement p), h.area]

theorem turned (h : m.HasFactor k) (angle : ℝ) : (m * .rotation angle).HasFactor k where
  rows := by rw [scalingFactors_mul_rotation, h.rows]
  area := by rw [uniformScale_mul_of_determinant (determinant_rotation angle), h.area]

theorem stretched (h : m.HasFactor k) {x y : ℝ} (hxy : |x| = |y|) :
    (m * .scaling x y).HasFactor (k * |x|) where
  rows := by rw [scalingFactors_mul_scaling m hxy, h.rows, mul_comm]
  area := by rw [uniformScale_mul, uniformScale_scaling hxy, h.area]

/-- Layering an origin and a rotation on top changes nothing. -/
theorem layered (h : m.HasFactor k) (origin : Point ℝ) (angle : ℝ) :
    (m.layered origin angle).HasFactor k :=
  (h.moved origin).turned angle

/-- The base transform of a square stretches both axes alike, though it flips one of them. -/
theorem base (h : m.HasFactor k) {rect : FieldRect ℝ} (hsquare : rect.height = rect.width)
    (fieldSize : ℝ) :
    (rect.baseTransform m fieldSize).HasFactor (k * (|rect.width| / |fieldSize|)) := by
  have hflipped : |rect.width / fieldSize| = |-rect.height / fieldSize| := by
    rw [hsquare, abs_div, abs_div, abs_neg]
  rw [← abs_div]
  exact ((h.moved rect.center).stretched hflipped).turned Scalar.quarterTurn

end HasFactor

end FieldDiagram.Affine
