import Mathlib
import FieldDiagram.Geometry.Affine
import FieldDiagram.Proofs.Scalar.Exact
/-!
# Exact maps of the plane

With exact numbers a product of maps does one after the other, and a map whose determinant is not zero
takes no two points to the same place.
-/

namespace FieldDiagram.Affine

theorem mul_eq_comp (m n : Affine ℝ) : m * n = m.comp n := rfl

/-- A product does its second factor first. -/
theorem onPoint_mul (m n : Affine ℝ) (p : Point ℝ) : (m * n).onPoint p = m.onPoint (n.onPoint p) := by
  change (m.comp n).onPoint p = _
  ext
  · simp only [onPoint, onVector, comp]
    ring
  · simp only [onPoint, onVector, comp]
    ring

theorem onVector_mul (m n : Affine ℝ) (v : Point ℝ) : (m * n).onVector v = m.onVector (n.onVector v) := by
  change (m.comp n).onVector v = _
  ext
  · simp only [onVector, comp]
    ring
  · simp only [onVector, comp]
    ring

theorem determinant_mul (m n : Affine ℝ) :
    (m * n).determinant = m.determinant * n.determinant := by
  change (m.comp n).determinant = _
  simp only [determinant, comp, onVector]
  ring

theorem determinant_identity : (identity : Affine ℝ).determinant = 1 := by
  simp [determinant, identity]

theorem determinant_displacement (p : Point ℝ) : (displacement p).determinant = 1 := by
  simp [determinant, displacement]

theorem determinant_rotation (angle : ℝ) : (rotation angle).determinant = 1 := by
  simp only [determinant, rotation, Scalar.cos_real, Scalar.sin_real]
  linear_combination Real.sin_sq_add_cos_sq angle

/-- A map that does not flatten the plane keeps points apart. -/
theorem onPoint_injective {m : Affine ℝ} (h : m.determinant ≠ 0) : Function.Injective m.onPoint := by
  intro p q heq
  have hx := congrArg Point.x heq
  have hy := congrArg Point.y heq
  simp only [onPoint, onVector] at hx hy
  rw [determinant] at h
  ext
  · refine mul_left_cancel₀ h ?_
    linear_combination m.d * hx - m.c * hy
  · refine mul_left_cancel₀ h ?_
    linear_combination m.a * hy - m.b * hx

theorem onPoint_scaling (x y : ℝ) (p : Point ℝ) :
    (scaling x y).onPoint p = ⟨x * p.x, y * p.y⟩ := by
  ext <;> simp [onPoint, onVector, scaling]

theorem onPoint_rotation (angle : ℝ) (p : Point ℝ) :
    (rotation angle).onPoint p =
      ⟨p.x * Real.cos angle - p.y * Real.sin angle, p.x * Real.sin angle + p.y * Real.cos angle⟩ := by
  ext
  · simp only [onPoint, onVector, rotation, Scalar.cos_real, Scalar.sin_real, Scalar.zero_real]
    ring
  · simp only [onPoint, onVector, rotation, Scalar.cos_real, Scalar.sin_real, Scalar.zero_real]
    ring

theorem mul_assoc (m n k : Affine ℝ) : m * n * k = m * (n * k) := by
  simp only [mul_eq_comp, comp, onVector]
  ext <;> ring

theorem mul_identity (m : Affine ℝ) : m * identity = m := by
  ext <;> simp [mul_eq_comp, comp, onVector, identity]

theorem identity_mul (m : Affine ℝ) : identity * m = m := by
  ext <;> simp [mul_eq_comp, comp, onVector, identity]

theorem displacement_zero : displacement (.zero : Point ℝ) = identity := rfl

theorem rotation_zero : rotation (Scalar.zero : ℝ) = identity := by
  ext <;> simp [rotation, identity]

theorem onPoint_identity (p : Point ℝ) : identity.onPoint p = p := by
  ext <;> simp [onPoint, onVector, identity]

end FieldDiagram.Affine
