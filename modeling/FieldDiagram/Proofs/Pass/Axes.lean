import FieldDiagram.Proofs.Geometry.Factor
import FieldDiagram.Proofs.Pass.Extent
/-!
# The axes that an operation draws in

Three kinds of operations set axes. Origin and rotation stay until they are set anew, the factors of a
scale only until the next operation of any of the three kinds: `Op.inForce?` says which factors are in
force behind some operations. With exact numbers a fresh origin and a fresh rotation are no axes of their
own, so the map has one form, whether axes have been set or not: `Paint.transform_after`.
-/

namespace FieldDiagram

variable {α : Type}

namespace Op

/-- The factors that are in force behind operations: those of the last operation that sets axes, if it
is one that scales. -/
def inForce? (ops : List (Op α)) : Option (Point α) := (latest? stretch? ops).join

theorem inForce?_nil : inForce? ([] : List (Op α)) = none := rfl

/-- A scale puts its own factors in force, an origin or a rotation takes those away that are, and every
other operation leaves them. -/
theorem inForce?_concat (ops : List (Op α)) (op : Op α) :
    inForce? (ops ++ [op]) = op.stretch?.getD (inForce? ops) := by
  unfold inForce?
  rw [latest?_concat]
  cases op.stretch? with
  | none => rw [Option.none_or, Option.getD_none]
  | some factors => rw [Option.some_or, Option.join_some, Option.getD_some]

theorem inForce?_of_no_scale {ops : List (Op α)} (h : ∀ op ∈ ops, op.factors? = none) :
    inForce? ops = none := by
  induction ops using List.reverseRecOn with
  | nil => exact inForce?_nil
  | append_singleton ops op ih =>
    have hrest := ih fun op' hop' => h op' (List.mem_append_left _ hop')
    have hlast := h op (List.mem_append_right _ (List.mem_singleton_self op))
    rw [inForce?_concat, hrest]
    cases op with
    | scale x y => exact absurd hlast (Option.some_ne_none _)
    | _ => rfl

end Op

/-! ## The map in exact numbers

An origin of zero and a rotation of zero change nothing in exact numbers, which they might in machine
numbers. So what follows is about real numbers. -/

namespace Affine

theorem determinant_layered (base : Affine ℝ) (origin : Point ℝ) (angle : ℝ) :
    (base.layered origin angle).determinant = base.determinant := by
  rw [layered, determinant_mul, determinant_mul, determinant_displacement, determinant_rotation,
    mul_one, mul_one]

/-- The factors that are put on top of a map change areas by their product. -/
theorem determinant_stretched (m : Affine ℝ) (factors : Point ℝ) :
    (m.stretched (some factors)).determinant = m.determinant * (factors.x * factors.y) := by
  rw [stretched, determinant_mul, determinant_scaling]

theorem layered_zero (base : Affine ℝ) : base.layered .zero Scalar.zero = base := by
  rw [layered, displacement_zero, rotation_zero, mul_identity, mul_identity]

end Affine

/-- The last origin of operations, or that of the field. -/
def Op.originBehind (ops : List (Op ℝ)) : Point ℝ := (latest? newOrigin? ops).getD ⟨0, 0⟩

/-- The last rotation of operations, or none. -/
def Op.rotationBehind (ops : List (Op ℝ)) : ℝ := (latest? newRotation? ops).getD 0

/-- **The map behind operations**, for paint that starts with the base transform: origin and rotation on
top of it, and on top of these the factors that are in force. -/
theorem Paint.transform_after {p : Paint ℝ} {base : Affine ℝ} (hp : p.transform = base)
    (grid : GridTicks) (ops : List (Op ℝ)) :
    (p.after base (.seeded grid) ops).transform =
      (base.layered (Op.originBehind ops) (Op.rotationBehind ops)).stretched (Op.inForce? ops) := by
  have hzero : (Point.zero : Point ℝ) = ⟨0, 0⟩ := by
    rw [Point.zero, Scalar.zero_real]
  have horigin : ((OverlayState.seeded grid).after ops).origin = Op.originBehind ops := by
    rw [Op.originBehind, ← hzero]
    rfl
  have hrotation : ((OverlayState.seeded grid).after ops).rotation = Op.rotationBehind ops := by
    rw [Op.rotationBehind, ← Scalar.zero_real]
    rfl
  unfold after Op.inForce?
  rcases hlatest : latest? Op.stretch? ops with _ | factors
  · -- nothing has set axes, so origin and rotation are the fresh ones, which change no point
    obtain ⟨hfresh, hstraight⟩ := (OverlayState.seeded grid).after_of_no_stretch hlatest
    rw [horigin] at hfresh
    rw [hrotation] at hstraight
    rw [hfresh, hstraight]
    exact hp.trans (Affine.layered_zero base).symm
  · rw [← horigin, ← hrotation]
    rfl

end FieldDiagram
