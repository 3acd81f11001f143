import FieldDiagram.Geometry.Affine
/-!
# Spline segments

A segment is a polynomial of degree five on each axis, for parameters from `0` to `1`. It is drawn as
a chain of evenly spaced samples.
-/

namespace FieldDiagram

/-- The coefficients of one axis, highest power first. -/
structure SplineAxis (α : Type) where
  a : α
  b : α
  c : α
  d : α
  e : α
  f : α
  deriving DecidableEq, Repr

/-- A segment in the plane. -/
structure SplineCurve (α : Type) where
  x : SplineAxis α
  y : SplineAxis α
  deriving DecidableEq, Repr

variable {α : Type} [Scalar α]

open Scalar (ofNat)

/-- The value at a parameter. -/
def SplineAxis.eval (s : SplineAxis α) (t : α) : α :=
  let t2 := t * t
  (s.a * t + s.b) * (t2 * t2) + s.c * (t2 * t) + s.d * t2 + s.e * t + s.f

namespace SplineCurve

/-- The point at a parameter. -/
def eval (s : SplineCurve α) (t : α) : Point α := ⟨s.x.eval t, s.y.eval t⟩

/-- The points at `0 / steps`, `1 / steps`, …, `steps / steps`. -/
def sample (s : SplineCurve α) (steps : Nat) : List (Point α) :=
  (List.range (steps + 1)).map fun i => s.eval (ofNat i / ofNat steps)

/-- There is one sample more than there are steps. -/
theorem length_sample (s : SplineCurve α) (steps : Nat) : (s.sample steps).length = steps + 1 := by
  simp [sample]

end SplineCurve

end FieldDiagram
