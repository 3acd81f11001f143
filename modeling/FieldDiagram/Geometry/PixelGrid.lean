import FieldDiagram.Geometry.Affine
/-!
# Snapping to the pixel grid

A thin line drawn between two rows of pixels comes out twice as wide and blurred. Moving it to the
middle of the nearest row keeps it crisp.
-/

namespace FieldDiagram

variable {α : Type} [Scalar α]

open Scalar (half sign round hypot)

/-- Snaps a coordinate to the nearest half pixel, with `scale` pixels to a unit. A coordinate on the
boundary of a pixel stays where it is. -/
def alignCoord (x scale : α) : α :=
  let device := x * scale
  let rounded := round device
  (rounded + half * sign (device - rounded)) / scale

/-- Pixels per user unit along each device axis: the length of the row of a map that gives that device
coordinate. -/
def Affine.scalingFactors (m : Affine α) : Point α := ⟨hypot m.a m.c, hypot m.b m.d⟩

/-- Snaps a point, as seen by a map from user space to pixels. -/
def Affine.align (m : Affine α) (p : Point α) : Point α :=
  let scale := m.scalingFactors
  ⟨alignCoord p.x scale.x, alignCoord p.y scale.y⟩

end FieldDiagram
