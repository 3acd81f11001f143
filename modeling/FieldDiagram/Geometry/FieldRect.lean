import FieldDiagram.Geometry.Affine
/-!
# Where the field lies on its surface

The field is a square in the middle of the surface. Inches of the field, counted from its centre,
become logical pixels of the surface by the base transform; an origin and a rotation may be layered
on top of it.
-/

namespace FieldDiagram

/-- The size of a drawing target in device pixels, and how many of them make a logical pixel. -/
structure SurfaceSize (α : Type) where
  width : α
  height : α
  ratio : α
  deriving DecidableEq, Repr

/-- A rectangle, by its corner and its extent. -/
structure FieldRect (α : Type) where
  x : α
  y : α
  width : α
  height : α
  deriving DecidableEq, Repr

variable {α : Type} [Scalar α]

open Scalar (ofNat min)

/-- The size in logical pixels. -/
def SurfaceSize.logical (s : SurfaceSize α) : Point α := ⟨s.width / s.ratio, s.height / s.ratio⟩

namespace FieldRect

/-- The largest square in a surface that keeps `padding` on every side, in the middle. -/
def centeredSquare (width height padding : α) : FieldRect α :=
  let side := min width height - ofNat 2 * padding
  ⟨(width - side) / ofNat 2, (height - side) / ofNat 2, side, side⟩

/-- The middle of a rectangle. -/
def center (r : FieldRect α) : Point α :=
  ⟨r.x + r.width / ofNat 2, r.y + r.height / ofNat 2⟩

/-- The field's square on a surface, in logical pixels. -/
def onSurface (size : SurfaceSize α) (padding : α) : FieldRect α :=
  centeredSquare size.logical.x size.logical.y padding

/-- From inches of a field of this size to the rectangle, on top of `parent`: the origin goes to the
middle, the second axis is flipped, and a quarter turn lets the first axis point up. -/
def baseTransform (parent : Affine α) (r : FieldRect α) (fieldSize : α) : Affine α :=
  parent * Affine.displacement r.center *
    Affine.scaling (r.width / fieldSize) (-r.height / fieldSize) *
    Affine.rotation Scalar.quarterTurn

end FieldRect

/-- A base transform with an origin and a rotation layered on top. -/
def Affine.layered (base : Affine α) (origin : Point α) (rotation : α) : Affine α :=
  base * Affine.displacement origin * Affine.rotation rotation

end FieldDiagram
