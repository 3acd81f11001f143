import FieldDiagram.Geometry.FieldRect
/-!
# Where alternate field art goes

Alternate art is placed in inches of a reference field, counted from that field's corner.
-/

namespace FieldDiagram

/-- A rectangle on the reference field, and whether its image ignores the background's opacity. -/
structure AltPlacement (α : Type) where
  x : α
  y : α
  width : α
  height : α
  opaqueArt : Bool
  deriving DecidableEq, Repr

namespace AltPlacement

variable {α : Type} [Scalar α]

open Scalar (ofNat zero)

/-- The side of the reference field in inches. -/
def referenceSpan : α := ofNat 144

/-- The placement before any has been asked for. -/
def empty : AltPlacement α := ⟨zero, zero, zero, zero, false⟩

/-- Corner and extent of the art inside a rectangle. Both extents follow the width of the rectangle,
as field art is drawn for a square field. -/
def resolve (p : AltPlacement α) (r : FieldRect α) : Point α × Point α :=
  let sx := r.width / referenceSpan
  let sy := r.height / referenceSpan
  (⟨r.x + p.x * sx, r.y + p.y * sy⟩, ⟨p.width * sx, p.height * sx⟩)

end AltPlacement

end FieldDiagram
