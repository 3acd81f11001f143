import FieldDiagram.Color.Basic
import FieldDiagram.Geometry.Affine
/-!
# Draw commands

What a canvas has recorded, in device pixels: a list that can be carried out on anything that draws.
-/

namespace FieldDiagram

/-- How the ends of an open path are drawn. -/
inductive LineCap where
  | butt
  | round
  | square
  deriving DecidableEq, Repr

/-- A part of a path, in device pixels. -/
inductive PathElement (α : Type) where
  | moveTo (point : Point α)
  | lineTo (point : Point α)
  /-- A part of a circle; the angles are those of user space. -/
  | arc (center : Point α) (radius startAngle endAngle : α)
  | close
  deriving DecidableEq, Repr

/-- One thing drawn, with images of type `ι`. -/
inductive DrawCommand (α ι : Type) where
  /-- Everything before was wiped; the target has this size. -/
  | clear (width height : α)
  | fill (path : List (PathElement α)) (color : Color) (alpha : α)
  | stroke (path : List (PathElement α)) (color : Color) (alpha width : α) (cap : LineCap)
  /-- A text at a point, with the whole map from user space, for those who can turn glyphs. -/
  | text (content : String) (point : Point α) (transform : Affine α) (font : String) (color : Color)
    (alpha : α) (outlined : Bool)
  | image (image : ι) (point size : Point α) (alpha : α)

end FieldDiagram
