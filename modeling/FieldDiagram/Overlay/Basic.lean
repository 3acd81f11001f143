import FieldDiagram.Geometry.Placement
import FieldDiagram.Geometry.Spline
/-!
# Overlays

An overlay is a list of drawing operations in the order in which they are carried out. Coordinates are
inches of the field. Nothing about an operation is checked before it is carried out, not even whether
its kind is known.
-/

namespace FieldDiagram

/-- A number of grid lines as asked for: a whole number of 64 bits with sign. -/
structure LineCount where
  value : Int
  lower : -9223372036854775808 ≤ value := by decide
  upper : value ≤ 9223372036854775807 := by decide
  deriving DecidableEq, Repr

/-- The count nearest to a whole number. -/
def LineCount.saturating (n : Int) : LineCount :=
  ⟨max (-9223372036854775808) (min 9223372036854775807 n), by omega, by omega⟩

/-- How many grid lines are drawn: `horizontal` of them spread across the width of the field and
`vertical` across its height. -/
structure GridTicks where
  horizontal : Nat
  vertical : Nat
  deriving DecidableEq, Repr

namespace GridTicks

/-- The grid until an operation asks for another. -/
def standard : GridTicks := ⟨7, 7⟩

/-- The fewest lines of an axis. -/
def fewest : Nat := 2

/-- The grid that is asked for, with no axis below the fewest lines. -/
def ofCounts (horizontal vertical : LineCount) : GridTicks :=
  ⟨max fewest horizontal.value.toNat, max fewest vertical.value.toNat⟩

/-- Whether there are more lines than a diagram can show. -/
def isExcessive (g : GridTicks) : Bool := 1000 < max g.horizontal g.vertical

theorem fewest_le_ofCounts (h v : LineCount) :
    fewest ≤ (ofCounts h v).horizontal ∧ fewest ≤ (ofCounts h v).vertical :=
  ⟨Nat.le_max_left _ _, Nat.le_max_left _ _⟩

end GridTicks

/-- One operation of an overlay. Where there is a choice, `outlined` asks for the outline instead of
the filled shape. -/
inductive Op (α : Type) where
  /-- Puts other art in place of the field's. -/
  | image (url : String) (placement : AltPlacement α)
  /-- Sets the grid of the passes to come. -/
  | grid (horizontal vertical : LineCount)
  /-- Scales on top of origin and rotation, until one of them is set again. -/
  | scale (x y : α)
  | rotation (angle : α)
  | origin (point : Point α)
  | alpha (alpha : α)
  | fill (color : String)
  | stroke (color : String)
  | strokeWidth (width : α)
  | text (text : String) (point : Point α) (font : Option String) (angle : α) (outlined : Bool)
  | circle (center : Point α) (radius : α) (outlined : Bool)
  /-- A closed chain of lines. The lists of coordinates are paired, what is left over is not drawn. -/
  | polygon (xs ys : List α) (outlined : Bool)
  /-- An open chain of lines. -/
  | polyline (xs ys : List α)
  | spline (curve : SplineCurve α)
  /-- An operation that is not known; it ends a pass. -/
  | unknown (kind : String)

namespace Op

variable {α : Type}

/-- The kinds of operations that are known, in the order of declaration. -/
def kinds : List String := ["image", "grid", "scale", "rotation", "origin", "alpha", "fill", "stroke",
  "strokeWidth", "text", "circle", "polygon", "polyline", "spline"]

/-- The kind of an operation. -/
def kind : Op α → String
  | image .. => "image"
  | grid .. => "grid"
  | scale .. => "scale"
  | rotation .. => "rotation"
  | origin .. => "origin"
  | alpha .. => "alpha"
  | fill .. => "fill"
  | stroke .. => "stroke"
  | strokeWidth .. => "strokeWidth"
  | text .. => "text"
  | circle .. => "circle"
  | polygon .. => "polygon"
  | polyline .. => "polyline"
  | spline .. => "spline"
  | unknown kind => kind

/-- Whether an operation is not known. -/
def isUnknown : Op α → Bool
  | unknown _ => true
  | _ => false

/-- The polygon with these corners. -/
def polygonOf (points : List (Point α)) (outlined : Bool) : Op α :=
  polygon (points.map Point.x) (points.map Point.y) outlined

/-- The chain of lines with these ends. -/
def polylineOf (points : List (Point α)) : Op α :=
  polyline (points.map Point.x) (points.map Point.y)

end Op

/-- The operations of an overlay. -/
structure Overlay (α : Type) where
  ops : List (Op α)

end FieldDiagram
