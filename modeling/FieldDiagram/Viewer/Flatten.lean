import FieldDiagram.Canvas.Command
import FieldDiagram.Scalar.Machine
/-!
# Paths as chains of points

A window draws straight lines only. Flattening turns a path into its subpaths, each a chain of points
in single precision; arcs become chains of short segments.
-/

namespace FieldDiagram

/-- A chain of points, and whether its end is joined to its start. -/
structure Subpath where
  points : List (Point Float32)
  closed : Bool

/-- A point in single precision. -/
def Point.toSingle (p : Point Float) : Point Float32 := ⟨p.x.toFloat32, p.y.toFloat32⟩

/-- Segments of a full circle. -/
def circleSegments : Int := 48

/-- Segments of an arc: its part of a full circle's, rounded up, and at least one. -/
def arcSegments (sweep : Float) : Nat :=
  let share := sweep.abs / Double.fullTurn * Double.ofInt circleSegments
  max 1 (Double.roundWithin BinaryFormat.double.ceil 0 18446744073709551615 share).toNat

/-- The ends of the segments of an arc, from its start to its end. -/
def arcPoints (center : Point Float) (radius startAngle endAngle : Float) : List (Point Float) :=
  let sweep := endAngle - startAngle
  let segments := arcSegments sweep
  (List.range (segments + 1)).map fun (i : Nat) =>
    let angle := startAngle + sweep * Double.ofInt i / Double.ofInt segments
    ⟨center.x + angle.cos * radius, center.y + angle.sin * radius⟩

/-- There is one end more than there are segments. -/
theorem length_arcPoints (center : Point Float) (radius startAngle endAngle : Float) :
    (arcPoints center radius startAngle endAngle).length =
      arcSegments (endAngle - startAngle) + 1 := by
  simp [arcPoints]

/-- The points that an element adds to its subpath. -/
def PathElement.points : PathElement Float → List (Point Float32)
  | .moveTo p => [p.toSingle]
  | .lineTo p => [p.toSingle]
  | .arc center radius startAngle endAngle =>
    (arcPoints center radius startAngle endAngle).map Point.toSingle
  | .close => []

/-- A subpath of these points, unless there are none. -/
def Subpath.ofPoints (points : Array (Point Float32)) (closed : Bool) : List Subpath :=
  if points.isEmpty then [] else [⟨points.toList, closed⟩]

/-- The subpaths of a path that goes on after the points `current`. -/
def flattenFrom (current : Array (Point Float32)) : List (PathElement Float) → List Subpath
  | [] => Subpath.ofPoints current false
  | .moveTo p :: rest => Subpath.ofPoints current false ++ flattenFrom #[p.toSingle] rest
  | .close :: rest => Subpath.ofPoints current true ++ flattenFrom #[] rest
  | e :: rest => flattenFrom (current.appendList e.points) rest

/-- The subpaths of a path. A new one starts at each move and after each closing. -/
def flatten (path : List (PathElement Float)) : List Subpath := flattenFrom #[] path

end FieldDiagram
