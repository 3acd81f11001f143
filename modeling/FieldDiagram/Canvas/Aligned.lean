import FieldDiagram.Canvas.Basic
import FieldDiagram.Geometry.PixelGrid
/-!
# Paths whose corners are snapped to pixels

Each corner is snapped by the map that the canvas has when the corner is added. A canvas that does not
tell its map refuses the first corner, before anything has changed.
-/

namespace FieldDiagram.Canvas

variable {α ι : Type} [Scalar α]

/-- A point of user space, snapped. -/
def align (c : Canvas α ι) (p : Point α) : Except SurfaceError (Point α) :=
  c.transform?.map (·.align p)

/-- Starts a subpath at a snapped point. -/
def alignedMoveTo (c : Canvas α ι) (p : Point α) : Except SurfaceError (Canvas α ι) :=
  (c.align p).map fun q => c.call (.moveTo q.x q.y)

/-- Adds a line to a snapped point. -/
def alignedLineTo (c : Canvas α ι) (p : Point α) : Except SurfaceError (Canvas α ι) :=
  (c.align p).map fun q => c.call (.lineTo q.x q.y)

/-- Adds a chain of lines between snapped points; without points it adds nothing. -/
def alignedPolyline (c : Canvas α ι) : List (Point α) → Except SurfaceError (Canvas α ι)
  | [] => .ok c
  | first :: rest => do rest.foldlM alignedLineTo (← c.alignedMoveTo first)

end FieldDiagram.Canvas
