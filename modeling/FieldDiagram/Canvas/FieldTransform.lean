import FieldDiagram.Canvas.Basic
import FieldDiagram.Geometry.FieldRect
/-!
# A canvas in inches of the field

Giving a canvas the base transform of a field. The base lies on top of the map that the canvas has, so
the canvas must tell that map.
-/

namespace FieldDiagram.Canvas

variable {α ι : Type} [Scalar α]

/-- Lets a canvas count inches of a field that fills a rectangle; the base transform comes with it. -/
def establish (rect : FieldRect α) (fieldSize : α) (c : Canvas α ι) :
    Except SurfaceError (Affine α × Canvas α ι) := do
  let base := rect.baseTransform (← c.transform?) fieldSize
  return (base, c.call (.setTransform base))

end FieldDiagram.Canvas
