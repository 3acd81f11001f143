import FieldDiagram.Geometry.FieldRect
import FieldDiagram.Text.Blank
import FieldDiagram.Viewer.Flatten
/-!
# Drawing in a window

How the commands of a canvas are carried out in a window. All numbers become single precision, and an
opacity is multiplied into the colour it applies to.
-/

namespace FieldDiagram

/-- What a window is asked to do, with textures of type `ι`. -/
inductive WindowCall (ι : Type) where
  | background (color : Color)
  | circle (center : Point Float32) (radius : Float32) (color : Color)
  | triangle (a b c : Point Float32) (color : Color)
  | line (first last : Point Float32) (width : Float32) (color : Color)
  | text (content : String) (point : Point Float32) (size : Nat) (rotation : Float32) (color : Color)
  | texture (texture : ι) (point : Point Float32) (color : Color) (size : Point Float32)
  /-- Loads a texture. -/
  | load (url : String)

/-- The size of a window in device pixels and the scale of its display. A scale that makes no sense
counts as one. -/
def windowSize (width height scale : Float32) : SurfaceSize Float :=
  ⟨width.toFloat, height.toFloat,
    if scale.isFinite && (0 : Float32) < scale then scale.toFloat else Double.ofInt 1⟩

/-- A colour with an opacity multiplied in. -/
def Color.faded (c : Color) (alpha : Float) : Color := { c with a := c.a * alpha.toFloat32 }

/-- The smallest and the largest size of glyphs. -/
def glyphBounds : Int × Int := (1, 512)

/-- The size that a word like `14px` stands for. -/
def wordSize? (word : List Char) : Option Float :=
  match word.reverse with
  | 'x' :: 'p' :: rest => Double.ofNumeral? rest.reverse
  | _ => none

/-- The size of glyphs in pixels for a font such as `bold 14px sans-serif`: the first word that is a
size decides; without one it is ten. -/
def glyphSize (font : String) : Nat :=
  match (words font.toList).findSome? wordSize? with
  | some size =>
    (Double.roundWithin BinaryFormat.double.round glyphBounds.1 glyphBounds.2 size).toNat
  | none => 10

/-- The lines between consecutive points. -/
def chainLines {ι : Type} (points : List (Point Float32)) (width : Float32) (color : Color) :
    List (WindowCall ι) :=
  (points.zip points.tail).map fun (p, q) => .line p q width color

/-- The lines of a subpath; a closed one ends where it started. -/
def Subpath.lines {ι : Type} (s : Subpath) (width : Float32) (color : Color) :
    List (WindowCall ι) :=
  chainLines s.points width color ++
    match s.closed, s.points.head?, s.points.getLast? with
    | true, some first, some last => [.line last first width color]
    | _, _, _ => []

/-- The triangles of a subpath, all with its first point as a corner. They cover a convex shape. -/
def Subpath.triangles {ι : Type} (s : Subpath) (color : Color) : List (WindowCall ι) :=
  match s.points with
  | [] => []
  | first :: rest => (rest.zip rest.tail).map fun (p, q) => .triangle first p q color

/-- The calls that carry out a command. -/
def DrawCommand.windowCalls {ι : Type} : DrawCommand Float ι → List (WindowCall ι)
  | .clear _ _ => []
  -- a path that is one arc is filled as a full circle, whatever part of it the arc covers
  | .fill [.arc center radius _ _] color alpha =>
    [.circle center.toSingle radius.toFloat32 (color.faded alpha)]
  | .fill path color alpha => (flatten path).flatMap (·.triangles (color.faded alpha))
  | .stroke path color alpha width _ =>
    (flatten path).flatMap (·.lines width.toFloat32 (color.faded alpha))
  | .text content point transform font color alpha _ =>
    [.text content point.toSingle (glyphSize font)
      (Float.atan2 transform.b transform.a).toFloat32 (color.faded alpha)]
  | .image texture point size alpha =>
    let white := Single.ofRatio 1 1
    [.texture texture point.toSingle ⟨white, white, white, alpha.toFloat32⟩ size.toSingle]

end FieldDiagram
