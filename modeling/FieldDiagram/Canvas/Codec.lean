import FieldDiagram.Canvas.Command
import FieldDiagram.Decode.Shape
/-!
# Draw commands as documents

A command is an object with the kind of the command as its only member. Points are lists of two
numbers, affine maps lists of six, colours are texts.
-/

namespace FieldDiagram

open Json (Reading Value)

/-! ## Points and maps -/

/-- Reads a point. -/
def Point.ofReading (r : Reading) : Decoded (Point Float) := do
  match ← r.reals 2 "a sequence of 2 f64 values" with
  | [x, y] => return ⟨x, y⟩
  | xs => refuse (.invalidLength xs.length "a sequence of 2 f64 values")

/-- A point as an array. -/
def Point.value (p : Point Float) : Value := .array [.real p.x, .real p.y]

/-- Reads a map. -/
def Affine.ofReading (r : Reading) : Decoded (Affine Float) := do
  match ← r.reals 6 "a sequence of 6 f64values" with
  | [a, b, c, d, e, f] => return ⟨a, b, c, d, e, f⟩
  | xs => refuse (.invalidLength xs.length "a sequence of 6 f64values")

/-- A map as an array. -/
def Affine.value (m : Affine Float) : Value :=
  .array [.real m.a, .real m.b, .real m.c, .real m.d, .real m.e, .real m.f]

/-! ## Colours -/

/-- A colour as a text. -/
def Color.value (c : Color) : Value := .string c.text

/-! ## Line caps -/

/-- The name of a cap. -/
def LineCap.name : LineCap → String
  | .butt => "Butt"
  | .round => "Round"
  | .square => "Square"

/-- The names of all caps. -/
def LineCap.names : List String := [LineCap.butt, .round, .square].map name

/-- Reads a cap. -/
def LineCap.ofReading : Reading → Decoded LineCap :=
  Reading.variant names fun name contents =>
    match name with
    | "Butt" => unitVariant .butt contents
    | "Round" => unitVariant .round contents
    | _ => unitVariant .square contents

/-- A cap as a text. -/
def LineCap.value (cap : LineCap) : Value := .string cap.name

/-! ## Paths -/

namespace PathElement

/-- An arc as a record. -/
def arcShape : RecordShape Reading := ⟨"struct variant PathElement::Arc", [
  .of "center" Point.ofReading, .of "radius" Reading.real, .of "start_angle" Reading.real,
  .of "end_angle" Reading.real]⟩

/-- Reads an arc. -/
def arcOfReading (r : Reading) : Decoded (PathElement Float) := do
  let fs ← arcShape.ofReading r
  let center ← fs.get "center" Point.ofReading
  let radius ← fs.get "radius" Reading.real
  let startAngle ← fs.get "start_angle" Reading.real
  let endAngle ← fs.get "end_angle" Reading.real
  return .arc center radius startAngle endAngle

/-- Reads a part of a path. -/
def ofReading : Reading → Decoded (PathElement Float) :=
  Reading.variant ["MoveTo", "LineTo", "Arc", "Close"] fun name contents =>
    match name with
    | "MoveTo" => valueVariant (fun r => do return .moveTo (← Point.ofReading r)) contents
    | "LineTo" => valueVariant (fun r => do return .lineTo (← Point.ofReading r)) contents
    | "Arc" => recordVariant arcOfReading contents
    | _ => unitVariant .close contents

/-- A part of a path as an object; closing has no contents. -/
def value : PathElement Float → Value
  | .moveTo p => .object [("MoveTo", p.value)]
  | .lineTo p => .object [("LineTo", p.value)]
  | .arc center radius startAngle endAngle => .object [("Arc", .object [
      ("center", center.value), ("radius", .real radius), ("start_angle", .real startAngle),
      ("end_angle", .real endAngle)])]
  | .close => .string "Close"

end PathElement

/-! ## Commands -/

namespace DrawCommand

/-- Reads a path. -/
def path (r : Reading) : Decoded (List (PathElement Float)) := r.list PathElement.ofReading

/-- The record of a kind of command. -/
def shape (variant : String) (fields : List (Field Reading)) : RecordShape Reading :=
  ⟨"struct variant DrawCommand::" ++ variant, fields⟩

/-- Reads what wipes the canvas. -/
def clearOfReading (r : Reading) : Decoded (DrawCommand Float String) := do
  let fs ← (shape "Clear" [.of "width" Reading.real, .of "height" Reading.real]).ofReading r
  let width ← fs.get "width" Reading.real
  let height ← fs.get "height" Reading.real
  return .clear width height

/-- Reads a filled path. -/
def fillOfReading (r : Reading) : Decoded (DrawCommand Float String) := do
  let fs ← (shape "Fill" [.of "path" path, .of "color" Reading.color,
    .of "alpha" Reading.real]).ofReading r
  let outline ← fs.get "path" path
  let color ← fs.get "color" Reading.color
  let alpha ← fs.get "alpha" Reading.real
  return .fill outline color alpha

/-- Reads a stroked path. -/
def strokeOfReading (r : Reading) : Decoded (DrawCommand Float String) := do
  let fs ← (shape "Stroke" [.of "path" path, .of "color" Reading.color, .of "alpha" Reading.real,
    .of "width" Reading.real, .of "cap" LineCap.ofReading]).ofReading r
  let outline ← fs.get "path" path
  let color ← fs.get "color" Reading.color
  let alpha ← fs.get "alpha" Reading.real
  let width ← fs.get "width" Reading.real
  let cap ← fs.get "cap" LineCap.ofReading
  return .stroke outline color alpha width cap

/-- Reads a drawn text. -/
def textOfReading (r : Reading) : Decoded (DrawCommand Float String) := do
  let fs ← (shape "Text" [.of "text" Reading.text, .of "position" Point.ofReading,
    .of "transform" Affine.ofReading, .of "font" Reading.text, .of "color" Reading.color,
    .of "alpha" Reading.real, .of "outlined" Reading.flag]).ofReading r
  let content ← fs.get "text" Reading.text
  let point ← fs.get "position" Point.ofReading
  let transform ← fs.get "transform" Affine.ofReading
  let font ← fs.get "font" Reading.text
  let color ← fs.get "color" Reading.color
  let alpha ← fs.get "alpha" Reading.real
  let outlined ← fs.get "outlined" Reading.flag
  return .text content point transform font color alpha outlined

/-- Reads a drawn image. -/
def imageOfReading (r : Reading) : Decoded (DrawCommand Float String) := do
  let fs ← (shape "Image" [.of "image" Reading.text, .of "position" Point.ofReading,
    .of "size" Point.ofReading, .of "alpha" Reading.real]).ofReading r
  let name ← fs.get "image" Reading.text
  let point ← fs.get "position" Point.ofReading
  let size ← fs.get "size" Point.ofReading
  let alpha ← fs.get "alpha" Reading.real
  return .image name point size alpha

/-- A command whose images are named by texts. -/
def ofReading : Reading → Decoded (DrawCommand Float String) :=
  Reading.variant ["Clear", "Fill", "Stroke", "Text", "Image"] fun name =>
    recordVariant <| match name with
    | "Clear" => clearOfReading
    | "Fill" => fillOfReading
    | "Stroke" => strokeOfReading
    | "Text" => textOfReading
    | _ => imageOfReading

/-- A command as an object. -/
def value : DrawCommand Float String → Value
  | .clear width height => .object [("Clear", .object [
      ("width", .real width), ("height", .real height)])]
  | .fill path color alpha => .object [("Fill", .object [
      ("path", .array (path.map PathElement.value)), ("color", color.value),
      ("alpha", .real alpha)])]
  | .stroke path color alpha width cap => .object [("Stroke", .object [
      ("path", .array (path.map PathElement.value)), ("color", color.value),
      ("alpha", .real alpha), ("width", .real width), ("cap", cap.value)])]
  | .text content point transform font color alpha outlined => .object [("Text", .object [
      ("text", .string content), ("position", point.value), ("transform", transform.value),
      ("font", .string font), ("color", color.value), ("alpha", .real alpha),
      ("outlined", .boolean outlined)])]
  | .image name point size alpha => .object [("Image", .object [
      ("image", .string name), ("position", point.value), ("size", size.value),
      ("alpha", .real alpha)])]

/-- Decodes a list of commands. -/
def decodeList (text : String) : Decoded (List (DrawCommand Float String)) :=
  decodeText (Reading.list ofReading) text

end DrawCommand

end FieldDiagram
