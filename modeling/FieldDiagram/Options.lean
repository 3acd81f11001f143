import FieldDiagram.Decode.Shape
/-!
# Options of a diagram

How a diagram is to be drawn. In a document every option may be absent, and members with other names
are skipped, so that a larger object of options can be passed on as it is.
-/

namespace FieldDiagram

open Json (Reading Value)

/-- How a diagram is drawn. -/
structure Options (α : Type) where
  /-- Space around the field, in logical pixels. -/
  padding : α
  /-- Opacity of the field's art. -/
  alpha : α
  /-- Side of the field in inches. -/
  fieldSize : α
  /-- Lines that approximate a spline. -/
  splineSamples : { n : Nat // 0 < n }
  /-- Width of a grid line in device pixels. -/
  gridLineWidth : α
  gridLineColor : Color
  /-- Address of the field's art. -/
  fieldImage : String

namespace Options

/-- The options where nothing else is asked for. -/
def standard : Options Float where
  padding := Double.ofInt 15
  alpha := Double.ofInt 1 / Double.ofInt 4
  fieldSize := Double.ofInt 144
  splineSamples := ⟨250, by decide⟩
  gridLineWidth := Double.ofInt 1
  gridLineColor := .opaqueOfBytes 120 120 120
  fieldImage := "field.png"

end Options

/-! ## Decoding -/

namespace Options

/-- Options as a record. -/
def shape : RecordShape Reading := ⟨"struct FieldOptions", [
  .of "padding" Reading.real, .of "alpha" Reading.real, .of "fieldSize" Reading.real,
  .of "splineSamples" Reading.positive, .of "gridLineWidth" Reading.real,
  .of "gridLineColor" Reading.color, .of "fieldImage" Reading.text]⟩

/-- Reads options; what is absent is taken from the standard ones. -/
def ofReading (r : Reading) : Decoded (Options Float) := do
  let fs ← shape.ofReading r
  return {
    padding := ← fs.getD "padding" Reading.real standard.padding
    alpha := ← fs.getD "alpha" Reading.real standard.alpha
    fieldSize := ← fs.getD "fieldSize" Reading.real standard.fieldSize
    splineSamples := ← fs.getD "splineSamples" Reading.positive standard.splineSamples
    gridLineWidth := ← fs.getD "gridLineWidth" Reading.real standard.gridLineWidth
    gridLineColor := ← fs.getD "gridLineColor" Reading.color standard.gridLineColor
    fieldImage := ← fs.getD "fieldImage" Reading.text standard.fieldImage }

/-- Decodes options. -/
def decode (text : String) : Decoded (Options Float) := decodeText ofReading text

/-- The message for a text that holds no options. -/
def decodeMessage (e : DecodeError) : String := "invalid field options: " ++ e.message

/-- Where the reader of a text stood when it refused it. -/
def decodeLocation (text : String) : Option Json.Location :=
  (shape.stop? (Json.read text).1).map (·.location text.toList)

/-- The message for a text that holds no options, with the place in the text and then the cause once
more by itself. -/
def decodeReport (text : String) (e : DecodeError) : String :=
  let place := (decodeLocation text).elim "" fun l => " at " ++ l.text
  decodeMessage e ++ place ++ ": " ++ e.message

/-! ## Encoding -/

/-- Options as an object with all members. -/
def value (o : Options Float) : Value := .object [
  ("padding", .real o.padding), ("alpha", .real o.alpha), ("fieldSize", .real o.fieldSize),
  ("splineSamples", .integer o.splineSamples.1), ("gridLineWidth", .real o.gridLineWidth),
  ("gridLineColor", .string o.gridLineColor.text), ("fieldImage", .string o.fieldImage)]

/-- Encodes options. -/
def encode (o : Options Float) : String := o.value.text

end Options

end FieldDiagram
