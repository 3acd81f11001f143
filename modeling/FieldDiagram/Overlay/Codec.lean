import FieldDiagram.Decode.Shape
import FieldDiagram.Overlay.Basic
/-!
# Overlays as documents

An overlay is an object with the member `ops`, a list of operations. An operation is an object with
its kind as the member `type`. The operations of an overlay are complete values before any of them is
decoded, with their members sorted by name and the last of each name kept; so the order of members and
earlier occurrences of a name do not matter there. An operation that is decoded on its own is taken
from the text as it stands.
-/

namespace FieldDiagram

open Json (Reading Value StringToken nestingLimit)

/-! ## Fields of operations -/

/-- A whole number of grid lines, sent as any number. -/
def Found.toCount (found : Found) : Decoded LineCount := do
  let x ← found.toReal
  match Double.whole? x with
  | some n => return .saturating n
  | none => refuse (.fractionalCount x)

namespace Json.Value

/-- Takes a real number. -/
def toReal (v : Value) : Decoded Float := v.found.toReal

/-- Takes a text. -/
def toText (v : Value) : Decoded String := v.found.toText

/-- Takes a truth value. -/
def toFlag (v : Value) : Decoded Bool := v.found.toFlag

/-- Takes a text or nothing. -/
def toOptionalText (v : Value) : Decoded (Option String) := v.found.toOptionalText

/-- Takes a number of grid lines. -/
def toCount (v : Value) : Decoded LineCount := v.found.toCount

end Json.Value

namespace SplineAxis

/-- One axis as a record of its coefficients. -/
def shape : RecordShape Reading :=
  ⟨"struct SplineAxis", ["a", "b", "c", "d", "e", "f"].map (Field.of · Reading.real)⟩

/-- Reads one axis. -/
def ofReading (r : Reading) : Decoded (SplineAxis Float) := do
  let fs ← shape.ofReading r
  let coefficient name := fs.get name Reading.real
  return ⟨← coefficient "a", ← coefficient "b", ← coefficient "c", ← coefficient "d",
    ← coefficient "e", ← coefficient "f"⟩

/-- One axis as an object. -/
def value (s : SplineAxis Float) : Value :=
  .object [("a", .real s.a), ("b", .real s.b), ("c", .real s.c), ("d", .real s.d),
    ("e", .real s.e), ("f", .real s.f)]

end SplineAxis

namespace SplineCurve

/-- Both axes as one record of twelve coefficients. -/
def shape {ν : Type} (real : ν → Decoded Float) : RecordShape ν :=
  ⟨"struct SplineOp", ["ax", "bx", "cx", "dx", "ex", "fx", "ay", "by", "cy", "dy", "ey", "fy"].map
    (Field.of · real)⟩

/-- A curve from its twelve coefficients. -/
def ofFields {ν : Type} (real : ν → Decoded Float) (fs : Fields ν) :
    Decoded (SplineCurve Float) := do
  let x := ⟨← fs.get "ax" real, ← fs.get "bx" real, ← fs.get "cx" real, ← fs.get "dx" real,
    ← fs.get "ex" real, ← fs.get "fx" real⟩
  let y := ⟨← fs.get "ay" real, ← fs.get "by" real, ← fs.get "cy" real, ← fs.get "dy" real,
    ← fs.get "ey" real, ← fs.get "fy" real⟩
  return ⟨x, y⟩

/-- Reads a curve. -/
def ofReading (r : Reading) : Decoded (SplineCurve Float) := do
  ofFields Reading.real (← (shape Reading.real).ofReading r)

/-- The twelve coefficients by name. -/
def members (s : SplineCurve Float) : List (String × Value) :=
  [("ax", .real s.x.a), ("bx", .real s.x.b), ("cx", .real s.x.c), ("dx", .real s.x.d),
    ("ex", .real s.x.e), ("fx", .real s.x.f), ("ay", .real s.y.a), ("by", .real s.y.b),
    ("cy", .real s.y.c), ("dy", .real s.y.d), ("ey", .real s.y.e), ("fy", .real s.y.f)]

end SplineCurve

/-! ## Decoding operations -/

/-- How the operations of one kind are written: as which record, and what the record says. -/
structure OpForm where
  shape : RecordShape Value
  build : Fields Value → Decoded (Op Float)

namespace Op

/-- A form by the name of its variant and its fields. -/
def form (variant : String) (fields : List (Field Value))
    (build : Fields Value → Decoded (Op Float)) : OpForm :=
  ⟨⟨"struct variant Op::" ++ variant, fields⟩, build⟩

/-- Fields that hold real numbers. -/
def reals (names : List String) : List (Field Value) :=
  names.map (Field.of · Value.toReal)

/-- The field that asks for the outline. -/
def outlinedField : Field Value := .of "stroke" Value.toFlag

/-- Whether the outline is asked for; without the field it is not. -/
def outlined (fs : Fields Value) : Decoded Bool := fs.getD "stroke" Value.toFlag false

/-- The point of an operation. -/
def point (fs : Fields Value) : Decoded (Point Float) := do
  return ⟨← fs.get "x" Value.toReal, ← fs.get "y" Value.toReal⟩

/-- The form of each kind that is known. -/
def forms : List (String × OpForm) := [
  ("image", form "Image"
    (.of "src" Value.toText :: reals ["x", "y", "width", "height"] ++ [.of "opaque" Value.toFlag])
    fun fs => do
      let url ← fs.get "src" Value.toText
      let corner ← point fs
      let width ← fs.get "width" Value.toReal
      let height ← fs.get "height" Value.toReal
      let opaqueArt ← fs.getD "opaque" Value.toFlag false
      return .image url ⟨corner.x, corner.y, width, height, opaqueArt⟩),
  ("grid", form "Grid" [.of "numHorizontal" Value.toCount, .of "numVertical" Value.toCount]
    fun fs => do
      let horizontal ← fs.get "numHorizontal" Value.toCount
      let vertical ← fs.get "numVertical" Value.toCount
      return .grid horizontal vertical),
  ("scale", form "Scale" (reals ["scaleX", "scaleY"]) fun fs => do
    let x ← fs.get "scaleX" Value.toReal
    let y ← fs.get "scaleY" Value.toReal
    return .scale x y),
  ("rotation", form "Rotation" (reals ["rotation"]) fun fs => do
    return .rotation (← fs.get "rotation" Value.toReal)),
  ("origin", form "Origin" (reals ["x", "y"]) fun fs => do
    return .origin (← point fs)),
  ("alpha", form "Alpha" (reals ["alpha"]) fun fs => do
    return .alpha (← fs.get "alpha" Value.toReal)),
  ("fill", form "Fill" [.of "color" Value.toText] fun fs => do
    return .fill (← fs.get "color" Value.toText)),
  ("stroke", form "Stroke" [.of "color" Value.toText] fun fs => do
    return .stroke (← fs.get "color" Value.toText)),
  ("strokeWidth", form "StrokeWidth" (reals ["width"]) fun fs => do
    return .strokeWidth (← fs.get "width" Value.toReal)),
  ("text", form "Text"
    (.of "text" Value.toText :: reals ["x", "y"] ++
      [.of "font" Value.toOptionalText, .of "theta" Value.toReal, outlinedField])
    fun fs => do
      let content ← fs.get "text" Value.toText
      let anchor ← point fs
      let font ← fs.getD "font" Value.toOptionalText none
      let angle ← fs.getD "theta" Value.toReal (Double.ofInt 0)
      return .text content anchor font angle (← outlined fs)),
  ("circle", form "Circle" (reals ["x", "y", "radius"] ++ [outlinedField]) fun fs => do
    let center ← point fs
    let radius ← fs.get "radius" Value.toReal
    return .circle center radius (← outlined fs)),
  ("polygon", form "Polygon"
    [.of "xPoints" Value.reals, .of "yPoints" Value.reals, outlinedField]
    fun fs => do
      let xs ← fs.get "xPoints" Value.reals
      let ys ← fs.get "yPoints" Value.reals
      return .polygon xs ys (← outlined fs)),
  ("polyline", form "Polyline" [.of "xPoints" Value.reals, .of "yPoints" Value.reals]
    fun fs => do
      let xs ← fs.get "xPoints" Value.reals
      let ys ← fs.get "yPoints" Value.reals
      return .polyline xs ys),
  ("spline", ⟨SplineCurve.shape Value.toReal,
    fun fs => do return .spline (← SplineCurve.ofFields Value.toReal fs)⟩)]

/-- Every kind that is known has a form, and no other. -/
theorem map_fst_forms : forms.map Prod.fst = kinds := rfl

/-- The name of the member that tells the kind. -/
def tag : String := "type"

/-- An operation of a known kind from its other members. -/
def ofMembers (form : OpForm) (members : List (String × Value)) : Decoded (Op Float) := do
  form.build (← form.shape.ofMembers members)

/-- Says of an error in which operation it is. -/
def atPlace (index : Nat) (kind : String) : DecodeError → DecodeError
  | .mismatch m => .mismatch (.inOperation index kind m)
  | .fault f => .fault f

/-- The operation that stands at a place of an overlay, from a value with sorted members. An operation
of a kind that is not known is kept as such, also one whose kind is no text or that has none. -/
def ofElement (index : Nat) (element : Value) : Decoded (Op Float) :=
  let members := match element with
    | .object members => members
    | _ => []
  match members.lookup tag with
  | none => .ok (.unknown "undefined")
  | some (.string kind) =>
    match forms.lookup kind with
    | none => .ok (.unknown kind)
    | some form => (ofMembers form (members.filter (·.1 ≠ tag))).mapError (atPlace index kind)
  -- a kind that is no text is known by its written form
  | some other => .ok (.unknown other.text)

/-- The operations of an overlay. -/
def listOfValues (elements : List Value) : Decoded (List (Op Float)) :=
  elements.zipIdx.mapM fun (element, index) => ofElement index element.canonical

/-- The operations of an overlay in a text. The list stands two levels deep, so its elements may be
nested as deeply as the rest of the limit allows. -/
def listOfReading (r : Reading) : Decoded (List (Op Float)) := do
  listOfValues (← r.list fun item => ofText (item.value (nestingLimit - 2)))

/-! ## Operations on their own -/

/-- The kind of an operation on its own and the form that goes with it. -/
def formOfTag (r : Reading) : Decoded OpForm := do
  match ← r.found with
  | .string kind =>
    match forms.lookup kind with
    | some form => return form
    | none => refuse (.unknownVariant kind kinds)
  | other => refuse (.wrongType other "variant identifier")

/-- Collects the members of an operation on its own and finds the form among them. -/
def collect (form : Option OpForm) (others : List (String × Value)) :
    List (StringToken × Reading) → Decoded (Option OpForm × List (String × Value))
  | [] => .ok (form, others)
  | (k, r) :: ms => do
    let k ← ofText k.text
    if k = tag then
      if form.isSome then refuse (.duplicateField tag)
      collect (some (← formOfTag r)) others ms
    else
      let v ← ofText (r.value (nestingLimit - 1))
      collect form (others ++ [(k, v)]) ms

/-- An operation on its own: an object, or an array of the kind and the fields. -/
def ofReading : Reading → Decoded (Op Float)
  | .object members ending => do
    let (form, others) ← collect none [] members
    unlessBroken ending.fault?
    match form with
    | some form => ofMembers form others
    | none => refuse (.missingField tag)
  | .array [] ending => do
    unlessBroken ending
    refuse (.missingField tag)
  | .array (first :: items) ending => do
    let form ← formOfTag first
    let items ← items.mapM fun item => ofText (item.value (nestingLimit - 1))
    unlessBroken ending
    form.build (← form.shape.ofItems items)
  | other => do refuse (.wrongType (← other.found) "internally tagged enum Op")

/-! ## Encoding -/

/-- Real numbers as an array. -/
def realList (xs : List Float) : Value := .array (xs.map .real)

/-- The members of an operation besides its kind, in the order of declaration; none for an operation
that is not known. -/
def members? : Op Float → Option (List (String × Value))
  | .image url p => some [("src", .string url), ("x", .real p.x), ("y", .real p.y),
      ("width", .real p.width), ("height", .real p.height), ("opaque", .boolean p.opaqueArt)]
  | .grid h v => some [("numHorizontal", .integer h.value), ("numVertical", .integer v.value)]
  | .scale x y => some [("scaleX", .real x), ("scaleY", .real y)]
  | .rotation r => some [("rotation", .real r)]
  | .origin p => some [("x", .real p.x), ("y", .real p.y)]
  | .alpha a => some [("alpha", .real a)]
  | .fill c => some [("color", .string c)]
  | .stroke c => some [("color", .string c)]
  | .strokeWidth w => some [("width", .real w)]
  | .text s p font r o => some <|
      [("text", .string s), ("x", .real p.x), ("y", .real p.y)] ++
      (font.toList.map fun f => ("font", .string f)) ++
      [("theta", .real r), ("stroke", .boolean o)]
  | .circle p r o => some [("x", .real p.x), ("y", .real p.y), ("radius", .real r),
      ("stroke", .boolean o)]
  | .polygon xs ys o => some [("xPoints", realList xs), ("yPoints", realList ys),
      ("stroke", .boolean o)]
  | .polyline xs ys => some [("xPoints", realList xs), ("yPoints", realList ys)]
  | .spline curve => some curve.members
  | .unknown _ => none

/-- The written form of an operation, its kind first. -/
def value? (op : Op Float) : Option Value :=
  op.members?.map fun members => .object ((tag, .string op.kind) :: members)

/-- Exactly the operations that are not known have no written form. -/
theorem value?_eq_none_iff (op : Op Float) : op.value? = none ↔ op.isUnknown = true := by
  cases op <;> simp [value?, members?, isUnknown]

end Op

namespace Overlay

/-- An overlay as a record with the one field `ops`. -/
def shape : RecordShape Reading := ⟨"struct Overlay", [.of "ops" Op.listOfReading]⟩

/-- Reads an overlay. -/
def ofReading (r : Reading) : Decoded (Overlay Float) := do
  return ⟨← (← shape.ofReading r).get "ops" Op.listOfReading⟩

/-- Decodes an overlay. -/
def decode (text : String) : Decoded (Overlay Float) := decodeText ofReading text

/-- The message for a text that is no overlay. -/
def decodeMessage (e : DecodeError) : String := "malformed overlay: " ++ e.message

/-- Encodes an overlay, unless it holds an operation that is not known. -/
def encode? (o : Overlay Float) : Option String :=
  (o.ops.mapM Op.value?).map fun ops => (Value.object [("ops", .array ops)]).text

/-- The message for an overlay that cannot be encoded. -/
def encodeMessage : String :=
  "overlay cannot be encoded: the enum variant Op::Unknown cannot be serialized"

end Overlay

end FieldDiagram
