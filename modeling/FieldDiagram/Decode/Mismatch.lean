import FieldDiagram.Color.Css
import FieldDiagram.Json.Value
import FieldDiagram.Text.Quoted
/-!
# What can be wrong with a document

A document is refused because its text is no JSON, or because a value in it has not the shape that is
wanted there. Each cause is a constructor; the wording is in `Mismatch.message`.
-/

namespace FieldDiagram

/-- What stands in a document in place of something else. -/
inductive Found where
  | null
  | boolean (b : Bool)
  | integer (n : Int)
  | real (x : Float)
  | string (s : String)
  | sequence
  | map
  /-- The bare name of a variant that has contents. -/
  | unitVariant

/-- Why a value is refused. -/
inductive Mismatch where
  | missingField (name : String)
  | duplicateField (name : String)
  | wrongType (found : Found) (expected : String)
  | invalidValue (found : Found) (expected : String)
  | invalidLength (length : Nat) (expected : String)
  | unknownVariant (name : String) (known : List String)
  | invalidColor (cause : Color.ParseError)
  | fractionalCount (x : Float)
  /-- Something is wrong with one operation of an overlay. -/
  | inOperation (index : Nat) (kind : String) (cause : Mismatch)

/-- Why a document is refused. -/
inductive DecodeError where
  | fault (f : Json.Fault)
  | mismatch (m : Mismatch)

/-- A name between backquotes. -/
def backquoted (name : String) : String := "`" ++ name ++ "`"

/-- A whole number as it stands in a message. -/
def integerText (n : Int) : String := String.ofList (Json.Number.integer n).chars

/-- What a value is called in a message. -/
def Found.describe : Found → String
  | .null => "null"
  | .boolean b => "boolean " ++ backquoted (if b then "true" else "false")
  | .integer n => "integer " ++ backquoted (integerText n)
  | .real x => "floating point " ++ backquoted (String.ofList (Json.Number.realChars x))
  | .string s => "string " ++ quoted s
  | .sequence => "sequence"
  | .map => "map"
  | .unitVariant => "unit variant"

/-- The message of a mismatch. -/
def Mismatch.message : Mismatch → String
  | .missingField name => "missing field " ++ backquoted name
  | .duplicateField name => "duplicate field " ++ backquoted name
  | .wrongType found expected => "invalid type: " ++ found.describe ++ ", expected " ++ expected
  | .invalidValue found expected => "invalid value: " ++ found.describe ++ ", expected " ++ expected
  | .invalidLength length expected =>
    "invalid length " ++ integerText length ++ ", expected " ++ expected
  | .unknownVariant name known =>
    "unknown variant " ++ backquoted name ++ ", expected one of " ++
      String.intercalate ", " (known.map backquoted)
  | .invalidColor cause => cause.message
  | .fractionalCount x => "expected a whole number, got " ++ String.ofList (Double.plainText x)
  | .inOperation index kind cause =>
    "op " ++ integerText index ++ " (" ++ kind ++ "): " ++ cause.message

/-- The message of an error. -/
def DecodeError.message : DecodeError → String
  | .fault .malformed => "the text is not well-formed"
  | .fault .truncated => "the text ends too early"
  | .mismatch m => m.message

/-- The result of decoding. -/
abbrev Decoded (β : Type) : Type := Except DecodeError β

/-- Refuses a value. -/
def refuse {β : Type} (m : Mismatch) : Decoded β := .error (.mismatch m)

/-- Refuses a text. -/
def broken {β : Type} (f : Json.Fault) : Decoded β := .error (.fault f)

end FieldDiagram
