import FieldDiagram.Decode.Mismatch
import FieldDiagram.Json.Place
/-!
# Shapes of values

How a value is taken from a document: numbers, texts and truth values, lists of numbers, records and
variants. Decoders of a `Json.Reading` meet the parts of a document in the order of its text and
report the first thing that is wrong, be it a shape or the text itself; a `Json.Value` is complete, so
only its shape can be wrong.
-/

namespace FieldDiagram

open Json (Fault Reading Value StringToken)

/-! ## What stands at a place -/

/-- A result of reading as a result of decoding. -/
def ofText {β : Type} : Except Fault β → Decoded β
  | .ok x => .ok x
  | .error f => broken f

/-- What a value is when something else is wanted. -/
def Json.Value.found : Value → Found
  | .null => .null
  | .boolean b => .boolean b
  | .number (.integer n) => .integer n
  | .number (.real x) => .real x
  | .string s => .string s
  | .array _ => .sequence
  | .object _ => .map

/-- What stands in a text. The contents of arrays and objects are not looked at. -/
def Json.Reading.found : Reading → Decoded Found
  | .defect d => broken d.whenWanted
  | .null => .ok .null
  | .boolean b => .ok (.boolean b)
  | .number n =>
    match Json.Number.ofToken? n with
    | some n => .ok (Value.number n).found
    | none => broken .malformed
  | .string s => (ofText s.text).map .string
  | .array _ _ => .ok .sequence
  | .object _ _ => .ok .map

namespace Found

/-- A real number; any number will do. -/
def toReal : Found → Decoded Float
  | .integer n => .ok (Double.ofInt n)
  | .real x => .ok x
  | other => refuse (.wrongType other "f64")

/-- A text. -/
def toText : Found → Decoded String
  | .string s => .ok s
  | other => refuse (.wrongType other "a string")

/-- A truth value. -/
def toFlag : Found → Decoded Bool
  | .boolean b => .ok b
  | other => refuse (.wrongType other "a boolean")

/-- A text, or nothing where `null` stands. -/
def toOptionalText : Found → Decoded (Option String)
  | .null => .ok none
  | other => other.toText.map some

/-- A whole number from one on that a machine word can hold. -/
def toPositive : Found → Decoded { n : Nat // 0 < n }
  | .integer (.ofNat (n + 1)) => .ok ⟨n + 1, Nat.succ_pos n⟩
  | .integer n => refuse (.invalidValue (.integer n) "a nonzero usize")
  | other => refuse (.wrongType other "a nonzero usize")

end Found

/-- A colour, written as a text. -/
def Found.toColor (found : Found) : Decoded Color := do
  match Color.parse (← found.toText) with
  | .ok color => return color
  | .error cause => refuse (.invalidColor cause)

namespace Json.Reading

/-- Reads a real number. -/
def real (r : Reading) : Decoded Float := do (← r.found).toReal

/-- Reads a text. -/
def text (r : Reading) : Decoded String := do (← r.found).toText

/-- Reads a truth value. -/
def flag (r : Reading) : Decoded Bool := do (← r.found).toFlag

/-- Reads a whole number from one on. -/
def positive (r : Reading) : Decoded { n : Nat // 0 < n } := do (← r.found).toPositive

/-- Reads a colour. -/
def color (r : Reading) : Decoded Color := do (← r.found).toColor

end Json.Reading

/-! ## Lists -/

/-- What a fault that there may be says of a text. -/
def unlessBroken (fault : Option Fault) : Decoded Unit := fault.elim (.ok ()) broken

/-- The items of an array of any length. -/
def Json.Reading.list {β : Type} (decode : Reading → Decoded β) : Reading → Decoded (List β)
  | .array items ending => do
    let xs ← items.mapM decode
    unlessBroken ending
    return xs
  | other => do refuse (.wrongType (← other.found) "a sequence")

/-- A list of real numbers of a definite length. -/
def Json.Reading.reals (length : Nat) (expected : String) : Reading → Decoded (List Float)
  | .array items ending => do
    let xs ← (items.take length).mapM real
    -- a reader that has all it wants does not look at a further item, only that there is one
    if length < items.length then broken .malformed
    unlessBroken ending
    if items.length < length then refuse (.invalidLength items.length expected)
    return xs
  | other => do refuse (.wrongType (← other.found) expected)

/-- A list of real numbers of any length. -/
def Json.Value.reals : Value → Decoded (List Float)
  | .array items => items.mapM (·.found.toReal)
  | other => refuse (.wrongType other.found "a sequence")

/-! ## Records -/

/-- A field of a record: its name and whether a value will do for it. -/
structure Field (ν : Type) where
  name : String
  check : ν → Decoded Unit

/-- The field whose values are decoded in this way. -/
def Field.of {ν β : Type} (name : String) (decode : ν → Decoded β) : Field ν :=
  ⟨name, fun v => (decode v).map fun _ => ()⟩

/-- A kind of record: what it is called in messages, and its fields in the order of declaration. -/
structure RecordShape (ν : Type) where
  title : String
  fields : List (Field ν)

/-- The fields of a record that are present, each once and each of the right shape. -/
structure Fields (ν : Type) where
  entries : List (String × ν)
  /-- What to say about a field that is absent. -/
  absent : String → Mismatch

namespace Fields

variable {ν β : Type}

/-- The value of a field that has to be present. -/
def get (fs : Fields ν) (name : String) (decode : ν → Decoded β) : Decoded β :=
  match fs.entries.lookup name with
  | some v => decode v
  | none => refuse (fs.absent name)

/-- The value of a field that may be absent. -/
def getD (fs : Fields ν) (name : String) (decode : ν → Decoded β) (default : β) : Decoded β :=
  match fs.entries.lookup name with
  | some v => decode v
  | none => .ok default

end Fields

/-- A number of elements in a message. -/
def elementCount (n : Nat) : String :=
  integerText n ++ if n = 1 then " element" else " elements"

namespace RecordShape

variable {ν κ : Type}

/-- A record by its members in their order: a known name may stand once, and its value must do for the
field; the value of any other name is skipped. -/
def collect (shape : RecordShape ν) (name : κ → Decoded String) (skip : ν → Decoded Unit) :
    List (String × ν) → List (κ × ν) → Decoded (List (String × ν))
  | seen, [] => .ok seen
  | seen, (k, v) :: ms => do
    let k ← name k
    match shape.fields.find? (·.name = k) with
    | none =>
      skip v
      collect shape name skip seen ms
    | some field =>
      -- a repetition is refused by its name alone, whatever its value is
      if (seen.lookup k).isSome then refuse (.duplicateField k)
      else
        field.check v
        collect shape name skip (seen ++ [(k, v)]) ms

/-- A record by its first fields in the order of declaration. -/
def align (shape : RecordShape ν) (items : List ν) : Decoded (List (String × ν)) :=
  (shape.fields.zip items).mapM fun (field, v) => do
    field.check v
    return (field.name, v)

/-- Fields by name. -/
def byName (entries : List (String × ν)) : Fields ν := ⟨entries, .missingField⟩

/-- Fields by position. -/
def byPosition (shape : RecordShape ν) (entries : List (String × ν)) : Fields ν :=
  ⟨entries, fun _ => .invalidLength entries.length
    (shape.title ++ " with " ++ elementCount shape.fields.length)⟩

/-- Takes a record from a text, where it is an object or an array of its fields. -/
def ofReading (shape : RecordShape Reading) : Reading → Decoded (Fields Reading)
  | .array items ending => do
    let entries ← shape.align items
    if shape.fields.length < items.length then broken .malformed
    unlessBroken ending
    return shape.byPosition entries
  | .object members ending => do
    let entries ← shape.collect (fun name => ofText name.text)
      (fun v => unlessBroken v.firstFault?) [] members
    unlessBroken ending.fault?
    return byName entries
  | other => do refuse (.wrongType (← other.found) shape.title)

/-- Takes a record from the members of an object. -/
def ofMembers (shape : RecordShape Value) (members : List (String × Value)) :
    Decoded (Fields Value) :=
  (shape.collect (fun name : String => .ok name) (fun _ => .ok ()) [] members).map byName

/-- Takes a record from a list of its fields. -/
def ofItems (shape : RecordShape Value) (items : List Value) : Decoded (Fields Value) := do
  let entries ← shape.align items
  if shape.fields.length < items.length then
    refuse (.invalidLength items.length (elementCount shape.fields.length ++ " in sequence"))
  return shape.byPosition entries

end RecordShape

/-! ## Where a record is refused -/

/-- Where a reader stands when it refuses the value that starts with a token. Whether a text is a
colour is asked only after the reader has gone on to what follows, `closing`. -/
def Json.Reading.stop (r : Reading) (token : Nat) (closing : Nat → Json.Stop) :
    Mismatch → Json.Stop
  | .invalidColor _ => closing token
  | _ =>
    match r with
    | .array _ _ => .before token
    | .object _ _ => .before token
    | _ => .after token

namespace RecordShape

/-- Where a reader stands when it refuses one of the members from a token on. -/
def memberStop? (shape : RecordShape Reading) (token : Nat) (seen : List String) :
    List (StringToken × Reading) → Option Json.Stop
  | [] => none
  | (k, v) :: ms =>
    match k.text with
    | .error _ => none
    | .ok name =>
      let next := token + v.tokenCount + 3
      match shape.fields.find? (·.name = name) with
      | none => memberStop? shape next seen ms
      | some field =>
        if seen.contains name then some (.endOfObject token)
        else match field.check v with
          | .ok () => memberStop? shape next (name :: seen) ms
          | .error (.mismatch m) => some (v.stop (token + 2) .endOfObject m)
          | .error (.fault _) => none

/-- Where a reader stands when it refuses one of the items from a token on. -/
def itemStop? (token : Nat) : List (Field Reading × Reading) → Option Json.Stop
  | [] => none
  | (field, v) :: rest =>
    match field.check v with
    | .ok () => itemStop? (token + v.tokenCount + 1) rest
    | .error (.mismatch m) => some (v.stop token .endOfArray m)
    | .error (.fault _) => none

/-- Where a reader stands when it refuses a part of a record, or the whole of it. -/
def stop? (shape : RecordShape Reading) : Reading → Option Json.Stop
  | .object members _ => shape.memberStop? 1 [] members
  | .array items _ => itemStop? 1 (shape.fields.zip items)
  | _ => some (.after 0)

end RecordShape

/-! ## Variants -/

/-- What stands beside the name of a variant: nothing where the name stands alone. -/
abbrev VariantContents : Type := Option Reading

/-- Refuses a variant that is not known. -/
def knownVariant (known : List String) (name : String) : Decoded Unit :=
  if known.contains name then .ok () else refuse (.unknownVariant name known)

/-- Takes a variant from a text, where it is a bare name or an object with the name as its only
member. -/
def Json.Reading.variant {β : Type} (known : List String)
    (decode : String → VariantContents → Decoded β) : Reading → Decoded β
  | .string s => do
    let name ← ofText s.text
    knownVariant known name
    decode name none
  | .object [] (.unnamed f) => broken f
  | .object ((k, v) :: more) ending => do
    let name ← ofText k.text
    knownVariant known name
    let x ← decode name (some v)
    -- after the first member nothing but the closing brace can stand
    if !more.isEmpty then broken .malformed
    match ending with
    | .closed => return x
    | .fault f => broken f
    | .unnamed _ => broken .malformed
  | .defect d => broken d.whenVariant
  -- whatever else stands here is refused by its first character, as is a name that is no string
  | _ => broken .malformed

/-- A variant without contents; `null` may stand for them. -/
def unitVariant {β : Type} (x : β) : VariantContents → Decoded β
  | none => .ok x
  | some v => do
    match ← v.found with
    | .null => return x
    | other => refuse (.wrongType other "unit")

/-- A variant with one value. -/
def valueVariant {β : Type} (decode : Reading → Decoded β) : VariantContents → Decoded β
  | none => refuse (.wrongType .unitVariant "newtype variant")
  | some v => decode v

/-- A variant with fields. -/
def recordVariant {β : Type} (decode : Reading → Decoded β) : VariantContents → Decoded β
  | none => refuse (.wrongType .unitVariant "struct variant")
  | some v => decode v

/-! ## Texts -/

/-- Decodes a text that holds one value and nothing else but blank space. -/
def decodeText {β : Type} (decode : Reading → Decoded β) (text : String) : Decoded β := do
  let (reading, rest) := Json.read text
  let x ← decode reading
  if rest.isEmpty then return x else broken .malformed

end FieldDiagram
