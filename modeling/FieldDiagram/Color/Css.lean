import FieldDiagram.Color.Basic
import FieldDiagram.Text.Blank
import FieldDiagram.Text.Hex
/-!
# Colours in style sheet notation

Reading and writing colours as text: `#` with hexadecimal digits, `rgb(…)` and `rgba(…)`, and names.
Blank space around a text and the case of ASCII letters do not matter. A colour is always written in
the `rgba(…)` form.
-/

namespace FieldDiagram.Color

/-- Why a text is no colour. Each case but the first holds the text, trimmed and in small letters. -/
inductive ParseError where
  | empty
  | invalidHex (text : List Char)
  | invalidFunction (text : List Char)
  | unknownName (text : List Char)
  deriving DecidableEq, Repr

/-- The message of an error. -/
def ParseError.message : ParseError → String
  | .empty => "empty color string"
  | .invalidHex text => "invalid hex color `" ++ String.ofList text ++ "`"
  | .invalidFunction text => "invalid color function `" ++ String.ofList text ++ "`"
  | .unknownName text => "unknown color name `" ++ String.ofList text ++ "`"

/-! ## Hexadecimal digits -/

/-- The value of a field of hexadecimal digits; a plus sign may stand in front of them. -/
def hexField? : List Char → Option Nat
  | [] => none
  | '+' :: d :: ds => hexNumber? (d :: ds)
  | ds => hexNumber? ds

/-- Where the channels stand among `length` digits, as start and end of each; `none` where a colour
cannot have that many digits. -/
def hexSlices? : Nat → Option (List (Nat × Nat))
  | 3 => some [(0, 1), (1, 2), (2, 3)]
  | 4 => some [(0, 1), (1, 2), (2, 3), (3, 4)]
  | 6 => some [(0, 2), (2, 4), (4, 6)]
  | 8 => some [(0, 2), (2, 4), (4, 6), (6, 8)]
  | _ => none

/-- The part of a text between two positions. -/
def slice (text : List Char) (bounds : Nat × Nat) : List Char :=
  (text.drop bounds.1).take (bounds.2 - bounds.1)

/-- The byte of one channel. A single digit stands for itself twice. -/
def hexChannel? (text : List Char) (bounds : Nat × Nat) : Option Nat :=
  (hexField? (slice text bounds)).map fun n => if bounds.2 - bounds.1 = 1 then n * 17 else n

/-- The colour of the digits after `#`. The positions of the channels are positions of characters
because a text with a character outside ASCII is refused first. -/
def ofHexDigits? (text : List Char) : Option Color :=
  if text.all (·.toNat < 128) then do
    let bytes ← (← hexSlices? text.length).mapM (hexChannel? text)
    match bytes with
    | [r, g, b] => some (opaqueOfBytes r g b)
    | [r, g, b, a] => some (ofBytes r g b (channelOfByte a))
    | _ => none
  else none

/-! ## Functions -/

/-- The component of a channel written as a number from `0` to `255`. -/
def channelOfNumber (v : Float32) : Float32 :=
  Single.clamp (Single.ofRatio 0 1) (Single.ofRatio 255 1) v / Single.ofRatio 255 1

/-- The colour of a function applied to numbers. -/
def ofFunction? (name : List Char) (arguments : List Float32) : Option Color :=
  match String.ofList name, arguments with
  | "rgb", [r, g, b] =>
    some ⟨channelOfNumber r, channelOfNumber g, channelOfNumber b, Single.ofRatio 1 1⟩
  | "rgba", [r, g, b, a] =>
    some ⟨channelOfNumber r, channelOfNumber g, channelOfNumber b,
      Single.clamp (Single.ofRatio 0 1) (Single.ofRatio 1 1) a⟩
  | _, _ => none

/-- A text without its last character, if that is a closing parenthesis. -/
def dropClosing? (text : List Char) : Option (List Char) :=
  match text.reverse with
  | ')' :: rest => some rest.reverse
  | _ => none

/-- The colour of a text in function form. The first parenthesis ends the name. -/
def ofFunctionText? (text : List Char) : Option Color := do
  let name := text.takeWhile (· ≠ '(')
  let inner ← dropClosing? ((text.dropWhile (· ≠ '(')).drop 1)
  let arguments ← (piecesAt ',' inner).mapM fun piece => Single.ofNumeral? (trim piece)
  ofFunction? (trim name) arguments

/-! ## Names -/

/-- The opaque colours that have a name. -/
def named : List (String × Nat × Nat × Nat) := [
  ("black", 0, 0, 0), ("white", 255, 255, 255), ("red", 255, 0, 0), ("green", 0, 128, 0),
  ("lime", 0, 255, 0), ("blue", 0, 0, 255), ("yellow", 255, 255, 0), ("cyan", 0, 255, 255),
  ("aqua", 0, 255, 255), ("magenta", 255, 0, 255), ("fuchsia", 255, 0, 255),
  ("orange", 255, 165, 0), ("purple", 128, 0, 128), ("pink", 255, 192, 203),
  ("brown", 165, 42, 42), ("gray", 128, 128, 128), ("grey", 128, 128, 128),
  ("silver", 192, 192, 192), ("navy", 0, 0, 128), ("teal", 0, 128, 128), ("maroon", 128, 0, 0),
  ("olive", 128, 128, 0), ("gold", 255, 215, 0)]

/-- The colour of a name. -/
def ofName? (name : String) : Option Color :=
  if name = "transparent" then some (ofBytes 0 0 0 (channelOfByte 0))
  else (named.lookup name).map fun (r, g, b) => opaqueOfBytes r g b

/-! ## Reading and writing -/

/-- Reads a colour whose text is trimmed and in small letters. -/
def ofPlainText (text : List Char) : Except ParseError Color :=
  match text with
  | [] => .error .empty
  | '#' :: hex => (ofHexDigits? hex).elim (.error (.invalidHex text)) .ok
  | _ =>
    if text.contains '(' then (ofFunctionText? text).elim (.error (.invalidFunction text)) .ok
    else (ofName? (String.ofList text)).elim (.error (.unknownName text)) .ok

/-- Reads a colour. -/
def parse (text : String) : Except ParseError Color :=
  ofPlainText ((trim text.toList).map Char.toLower)

/-- Writes a colour. -/
def chars (c : Color) : List Char :=
  "rgba(".toList ++ digits (byteOfChannel c.r) ++ ", ".toList ++ digits (byteOfChannel c.g) ++
    ", ".toList ++ digits (byteOfChannel c.b) ++ ", ".toList ++ Single.plainText c.a ++ [')']

/-- Writes a colour. -/
def text (c : Color) : String := String.ofList c.chars

end FieldDiagram.Color
