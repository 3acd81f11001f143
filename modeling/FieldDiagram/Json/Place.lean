import FieldDiagram.Json.Reading
/-!
# Places in a text

Where a reader stands in a text, told as line and column. A place is given by the text that is left.
-/

namespace FieldDiagram.Json

/-- A line, counted from one, and the number of bytes before a place in it. -/
structure Location where
  line : Nat
  column : Nat
  deriving DecidableEq, Repr

/-- The location after some text. -/
def Location.after (text : List Char) : Location where
  line := text.count '\n' + 1
  column := byteCount (text.reverse.takeWhile (· ≠ '\n'))

/-- The location in a text with so much of it left. -/
def Location.before (text left : List Char) : Location :=
  .after (text.take (text.length - left.length))

/-- A location in a message. -/
def Location.text (l : Location) : String :=
  "line " ++ String.ofList (digits l.line) ++ " column " ++ String.ofList (digits l.column)

/-- The text that is left after each token. -/
def tokenEnds (text : List Char) : List (List Char) :=
  match text with
  | [] => []
  | c :: rest =>
    if isSpace c then tokenEnds rest
    else (scanToken c rest).2 :: tokenEnds (scanToken c rest).2
termination_by text.length
decreasing_by
  · simp
  · have := length_scanToken c rest
    simp only [List.length_cons]
    omega

mutual

/-- The number of tokens of a complete value. -/
def Reading.tokenCount : Reading → Nat
  | .array items _ => 2 + (items.length - 1) + itemsTokenCount items
  | .object members _ => 2 + (members.length - 1) + membersTokenCount members
  | _ => 1

/-- The number of tokens of items without the commas between them. -/
def itemsTokenCount : List Reading → Nat
  | [] => 0
  | x :: xs => x.tokenCount + itemsTokenCount xs

/-- The number of tokens of members without the commas between them. -/
def membersTokenCount : List (StringToken × Reading) → Nat
  | [] => 0
  | (_, v) :: ms => 2 + v.tokenCount + membersTokenCount ms

end

/-- Where a reader stands when it refuses something, told by the token in question. -/
inductive Stop where
  /-- In front of an array or object that it wants nothing of. -/
  | before (token : Nat)
  /-- Behind a number, a string or a word. -/
  | after (token : Nat)
  /-- Behind a token and, where the object ends there, behind its end. -/
  | endOfObject (token : Nat)
  /-- Behind a token and, where the array ends there, behind its end; else behind the comma. -/
  | endOfArray (token : Nat)

/-- The text without blank space in front. -/
def skipSpace (text : List Char) : List Char := text.dropWhile isSpace

namespace Stop

/-- The text that is left at a stop. -/
def left (text : List Char) : Stop → List Char
  | before 0 => skipSpace text
  | before (token + 1) => skipSpace (textAfter token)
  | after token => textAfter token
  | endOfObject token =>
    match skipSpace (textAfter token) with
    | '\x7d' :: rest => rest
    | rest => rest
  | endOfArray token =>
    match skipSpace (textAfter token) with
    | ']' :: rest => rest
    | ',' :: rest => skipSpace rest
    | rest => rest
where
  /-- The text that is left after a token. -/
  textAfter (token : Nat) : List Char := ((tokenEnds text)[token]?).getD []

/-- The location of a stop. -/
def location (text : List Char) (s : Stop) : Location := .before text (s.left text)

end Stop

end FieldDiagram.Json
