import FieldDiagram.Decimal.Basic
/-!
# Numerals in texts for people

The numbers that may stand in a colour or a font size: digits with or without a point, at least one
of them, a power of ten after `e`, a sign before either, and the words for infinity and for no
number in any case of letters.
-/

namespace FieldDiagram.Numeral

/-- Takes a sign off a numeral; true means minus. -/
def splitSign : List Char → Bool × List Char
  | '-' :: rest => (true, rest)
  | '+' :: rest => (false, rest)
  | text => (false, text)

/-- A whole number with or without a sign. -/
def exponent? (text : List Char) : Option Int :=
  let (negative, ds) := splitSign text
  if ds ≠ [] ∧ ds.all Char.isDigit then
    some (if negative then -(ofDigits ds : Int) else ofDigits ds)
  else none

/-- The digits after a point, if there is one, and what follows them. -/
def splitFraction : List Char → List Char × List Char
  | '.' :: rest => (rest.takeWhile Char.isDigit, rest.dropWhile Char.isDigit)
  | text => ([], text)

/-- A numeral without sign. -/
def decimal? (text : List Char) : Option Decimal :=
  let whole := text.takeWhile Char.isDigit
  let (fraction, rest) := splitFraction (text.dropWhile Char.isDigit)
  if whole.isEmpty && fraction.isEmpty then none
  else match rest with
    | [] => some (.ofParts whole fraction 0)
    | mark :: power =>
      if mark.toLower = 'e' then (exponent? power).map (.ofParts whole fraction ·) else none

/-- The bits of the value that a numeral stands for. -/
def bits? (f : BinaryFormat) (text : List Char) : Option Nat :=
  let (negative, unsigned) := splitSign text
  let word := String.ofList (unsigned.map Char.toLower)
  if word = "inf" ∨ word = "infinity" then some (f.withSign negative f.infinity)
  else if word = "nan" then some (f.withSign negative (f.infinity + f.binade / 2))
  else (decimal? unsigned).map fun d => f.withSign negative (f.ofDecimal d)

end FieldDiagram.Numeral
