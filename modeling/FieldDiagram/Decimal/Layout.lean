import FieldDiagram.Decimal.Shortest
/-!
# How a decimal number is written

A `Layout` says when a number is written with a power of ten, whether a whole number keeps its
point, and which of two equally near last digits is taken. The library writes numbers in two layouts,
`Layout.data` and `Layout.plain`, and with a fixed number of places.
-/

namespace FieldDiagram

/-- The choices of a written number. -/
structure Layout where
  /-- Whether a number whose first digit stands for `10 ^ scale` is written without a power of ten. -/
  isPositional : Int → Bool
  /-- Whether a number without fraction digits is written with `.0`. -/
  keepsPoint : Bool
  /-- Which digits are taken where two numbers with the fewest digits are equally near. -/
  tie : Tie

namespace Layout

/-- Data files: a power of ten below `10 ^ (-5)` and from `10 ^ 16`, and always a fraction. A tie
goes to the even digit. -/
def data : Layout := ⟨fun scale => -5 ≤ scale ∧ scale < 16, true, .toEven⟩

/-- Texts for people: never a power of ten, and a fraction only where there is one. A tie
goes up. -/
def plain : Layout := ⟨fun _ => true, false, .up⟩

end Layout

/-- The digits of a coefficient with the point put `places` digits before the end. -/
def pointed (ds : List Char) (places : Nat) : List Char :=
  if places < ds.length then
    ds.take (ds.length - places) ++ '.' :: ds.drop (ds.length - places)
  else '0' :: '.' :: List.replicate (places - ds.length) '0' ++ ds

/-- Digits without a power of ten. -/
def positional (keepsPoint : Bool) (ds : List Char) : Int → List Char
  | .ofNat zeros => ds ++ List.replicate zeros '0' ++ if keepsPoint then ['.', '0'] else []
  | .negSucc places => pointed ds (places + 1)

/-- A whole number with its sign, also a plus sign. -/
def signed : Int → List Char
  | .ofNat n => '+' :: digits n
  | .negSucc n => '-' :: digits (n + 1)

/-- Digits with a point after the first one and the power of ten of that first digit; a power that
is not negative shows its plus sign. -/
def scientific (ds : List Char) (scale : Int) : List Char :=
  ds.take 1 ++ (if ds.length ≤ 1 then [] else '.' :: ds.drop 1) ++ 'e' :: signed scale

/-- A decimal number in a layout. -/
def Layout.decimal (l : Layout) (d : Decimal) : List Char :=
  let ds := digits d.coefficient
  let scale := d.exponent + (ds.length - 1 : Nat)
  if l.isPositional scale then positional l.keepsPoint ds d.exponent else scientific ds scale

/-- A minus sign where there is one. -/
def withMinus (negative : Bool) (text : List Char) : List Char :=
  if negative then '-' :: text else text

namespace BinaryFormat

/-- A finite value with the fewest digits that read back. -/
def shortestText (f : BinaryFormat) (l : Layout) (negative : Bool) (pattern : Nat) : List Char :=
  withMinus negative (l.decimal (f.shortest l.tie pattern))

/-- The text of any number, given that of the finite ones. -/
def textWith (f : BinaryFormat) (finite : Bool → Nat → List Char) (bits : Nat) : List Char :=
  match f.parts bits with
  | .nan => "NaN".toList
  | .infinite negative => withMinus negative "inf".toList
  | .finite negative pattern => finite negative pattern

/-- A number as people read it. -/
def plainText (f : BinaryFormat) : Nat → List Char := f.textWith (f.shortestText .plain)

/-- A number with a fixed number of digits after the point, half to even. -/
def fixedText (f : BinaryFormat) (places : Nat) : Nat → List Char :=
  f.textWith fun negative pattern =>
    let ds := digits (f.roundedAt pattern places).coefficient
    withMinus negative (if places = 0 then ds else pointed ds places)

end BinaryFormat

end FieldDiagram
