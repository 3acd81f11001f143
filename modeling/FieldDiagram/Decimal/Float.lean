import FieldDiagram.Decimal.Layout
import FieldDiagram.Decimal.Numeral
/-!
# Machine numbers

The two machine types as values of their formats: taking them apart, reading and writing them, and
rounding them to whole numbers within given bounds. All of it goes through the bits, so each result
is exact and can be computed in a proof.
-/

namespace FieldDiagram

namespace Double

/-- What a number is. -/
def parts (x : Float) : FloatParts := BinaryFormat.double.parts x.toBits.toNat

/-- The number with these bits. -/
def ofBits (bits : Nat) : Float := Float.ofBits (UInt64.ofNat bits)

/-- The number with this sign and pattern. -/
def ofPattern (negative : Bool) (pattern : Nat) : Float :=
  ofBits (BinaryFormat.double.withSign negative pattern)

/-- The number nearest to a whole number. -/
def ofInt (n : Int) : Float := ofPattern (n < 0) (BinaryFormat.double.ofNat n.natAbs)

/-- The number that a numeral stands for. -/
def ofNumeral? (text : List Char) : Option Float := (Numeral.bits? .double text).map ofBits

/-- A number as people read it. -/
def plainText (x : Float) : List Char := BinaryFormat.double.plainText x.toBits.toNat

/-- A number with a fixed number of digits after the point. -/
def fixedText (places : Nat) (x : Float) : List Char :=
  BinaryFormat.double.fixedText places x.toBits.toNat

/-- The whole number that a number is. -/
def whole? (x : Float) : Option Int :=
  match parts x with
  | .finite negative pattern =>
    if BinaryFormat.double.isWhole pattern then
      let n : Int := BinaryFormat.double.floor pattern
      some (if negative then -n else n)
    else none
  | _ => none

/-- Forces a whole number into bounds. -/
def clampInt (lower upper n : Int) : Int := max lower (min upper n)

/-- A whole number made from a value by `rounding`, within bounds. No number counts as zero, whatever
the bounds are. -/
def roundWithin (rounding : Nat → Nat) (lower upper : Int) (x : Float) : Int :=
  match parts x with
  | .nan => 0
  | .infinite negative => if negative then lower else upper
  | .finite negative pattern =>
    let n : Int := rounding pattern
    clampInt lower upper (if negative then -n else n)

/-- The length of the vector with these two components, correctly rounded: the square root of the
exact sum of squares. With one component infinite the length is infinite, whatever the other is. -/
def hypot (x y : Float) : Float :=
  match parts x, parts y with
  | .infinite _, _ => ofPattern false BinaryFormat.double.infinity
  | _, .infinite _ => ofPattern false BinaryFormat.double.infinity
  | .finite _ p, .finite _ q => ofPattern false (length (max p q) (min p q))
  | _, _ => ofPattern false (BinaryFormat.double.infinity + BinaryFormat.double.binade / 2)
where
  /-- The length for two patterns, the larger first. Forty binades below the larger one the smaller
  no longer moves the result. The root is taken with guard bits and one more bit that tells
  whether it is exact. -/
  length (p q : Nat) : Nat :=
    let f := BinaryFormat.double
    let apart := f.shift p - f.shift q
    if 40 < apart then p
    else
      let a := f.significand p <<< apart
      let b := f.significand q
      let guard := 10
      let square := (a * a + b * b) <<< (2 * guard)
      let root := floorRoot square
      -- only whether something is left over matters to the rounding, not how much
      let sticky := if root * root = square then 0 else 1
      f.ofRatio ((2 * root + sticky) <<< f.shift q) (1 <<< (guard + 1))

end Double

namespace Single

/-- What a number is. -/
def parts (x : Float32) : FloatParts := BinaryFormat.single.parts x.toBits.toNat

/-- The number with these bits. -/
def ofBits (bits : Nat) : Float32 := Float32.ofBits (UInt32.ofNat bits)

/-- The number nearest to a quotient of natural numbers. -/
def ofRatio (num den : Nat) : Float32 :=
  ofBits (BinaryFormat.single.ofRatio (num * BinaryFormat.single.one) den)

/-- The number that a numeral stands for. -/
def ofNumeral? (text : List Char) : Option Float32 := (Numeral.bits? .single text).map ofBits

/-- A number as people read it. -/
def plainText (x : Float32) : List Char := BinaryFormat.single.plainText x.toBits.toNat

end Single

end FieldDiagram
