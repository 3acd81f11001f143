import FieldDiagram.Decimal.Basic
/-!
# Decimal numbers by scaling

The quick way from a decimal number to a machine number, which a reader of data files takes: the
coefficient becomes a machine number, a table has the powers of ten as machine numbers, and one product
or quotient of the two is the result. Each of the three is rounded to the nearest value, so the result is
near the number, but it need not be the nearest value, which is what `BinaryFormat.ofDecimal` finds: the
text `94.08230906077605` is the shortest one for its nearest value and is read as the value below it.
-/

namespace FieldDiagram

namespace BinaryFormat

/-- The product of two values, rounded: units times units are counted in parts of a unit, `one` to each. -/
def mul (f : BinaryFormat) (p q : Nat) : Nat := f.ofRatio (f.magnitude p * f.magnitude q) f.one

/-- The quotient of two values, rounded. -/
def div (f : BinaryFormat) (p q : Nat) : Nat := f.ofRatio (f.magnitude p * f.one) (f.magnitude q)

end BinaryFormat

namespace Double

/-- The exponent of the last power of ten in the table: the next one is no machine number. -/
def lastPower : Nat := 308

/-- The powers of ten in the table. -/
def power (e : Nat) : Nat := BinaryFormat.double.ofDecimal ⟨1, e⟩

/-- A value divided by the last power of ten so many times, until nothing is left of it. -/
def divLastPower : Nat → Nat → Nat
  | 0, pattern => pattern
  | times + 1, pattern =>
    if pattern = 0 then 0 else divLastPower times (BinaryFormat.double.div pattern (power lastPower))

/-- A value times a power of ten, `none` if that is too large. Beyond the table nothing is multiplied any
more, zero apart; but it is divided, by the last power of the table as long as more than that is to go. -/
def scale? (pattern : Nat) : Int → Option Nat
  | .ofNat e =>
    if e ≤ lastPower then
      let product := BinaryFormat.double.mul pattern (power e)
      if product = BinaryFormat.double.infinity then none else some product
    else if pattern = 0 then some 0 else none
  | .negSucc e =>
    some (BinaryFormat.double.div (divLastPower (e / lastPower) pattern) (power (e % lastPower + 1)))

/-- The pattern that a decimal number becomes by scaling. -/
def scaled? (d : Decimal) : Option Nat := scale? (BinaryFormat.double.ofNat d.coefficient) d.exponent

end Double

end FieldDiagram
