import FieldDiagram.Scalar.Basic
import FieldDiagram.Decimal.Float
/-!
# Machine numbers as coordinates

Double precision numbers in round-to-nearest arithmetic. The smaller of a number and no number is the
number.
-/

namespace FieldDiagram

namespace Double

/-- The double nearest to a right angle. -/
def quarterTurn : Float := ofPattern false 0x3FF921FB54442D18

/-- The double nearest to a full circle. -/
def fullTurn : Float := ofPattern false 0x401921FB54442D18

/-- The smaller of two numbers; what is no number is passed over. -/
def least (x y : Float) : Float :=
  if x.isNaN then y else if y < x then y else x

end Double

instance : Scalar Float where
  ofNat n := Double.ofInt n
  lt x y := x < y
  le x y := x ≤ y
  min := Double.least
  abs := Float.abs
  sqrt := Float.sqrt
  hypot := Double.hypot
  sin := Float.sin
  cos := Float.cos
  round := Float.round
  isFinite := Float.isFinite
  quarterTurn := Double.quarterTurn
  fullTurn := Double.fullTurn

end FieldDiagram
