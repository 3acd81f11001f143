/-!
# Coordinates

The geometry of a diagram needs a few operations on numbers and no law of any of them. `Scalar`
names them, so that one definition serves machine numbers, which a program computes with, and exact
numbers, about which the geometry can be understood.
-/

namespace FieldDiagram

/-- The operations on coordinates. -/
class Scalar (α : Type) extends Add α, Sub α, Mul α, Div α, Neg α where
  /-- A natural number. -/
  ofNat : Nat → α
  /-- Whether the first number is below the second. -/
  lt : α → α → Bool
  /-- Whether the first number is not above the second. -/
  le : α → α → Bool
  /-- The smaller of two numbers. -/
  min : α → α → α
  /-- The number without its sign. -/
  abs : α → α
  /-- The square root. -/
  sqrt : α → α
  /-- The length of the vector with these components. -/
  hypot : α → α → α
  sin : α → α
  cos : α → α
  /-- The nearest whole number, halves away from zero. -/
  round : α → α
  /-- Whether the number has a finite value. -/
  isFinite : α → Bool
  /-- The angle of a right angle. -/
  quarterTurn : α
  /-- The angle of a full circle. -/
  fullTurn : α

namespace Scalar

variable {α : Type} [Scalar α]

/-- Zero. -/
def zero : α := ofNat 0

/-- One. -/
def one : α := ofNat 1

/-- One half. -/
def half : α := ofNat 1 / ofNat 2

/-- `1`, `-1` or `0` as a number is above, below or at zero. What is no number counts as zero. -/
def sign (v : α) : α :=
  if lt zero v then one else if lt v zero then -one else zero

/-- Whether a number can be an opacity. -/
def isOpacity (v : α) : Bool := le zero v && le v one

/-- Whether a number can be the width of a line. -/
def isWidth (v : α) : Bool := isFinite v && lt zero v

end Scalar

end FieldDiagram
