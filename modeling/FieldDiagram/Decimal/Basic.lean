import FieldDiagram.Decimal.Binary
import FieldDiagram.Decimal.Digits
/-!
# Decimal numbers

A decimal number without sign, and the three ways between it and a binary format: `ofDecimal` reads
it (nearest value), `exactDecimal` writes a value with all its digits, and `roundedAt` writes it
rounded at a given place. Main statement: `ofDecimal_exactDecimal`, nothing is lost by writing all
digits.
-/

namespace FieldDiagram

/-- The number `coefficient · 10 ^ exponent`. -/
structure Decimal where
  coefficient : Nat
  exponent : Int
  deriving DecidableEq, Repr

namespace Decimal

/-- The number written with these digits before and after the point and this power of ten. -/
def ofParts (whole fraction : List Char) (exponent : Int) : Decimal :=
  ⟨ofDigits (whole ++ fraction), exponent - fraction.length⟩

end Decimal

namespace BinaryFormat

/--
The pattern nearest to a decimal number. The two guards only spare the work of writing out a power
of ten for numbers that are certainly beyond the largest value or below half a unit: `10 ^ e` is at
least `2 ^ (3 * e)`.
-/
def ofDecimal (f : BinaryFormat) (d : Decimal) : Nat :=
  if d.coefficient = 0 then 0
  else match d.exponent with
    | .ofNat e =>
      if 1 <<< f.exponentBits < 3 * e then f.infinity
      else f.ofRatio (d.coefficient * Nat.pow 10 e * f.one) 1
    | .negSucc e =>
      if d.coefficient.log2 + f.unitBits + 2 < 3 * (e + 1) then 0
      else f.ofRatio (d.coefficient * f.one) (Nat.pow 10 (e + 1))

/-- All digits of a value: a unit is `5 ^ unitBits` in the last of `unitBits` decimal places. -/
def exactDecimal (f : BinaryFormat) (pattern : Nat) : Decimal :=
  ⟨f.magnitude pattern * Nat.pow 5 f.unitBits, -f.unitBits⟩

/--
A value rounded to a multiple of `10 ^ (-places)`, half to even. A negative number of places rounds
in front of the point.
-/
def roundedAt (f : BinaryFormat) (pattern : Nat) (places : Int) : Decimal :=
  match places with
  | .ofNat p => ⟨roundHalfEven (f.magnitude pattern * Nat.pow 10 p) f.one, -p⟩
  | .negSucc p => ⟨roundHalfEven (f.magnitude pattern) (f.one * Nat.pow 10 (p + 1)), p + 1⟩

/-- A whole number in the format. -/
def ofNat (f : BinaryFormat) (n : Nat) : Nat := f.ofDecimal ⟨n, 0⟩

/-- A value rounded down to a whole number. -/
def floor (f : BinaryFormat) (pattern : Nat) : Nat := f.magnitude pattern / f.one

/-- A value rounded up to a whole number. -/
def ceil (f : BinaryFormat) (pattern : Nat) : Nat := ceilDiv (f.magnitude pattern) f.one

/-- A value rounded to the nearest whole number, halves away from zero. -/
def round (f : BinaryFormat) (pattern : Nat) : Nat := roundHalfUp (f.magnitude pattern) f.one

/-- Whether a value is a whole number. -/
def isWhole (f : BinaryFormat) (pattern : Nat) : Bool := f.magnitude pattern % f.one = 0

/-- Scaling numerator and denominator alike leaves the nearest pattern as it is. -/
theorem ofRatio_mul_right (f : BinaryFormat) (num den : Nat) {k : Nat} (h : 0 < k) :
    f.ofRatio (num * k) (den * k) = f.ofRatio num den := by
  have quotient : num * k / (den * k) = num / den := Nat.mul_div_mul_right num den h
  have rounded : ∀ d, roundHalfEven (num * k) (d * k) = roundHalfEven num d := by
    intro d
    have q : num * k / (d * k) = num / d := Nat.mul_div_mul_right num d h
    have r : num * k % (d * k) = num % d * k := Nat.mul_mod_mul_right k num d
    unfold roundHalfEven
    dsimp only
    rw [q, r, ← Nat.mul_assoc]
    simp only [Nat.mul_lt_mul_right h]
  unfold ofRatio
  dsimp only
  rw [quotient, Nat.shiftLeft_eq, Nat.shiftLeft_eq, Nat.mul_right_comm, rounded]

/-- Nothing is lost by writing all digits. -/
theorem ofDecimal_exactDecimal (f : BinaryFormat) {pattern : Nat} (h : pattern ≤ f.infinity)
    (unit : 0 < f.unitBits) : f.ofDecimal (f.exactDecimal pattern) = pattern := by
  have five : 0 < 5 ^ f.unitBits := Nat.pow_pos (by omega)
  obtain ⟨e, he⟩ : ∃ e, f.unitBits = e + 1 := ⟨f.unitBits - 1, by omega⟩
  have ten : (10 : Nat) ^ (e + 1) = f.one * 5 ^ f.unitBits := by
    rw [← he, one, Nat.one_shiftLeft, ← Nat.mul_pow]
  have exponent : (-(f.unitBits : Int)) = .negSucc e := by omega
  unfold ofDecimal exactDecimal
  simp only [Nat.pow_eq]
  by_cases zero : f.magnitude pattern = 0
  · have own := f.ofRatio_magnitude h
    rw [zero] at own ⊢
    rw [if_pos (by simp)]
    simpa [ofRatio, roundHalfEven] using own
  · have positive : f.magnitude pattern * 5 ^ f.unitBits ≠ 0 := by
      have := Nat.mul_pos (Nat.pos_of_ne_zero zero) five
      omega
    rw [if_neg positive, exponent]
    dsimp only
    rw [if_neg ?guard, ten, Nat.mul_right_comm,
      ofRatio_mul_right f _ _ five]
    · have := f.ofRatio_mul_right (f.magnitude pattern) 1 f.one_pos
      rw [Nat.one_mul] at this
      rw [this]
      exact f.ofRatio_magnitude h
    · have large : 2 ^ (2 * f.unitBits) ≤ f.magnitude pattern * 5 ^ f.unitBits := by
        have four : (2 : Nat) ^ (2 * f.unitBits) ≤ 5 ^ f.unitBits := by
          rw [Nat.pow_mul]
          exact Nat.pow_le_pow_left (by omega) _
        exact Nat.le_trans four (Nat.le_mul_of_pos_left _ (Nat.pos_of_ne_zero zero))
      have := (Nat.le_log2 positive).2 large
      omega

end BinaryFormat

end FieldDiagram
