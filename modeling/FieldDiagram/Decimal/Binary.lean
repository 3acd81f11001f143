import FieldDiagram.Decimal.Rounding
/-!
# Binary interchange formats

A binary floating point format seen through its bit patterns. The pattern of a number that is not
negative is a natural number, and the order of the patterns is the order of the values, so rounding
into the format is rounding to a pattern. A value is counted in *units*, the format's least positive
number: in them every finite value is a natural number and no exponent is needed.

Main statement: `ofRatio_magnitude`, a value of the format is its own nearest pattern.
-/

namespace FieldDiagram

/-- A binary interchange format with one sign bit in front of the exponent and the fraction. -/
structure BinaryFormat where
  fractionBits : Nat
  exponentBits : Nat
  deriving DecidableEq, Repr

namespace BinaryFormat

/-- Sixty-four bits. -/
def double : BinaryFormat := ⟨52, 11⟩

/-- Thirty-two bits. -/
def single : BinaryFormat := ⟨23, 8⟩

/-- The number of patterns of one binade, which is also the least normal magnitude in units. -/
def binade (f : BinaryFormat) : Nat := 1 <<< f.fractionBits

/-- One is `2 ^ unitBits` units. -/
def unitBits (f : BinaryFormat) : Nat := (1 <<< (f.exponentBits - 1)) + f.fractionBits - 2

/-- The number one in units. -/
def one (f : BinaryFormat) : Nat := 1 <<< f.unitBits

/-- The pattern of positive infinity; smaller patterns are finite, larger ones are no numbers. -/
def infinity (f : BinaryFormat) : Nat := ((1 <<< f.exponentBits) - 1) * f.binade

/-- The pattern of negative zero: the sign bit alone. -/
def signBit (f : BinaryFormat) : Nat := 1 <<< (f.exponentBits + f.fractionBits)

/-- The significand of a pattern as a whole number, the leading bit of a normal number included. -/
def significand (f : BinaryFormat) (pattern : Nat) : Nat :=
  if pattern < f.binade then pattern else f.binade + pattern % f.binade

/-- How far the significand of a pattern is shifted to count units. -/
def shift (f : BinaryFormat) (pattern : Nat) : Nat := pattern / f.binade - 1

/-- The value of a finite pattern without sign, in units. -/
def magnitude (f : BinaryFormat) (pattern : Nat) : Nat :=
  f.significand pattern <<< f.shift pattern

/--
The pattern nearest to `num / den` units, ties to the even significand. In the binade of the
quotient the patterns are `2 ^ shift` units apart; rounding up to the end of the binade lands on
the first pattern of the next one without a further case. Beyond the largest finite value the
result is infinity.
-/
def ofRatio (f : BinaryFormat) (num den : Nat) : Nat :=
  let shift := (num / den).log2 - f.fractionBits
  min (roundHalfEven num (den <<< shift) + shift * f.binade) f.infinity

/-- The bits of a pattern with a sign. -/
def withSign (f : BinaryFormat) (negative : Bool) (pattern : Nat) : Nat :=
  if negative then f.signBit + pattern else pattern

end BinaryFormat

/-- What a floating point number is, with a finite value counted in units of its format. -/
inductive FloatParts where
  | nan
  | infinite (negative : Bool)
  | finite (negative : Bool) (pattern : Nat)
  deriving DecidableEq, Repr

namespace BinaryFormat

/-- Reads the bits of a number. -/
def parts (f : BinaryFormat) (bits : Nat) : FloatParts :=
  let negative := f.signBit ≤ bits
  let pattern := bits % f.signBit
  if pattern < f.infinity then .finite negative pattern
  else if pattern = f.infinity then .infinite negative
  else .nan

theorem binade_pos (f : BinaryFormat) : 0 < f.binade := by
  rw [binade, Nat.one_shiftLeft]
  exact Nat.two_pow_pos _

theorem one_pos (f : BinaryFormat) : 0 < f.one := by
  rw [one, Nat.one_shiftLeft]
  exact Nat.two_pow_pos _

/-- Below the second binade a pattern counts its own units. -/
theorem magnitude_of_lt (f : BinaryFormat) {pattern : Nat} (h : pattern < f.binade) :
    f.magnitude pattern = pattern := by
  simp [magnitude, significand, shift, h, Nat.div_eq_of_lt h]

/-- A significand that fills its binade, shifted, has the pattern counted from the binade's start. -/
theorem magnitude_normal (f : BinaryFormat) {n : Nat} (s : Nat) (lower : f.binade ≤ n)
    (upper : n < 2 * f.binade) : f.magnitude (n + s * f.binade) = n <<< s := by
  have pos := f.binade_pos
  have quotient : (n + s * f.binade) / f.binade = s + 1 := by
    rw [Nat.add_mul_div_right _ _ pos]
    have : n / f.binade = 1 := Nat.div_eq_of_lt_le (by omega) (by omega)
    omega
  have remainder : (n + s * f.binade) % f.binade = n - f.binade := by
    rw [Nat.add_mul_mod_self_right, Nat.mod_eq_sub_mod lower, Nat.mod_eq_of_lt (by omega)]
  have large : ¬ n + s * f.binade < f.binade := by omega
  rw [magnitude, significand, shift, if_neg large, quotient, remainder]
  have : f.binade + (n - f.binade) = n := by omega
  rw [this, Nat.add_sub_cancel]

/-- **A value of the format is its own nearest pattern.** -/
theorem ofRatio_magnitude (f : BinaryFormat) {pattern : Nat} (h : pattern ≤ f.infinity) :
    f.ofRatio (f.magnitude pattern) 1 = pattern := by
  have pos := f.binade_pos
  by_cases small : pattern < f.binade
  · rw [f.magnitude_of_lt small]
    have noShift : pattern.log2 - f.fractionBits = 0 := by
      rcases Nat.eq_zero_or_pos pattern with rfl | positive
      · simp
      · rw [binade, Nat.one_shiftLeft] at small
        have := (Nat.log2_lt (by omega)).2 small
        omega
    have rounded : roundHalfEven (pattern * 1) 1 = pattern := roundHalfEven_mul pattern (by omega)
    rw [Nat.mul_one] at rounded
    simp [ofRatio, noShift, rounded, Nat.min_eq_left h]
  · obtain ⟨n, s, lower, upper, rfl⟩ : ∃ n s, f.binade ≤ n ∧ n < 2 * f.binade ∧
        pattern = n + s * f.binade := by
      refine ⟨f.binade + pattern % f.binade, pattern / f.binade - 1, by omega, ?_, ?_⟩
      · have := Nat.mod_lt pattern pos
        omega
      · have split := Nat.div_add_mod' pattern f.binade
        have quotient : 1 ≤ pattern / f.binade := (Nat.one_le_div_iff pos).2 (by omega)
        have : pattern / f.binade = (pattern / f.binade - 1) + 1 := by omega
        rw [this, Nat.succ_mul] at split
        omega
    rw [f.magnitude_normal s lower upper, Nat.shiftLeft_eq]
    have positive : n * 2 ^ s ≠ 0 := by
      have := Nat.mul_pos (Nat.lt_of_lt_of_le pos lower) (Nat.two_pow_pos s)
      omega
    have log : (n * 2 ^ s).log2 = f.fractionBits + s := by
      rw [Nat.log2_eq_iff positive]
      constructor
      · rw [Nat.pow_add]
        rw [binade, Nat.one_shiftLeft] at lower
        exact Nat.mul_le_mul_right _ lower
      · have : 2 ^ (f.fractionBits + s + 1) = 2 * f.binade * 2 ^ s := by
          rw [show f.fractionBits + s + 1 = (f.fractionBits + 1) + s by omega, Nat.pow_add,
            Nat.pow_succ, Nat.mul_comm (2 ^ f.fractionBits) 2, binade, Nat.one_shiftLeft]
        rw [this]
        exact Nat.mul_lt_mul_of_pos_right upper (Nat.two_pow_pos s)
    simp only [ofRatio, Nat.div_one, log, Nat.add_sub_cancel_left, Nat.one_shiftLeft,
      roundHalfEven_mul n (Nat.two_pow_pos s)]
    exact Nat.min_eq_left h

end BinaryFormat

end FieldDiagram
