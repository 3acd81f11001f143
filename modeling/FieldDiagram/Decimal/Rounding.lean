/-!
# Rounding a quotient to a whole number

Every decision about a last digit in this library is one of the two roundings below, taken on an
exact quotient of natural numbers, so no rounding error enters before the rounding that is asked for.
-/

namespace FieldDiagram

/-- The whole number nearest to `num / den`; a quotient half way between two goes to the even one. -/
def roundHalfEven (num den : Nat) : Nat :=
  let quotient := num / den
  let excess := 2 * (num % den)
  if excess < den then quotient
  else if den < excess then quotient + 1
  else quotient + quotient % 2

/-- The whole number nearest to `num / den`; a quotient half way between two goes to the larger. -/
def roundHalfUp (num den : Nat) : Nat := (2 * num + den) / (2 * den)

/-- Where a number half way between two neighbours goes. -/
inductive Tie where
  | toEven
  | up
  deriving DecidableEq, Repr

/-- The whole number nearest to `num / den`, a tie being broken as asked. -/
def Tie.round : Tie → Nat → Nat → Nat
  | toEven => roundHalfEven
  | up => roundHalfUp

/-- The least whole number that is not below `num / den`. -/
def ceilDiv (num den : Nat) : Nat := (num + den - 1) / den

/-- A whole multiple needs no rounding. -/
theorem roundHalfEven_mul (n : Nat) {den : Nat} (h : 0 < den) :
    roundHalfEven (n * den) den = n := by
  simp [roundHalfEven, Nat.mul_div_cancel n h, h]

/-- Rounding moves a quotient by at most one half: downwards … -/
theorem two_mul_roundHalfEven_le (num : Nat) {den : Nat} (h : 0 < den) :
    2 * (roundHalfEven num den * den) ≤ 2 * num + den := by
  have split := Nat.div_add_mod' num den
  have small := Nat.mod_lt num h
  unfold roundHalfEven
  dsimp only
  generalize num / den = q at *
  generalize num % den = r at *
  have next : (q + 1) * den = q * den + den := Nat.succ_mul q den
  split
  · omega
  · split
    · omega
    · rcases Nat.mod_two_eq_zero_or_one q with even | odd
      · rw [even, Nat.add_zero]; omega
      · rw [odd]; omega

/-- … and upwards. -/
theorem le_two_mul_roundHalfEven (num : Nat) {den : Nat} (h : 0 < den) :
    2 * num ≤ 2 * (roundHalfEven num den * den) + den := by
  have split := Nat.div_add_mod' num den
  have small := Nat.mod_lt num h
  unfold roundHalfEven
  dsimp only
  generalize num / den = q at *
  generalize num % den = r at *
  have next : (q + 1) * den = q * den + den := Nat.succ_mul q den
  split
  · omega
  · split
    · omega
    · rcases Nat.mod_two_eq_zero_or_one q with even | odd
      · rw [even, Nat.add_zero]; omega
      · rw [odd]; omega

/-- The square root of `n` rounded down, by Newton's iteration from a start that is not below it. -/
def rootFrom (n guess : Nat) : Nat :=
  let next := (guess + n / guess) / 2
  if next < guess then rootFrom n next else guess
termination_by guess

/-- The square root of `n`, rounded down. -/
def floorRoot (n : Nat) : Nat := rootFrom n (1 <<< (n.log2 / 2 + 1))

end FieldDiagram
