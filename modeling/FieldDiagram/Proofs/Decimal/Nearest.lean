import FieldDiagram.Proofs.Decimal.Model
import FieldDiagram.Proofs.Decimal.Whole
import Mathlib.Algebra.Order.Field.Rat
import Mathlib.Data.Rat.Lemmas
import Mathlib.Tactic.FieldSimp
import Mathlib.Tactic.Linarith
import Mathlib.Tactic.Positivity
/-!
# The nearest value of a format

`ofDecimal` and `ofRatio` are computed with quotients of natural numbers, and with guards that spare
the work on numbers far beyond the format. The theory of rounding speaks of rational numbers instead:
`nearest` is the pattern nearest to one, and what is proved about it here holds for whatever is computed
with a single rounding.

| what | where |
|---|---|
| the spelling of a decimal number does not matter, its value does | `ofDecimal_eq_nearest` |
| the error is at most half a digit in the last place | `dist_nearest_le` |
| and one part in twice the patterns of a binade, where a digit is worth more than a unit | `dist_nearest_le_part` |
| what is not half a digit beyond the largest finite number is finite | `nearest_lt_infinity` |
| whole numbers with few enough binary digits are kept, and no others | `floor_ofNat_eq_self_iff` |

The last line is an equivalence on purpose. That numbers of few digits are kept says nothing about
the others, and a claim that whole numbers survive a machine number fails exactly at them.
-/

namespace FieldDiagram

/-- The number that a decimal is. -/
def Decimal.value (d : Decimal) : ℚ := d.coefficient * 10 ^ d.exponent

theorem Decimal.value_nonneg (d : Decimal) : 0 ≤ d.value := by
  unfold value
  positivity

namespace BinaryFormat

variable (f : BinaryFormat)

/-- The number that a finite pattern stands for. -/
def value (pattern : Nat) : ℚ := f.magnitude pattern / f.one

theorem value_nonneg (pattern : Nat) : 0 ≤ f.value pattern := by
  unfold value
  positivity

/-- The pattern nearest to a number that is not negative. -/
def nearest (v : ℚ) : Nat := f.ofRatio (v.num.natAbs * f.one) v.den

/-! ## Spellings

A decimal number has many spellings, and each of them reaches `ofRatio` as another quotient: zeros at
its end, a point moved against the power of ten, one of the two guards. All of them are one quotient in
lowest terms, and `ofRatio` does not tell a quotient from that (`ofRatio_congr`). -/

/-- Quotients that are the same have the same nearest pattern. -/
theorem ofRatio_congr {num den num' den' : Nat} (hden : 0 < den) (hden' : 0 < den')
    (h : num * den' = num' * den) : f.ofRatio num den = f.ofRatio num' den' := by
  rw [← f.ofRatio_mul_right num den hden', h, Nat.mul_comm den den', f.ofRatio_mul_right num' den' hden]

theorem nearest_div (num : Nat) {den : Nat} (hden : 0 < den) :
    f.nearest (num / den) = f.ofRatio (num * f.one) den := by
  have hself := Rat.num_div_den ((num : ℚ) / den)
  have hnonneg : 0 ≤ ((num : ℚ) / den).num := Rat.num_nonneg.2 (by positivity)
  have hpos : (0 : ℚ) < den := by exact_mod_cast hden
  have hpos' : (0 : ℚ) < ((num : ℚ) / den).den := by exact_mod_cast Rat.den_pos _
  unfold nearest
  apply f.ofRatio_congr (Rat.den_pos _) hden
  generalize ((num : ℚ) / den).num = n at *
  generalize ((num : ℚ) / den).den = m at *
  lift n to Nat using hnonneg
  rw [div_eq_div_iff hpos'.ne' hpos.ne'] at hself
  have hcross : n * den = num * m := by exact_mod_cast hself
  calc n * f.one * den = n * den * f.one := by ring
    _ = num * f.one * m := by rw [hcross]; ring

theorem nearest_natCast (n : Nat) : f.nearest n = f.ofRatio (n * f.one) 1 := by
  have h := f.nearest_div n Nat.one_pos
  rwa [Nat.cast_one, div_one] at h

theorem nearest_zero : f.nearest 0 = 0 := by
  have h := f.nearest_natCast 0
  rw [Nat.cast_zero, Nat.zero_mul] at h
  rw [h]
  simp [ofRatio, roundHalfEven]

/-- A whole number becomes the pattern nearest to it. -/
theorem ofNat_eq_nearest (n : Nat) : f.ofNat n = f.nearest n := by
  rw [ofNat_eq, nearest_natCast]

/-- Beyond the last binade there is infinity. -/
theorem ofRatio_eq_infinity {num den : Nat}
    (h : (1 <<< f.exponentBits) - 1 ≤ (num / den).log2 - f.fractionBits) :
    f.ofRatio num den = f.infinity := by
  have hle := Nat.mul_le_mul_right f.binade h
  rw [ofRatio]
  apply Nat.min_eq_right
  unfold infinity
  omega

/-- Less than half a unit is nothing. -/
theorem ofRatio_eq_zero {num den : Nat} (h : 2 * num < den) : f.ofRatio num den = 0 := by
  have hquotient : num / den = 0 := Nat.div_eq_of_lt (by omega)
  have hremainder : num % den = num := Nat.mod_eq_of_lt (by omega)
  have hround : roundHalfEven num den = 0 := by
    rw [roundHalfEven, hquotient, hremainder]
    exact if_pos h
  simp [ofRatio, hquotient, hround]

theorem two_pow_three_mul_le (e : Nat) : 2 ^ (3 * e) ≤ 10 ^ e := by
  rw [Nat.pow_mul]
  exact Nat.pow_le_pow_left (by decide) e

/-- The guard of a number with zeros at its end holds only beyond the last binade. -/
theorem ofRatio_of_guard {c e : Nat} (hc : c ≠ 0) (hguard : 1 <<< f.exponentBits < 3 * e) :
    f.ofRatio (c * 10 ^ e * f.one) 1 = f.infinity := by
  apply f.ofRatio_eq_infinity
  have hpow : 2 ^ (3 * e + f.unitBits) ≤ c * 10 ^ e * f.one := by
    rw [Nat.pow_add, ← one_eq]
    apply Nat.mul_le_mul_right
    exact (two_pow_three_mul_le e).trans (Nat.le_mul_of_pos_left _ (Nat.pos_of_ne_zero hc))
  have hne : c * 10 ^ e * f.one ≠ 0 := by
    have := Nat.two_pow_pos (3 * e + f.unitBits)
    omega
  have hlog := (Nat.le_log2 hne).2 hpow
  have hunit : 1 ≤ 1 <<< (f.exponentBits - 1) := by
    rw [Nat.one_shiftLeft]
    exact Nat.two_pow_pos _
  have hbits : f.fractionBits ≤ f.unitBits + 1 := by
    unfold unitBits
    omega
  rw [Nat.div_one]
  omega

/-- The guard of a number with digits behind the point holds only below half a unit. -/
theorem ofRatio_of_guard_below {c e : Nat} (hguard : c.log2 + f.unitBits + 2 < 3 * e) :
    f.ofRatio (c * f.one) (10 ^ e) = 0 := by
  apply f.ofRatio_eq_zero
  have hlt : c < 2 ^ (c.log2 + 1) := Nat.lt_log2_self
  calc 2 * (c * f.one) < 2 * (2 ^ (c.log2 + 1) * f.one) := by
        have := Nat.mul_lt_mul_of_pos_right hlt f.one_pos
        omega
    _ = 2 ^ (c.log2 + f.unitBits + 2) := by rw [one_eq]; ring
    _ ≤ 2 ^ (3 * e) := Nat.pow_le_pow_right (by decide) hguard.le
    _ ≤ 10 ^ e := two_pow_three_mul_le e

/-- **Only the value of a decimal number counts**, not how it is spelled: it becomes the pattern nearest
to its value. -/
theorem ofDecimal_eq_nearest (d : Decimal) : f.ofDecimal d = f.nearest d.value := by
  obtain ⟨c, e⟩ := d
  unfold ofDecimal Decimal.value
  dsimp only
  by_cases hc : c = 0
  · rw [if_pos hc, hc, Nat.cast_zero, zero_mul, nearest_zero]
  rw [if_neg hc]
  -- a guard answers for exponents far out of range without computing the power
  cases e with
  | ofNat e =>
    have hvalue : (c : ℚ) * 10 ^ (Int.ofNat e) = ((c * 10 ^ e : ℕ) : ℚ) := by
      rw [Int.ofNat_eq_natCast, zpow_natCast]
      push_cast
      rfl
    rw [hvalue, nearest_natCast]
    dsimp only
    split
    · next hguard => exact (f.ofRatio_of_guard hc hguard).symm
    · rfl
  | negSucc e =>
    have hvalue : (c : ℚ) * 10 ^ (Int.negSucc e) = c / ((10 ^ (e + 1) : ℕ) : ℚ) := by
      rw [zpow_negSucc, div_eq_mul_inv]
      push_cast
      rfl
    rw [hvalue, nearest_div _ _ (by positivity)]
    dsimp only
    split
    · next hguard => exact (f.ofRatio_of_guard_below hguard).symm
    · rfl

/-! ## Distances

The last place of a rounded number is worth `2 ^ lastPlace` units, and rounding is off by at most half
of that. For numbers with a full significand this is a part of the number itself; below them the last
place is one unit, however small the number is, and there is no such part. So every bound below has two
cases, and which of them a number is in is told by `lastPlace`. -/

/-- The last place of the pattern nearest to a number is worth so many units, as a power of two. -/
def lastPlace (v : ℚ) : Nat := (v.num.natAbs * f.one / v.den).log2 - f.fractionBits

/-- A number that is not negative, in units. -/
theorem natAbs_num_mul_one {v : ℚ} (hv : 0 ≤ v) :
    ((v.num.natAbs * f.one : ℕ) : ℚ) = v * f.one * v.den := by
  have hnum : (v.num.natAbs : ℚ) = v * v.den := by
    rw [Rat.mul_den_eq_num, ← Int.cast_natCast, Int.natAbs_of_nonneg (Rat.num_nonneg.2 hv)]
  rw [Nat.cast_mul, hnum]
  ring

/-- Where the last place is more than a unit, it is one part in the number of significands. -/
theorem binade_mul_lastPlace_le {v : ℚ} (hv : 0 ≤ v) (h : f.lastPlace v ≠ 0) :
    f.binade * 2 ^ f.lastPlace v ≤ v * f.one := by
  have hden : (0 : ℚ) < v.den := by exact_mod_cast v.den_pos
  unfold lastPlace at h
  have hzero : v.num.natAbs * f.one / v.den ≠ 0 := by
    intro hzero
    rw [hzero] at h
    simp at h
  have hlow := (Nat.le_div_iff_mul_le v.den_pos).1 (Nat.log2_self_le hzero)
  have hpow : f.binade * 2 ^ f.lastPlace v = 2 ^ (v.num.natAbs * f.one / v.den).log2 := by
    rw [binade_eq, ← Nat.pow_add, lastPlace, Nat.add_sub_cancel' (by omega)]
  rw [← hpow] at hlow
  have hcast : (f.binade * 2 ^ f.lastPlace v : ℚ) * v.den ≤ (v.num.natAbs * f.one : ℕ) := by
    exact_mod_cast hlow
  rw [f.natAbs_num_mul_one hv] at hcast
  exact le_of_mul_le_mul_right hcast hden

/-- A number that fills so many binary digits has its last place that far up. -/
theorem le_lastPlace {v : ℚ} {k : Nat} (h : 2 ^ (f.fractionBits + k) ≤ v * f.one) : k ≤ f.lastPlace v := by
  have hpow : (0 : ℚ) < 2 ^ (f.fractionBits + k) := by positivity
  have hone : (0 : ℚ) < f.one := by exact_mod_cast f.one_pos
  have hv : 0 ≤ v := (pos_of_mul_pos_left (hpow.trans_le h) hone.le).le
  have hden : (0 : ℚ) ≤ v.den := Nat.cast_nonneg _
  have hscaled := mul_le_mul_of_nonneg_right h hden
  rw [← f.natAbs_num_mul_one hv] at hscaled
  have hquotient : 2 ^ (f.fractionBits + k) ≤ v.num.natAbs * f.one / v.den :=
    (Nat.le_div_iff_mul_le v.den_pos).2 (by exact_mod_cast hscaled)
  have hne : v.num.natAbs * f.one / v.den ≠ 0 := by
    have := Nat.two_pow_pos (f.fractionBits + k)
    omega
  have hlog := (Nat.le_log2 hne).2 hquotient
  unfold lastPlace
  omega

section Finite

variable {f} {v : ℚ} (hfinite : f.nearest v < f.infinity)

include hfinite

/-- A nearest pattern has no digits behind its last place. -/
theorem dvd_magnitude_nearest : 2 ^ f.lastPlace v ∣ f.magnitude (f.nearest v) := by
  rw [nearest, f.magnitude_ofRatio hfinite]
  exact Nat.dvd_mul_left _ _

/-- **Rounding moves a number by at most half a digit in the last place.** -/
theorem dist_nearest_le (hv : 0 ≤ v) :
    2 * f.one * |f.value (f.nearest v) - v| ≤ 2 ^ f.lastPlace v := by
  have hone : (0 : ℚ) < f.one := by exact_mod_cast f.one_pos
  have hden : (0 : ℚ) < v.den := by exact_mod_cast v.den_pos
  have hunits := f.natAbs_num_mul_one hv
  have hpos : 0 < v.den * 2 ^ f.lastPlace v := Nat.mul_pos v.den_pos (Nat.two_pow_pos _)
  have hround : roundHalfEven (v.num.natAbs * f.one) (v.den * 2 ^ f.lastPlace v) *
      (v.den * 2 ^ f.lastPlace v) = f.magnitude (f.nearest v) * v.den := by
    rw [nearest, f.magnitude_ofRatio hfinite, Nat.shiftLeft_eq, lastPlace]
    ring
  have hupper := two_mul_roundHalfEven_le (v.num.natAbs * f.one) hpos
  have hlower := le_two_mul_roundHalfEven (v.num.natAbs * f.one) hpos
  rw [hround] at hupper hlower
  -- the same without the denominator
  have habove : 2 * (f.magnitude (f.nearest v) : ℚ) ≤ 2 * (v * f.one) + 2 ^ f.lastPlace v := by
    have hcast : (2 : ℚ) * (f.magnitude (f.nearest v) * v.den) ≤
        2 * (v.num.natAbs * f.one : ℕ) + v.den * 2 ^ f.lastPlace v := by
      exact_mod_cast hupper
    rw [hunits] at hcast
    apply le_of_mul_le_mul_right _ hden
    linarith
  have hbelow : 2 * (v * f.one) ≤ 2 * (f.magnitude (f.nearest v) : ℚ) + 2 ^ f.lastPlace v := by
    have hcast : (2 : ℚ) * (v.num.natAbs * f.one : ℕ) ≤
        2 * (f.magnitude (f.nearest v) * v.den) + v.den * 2 ^ f.lastPlace v := by
      exact_mod_cast hlower
    rw [hunits] at hcast
    apply le_of_mul_le_mul_right _ hden
    linarith
  have hunfold : 2 * f.one * (f.value (f.nearest v) - v) =
      2 * f.magnitude (f.nearest v) - 2 * (v * f.one) := by
    rw [value, mul_sub, mul_assoc, mul_div_cancel₀ _ hone.ne']
    ring
  have habs : 2 * f.one * |f.value (f.nearest v) - v| =
      |2 * f.magnitude (f.nearest v) - 2 * (v * f.one)| := by
    rw [← hunfold, abs_mul, abs_of_pos (mul_pos two_pos hone)]
  rw [habs, abs_le]
  constructor
  · linarith
  · linarith

/-- **Where the last place is worth more than a unit**, rounding moves a number by at most one part in twice
the number of patterns of a binade: this is the bound that products and quotients keep. -/
theorem dist_nearest_le_part (hv : 0 ≤ v) (hplace : f.lastPlace v ≠ 0) :
    2 * f.binade * |f.value (f.nearest v) - v| ≤ v := by
  have hone : (0 : ℚ) < f.one := by exact_mod_cast f.one_pos
  have hbinade : (0 : ℚ) ≤ f.binade := Nat.cast_nonneg _
  have hlow := f.binade_mul_lastPlace_le hv hplace
  apply le_of_mul_le_mul_right _ hone
  calc 2 * f.binade * |f.value (f.nearest v) - v| * f.one
      = f.binade * (2 * f.one * |f.value (f.nearest v) - v|) := by ring
    _ ≤ f.binade * 2 ^ f.lastPlace v :=
        mul_le_mul_of_nonneg_left (dist_nearest_le hfinite hv) hbinade
    _ ≤ v * f.one := hlow

/-- Where the last place is a unit, the pattern stands in front of the third binade. -/
theorem magnitude_nearest_le (h : f.lastPlace v = 0) : f.magnitude (f.nearest v) ≤ 2 * f.binade := by
  have hround := f.roundHalfEven_le_binade (v.num.natAbs * f.one) v.den
  unfold lastPlace at h
  rw [nearest, f.magnitude_ofRatio hfinite, h, Nat.pow_zero, Nat.mul_one]
  rwa [h] at hround

end Finite

/-! ### Overflow

The first number that becomes infinite lies half a digit beyond the largest finite one, where rounding
would reach the next power of two. -/

/-- How far the significand of the largest finite number is shifted. -/
def lastShift : Nat := 1 <<< f.exponentBits - 3

/-- What is too large: half a digit beyond the largest finite number. -/
def overflow : ℚ := (4 * f.binade - 1) * 2 ^ f.lastShift / (2 * f.one)

theorem infinity_eq (hbits : 2 ≤ f.exponentBits) : f.infinity = (f.lastShift + 2) * f.binade := by
  have hfew : 4 ≤ 1 <<< f.exponentBits := by
    rw [Nat.one_shiftLeft]
    exact Nat.pow_le_pow_right (n := 2) (by decide) hbits
  rw [infinity, lastShift]
  congr 1
  omega

/-- What becomes infinite lies beyond the last binade, or in it, and then it is rounded up to its end. -/
theorem place_of_infinite (hbits : 2 ≤ f.exponentBits) {v : ℚ} (h : f.infinity ≤ f.nearest v) :
    f.lastShift < f.lastPlace v ∨ f.lastPlace v = f.lastShift ∧
      2 * f.binade ≤ roundHalfEven (v.num.natAbs * f.one) (v.den * 2 ^ f.lastShift) := by
  have hpattern : (f.lastShift + 2) * f.binade ≤
      roundHalfEven (v.num.natAbs * f.one) (v.den <<< f.lastPlace v) + f.lastPlace v * f.binade := by
    rw [nearest, ofRatio, f.infinity_eq hbits] at h
    unfold lastPlace
    omega
  have hround : roundHalfEven (v.num.natAbs * f.one) (v.den <<< f.lastPlace v) ≤ 2 * f.binade :=
    f.roundHalfEven_le_binade _ _
  rw [Nat.add_mul] at hpattern
  rcases Nat.lt_trichotomy f.lastShift (f.lastPlace v) with hlt | heq | hgt
  · exact Or.inl hlt
  · right
    refine ⟨heq.symm, ?_⟩
    rw [heq, ← Nat.shiftLeft_eq]
    rw [heq] at hpattern
    omega
  · -- a binade is missing, and rounding does not make up for it
    have hmul := Nat.mul_le_mul_right f.binade hgt
    have hpos := f.binade_pos
    rw [Nat.succ_mul] at hmul
    omega

/-- **What is not too large is finite.** -/
theorem nearest_lt_infinity {v : ℚ} (hv : 0 ≤ v) (hbits : 2 ≤ f.exponentBits)
    (hrange : v < f.overflow) : f.nearest v < f.infinity := by
  have hone : (0 : ℚ) < f.one := by exact_mod_cast f.one_pos
  have h := (lt_div_iff₀ (mul_pos two_pos hone)).1 hrange
  by_contra hinfinite
  -- a pattern at infinity is in a binade too high, or it is the full last binade rounded up
  rcases f.place_of_infinite hbits (Nat.le_of_not_lt hinfinite) with hlt | ⟨-, hfull⟩
  · have hlow := f.binade_mul_lastPlace_le hv (by omega)
    have hpow : (2 : ℚ) ^ (f.lastShift + 1) ≤ 2 ^ f.lastPlace v :=
      pow_le_pow_right₀ (by norm_num) hlt
    have hmul := mul_le_mul_of_nonneg_left hpow (Nat.cast_nonneg f.binade)
    rw [pow_succ] at hmul
    have hpos : (0 : ℚ) < 2 ^ f.lastShift := by positivity
    linarith
  · have hden : (0 : ℚ) < v.den := by exact_mod_cast v.den_pos
    have hpos : 0 < v.den * 2 ^ f.lastShift := Nat.mul_pos v.den_pos (Nat.two_pow_pos _)
    have hupper := two_mul_roundHalfEven_le (v.num.natAbs * f.one) hpos
    have hmul := Nat.mul_le_mul_right (v.den * 2 ^ f.lastShift) hfull
    have hcast : (2 * (2 * f.binade * (v.den * 2 ^ f.lastShift)) : ℚ) ≤
        2 * (v.num.natAbs * f.one : ℕ) + v.den * 2 ^ f.lastShift := by
      exact_mod_cast (Nat.mul_le_mul_left 2 hmul).trans hupper
    rw [f.natAbs_num_mul_one hv] at hcast
    have hscaled := mul_lt_mul_of_pos_right h hden
    linarith

/-! ## Whole numbers

A whole number is kept by the format when its binary digits between the first and the last one fit
a significand, and a number with no digits behind its last place is not moved by rounding. -/

theorem value_of_isWhole {pattern : Nat} (h : f.isWhole pattern = true) :
    f.value pattern = f.floor pattern := by
  have hone : (f.one : ℚ) ≠ 0 := by exact_mod_cast f.one_pos.ne'
  rw [value, floor, Nat.cast_div (Nat.dvd_of_mod_eq_zero (of_decide_eq_true h)) hone]

/-- So large numbers have no digits behind the point. -/
theorem isWhole_nearest_of_le {v : ℚ} (hfinite : f.nearest v < f.infinity) (h : f.binade ≤ v) :
    f.isWhole (f.nearest v) = true := by
  have hplace : f.unitBits ≤ f.lastPlace v := by
    apply f.le_lastPlace
    rw [pow_add]
    have hscaled := mul_le_mul_of_nonneg_right h (Nat.cast_nonneg (α := ℚ) f.one)
    rw [binade_eq, one_eq] at hscaled
    rw [one_eq]
    exact_mod_cast hscaled
  apply decide_eq_true
  apply Nat.mod_eq_zero_of_dvd
  rw [one_eq]
  exact (Nat.pow_dvd_pow 2 hplace).trans (dvd_magnitude_nearest hfinite)

/-- A number whose nearest pattern is a whole number is off from it by at most one part in twice the number
of patterns of a binade, unless it is so small that nothing of it is left. -/
theorem dist_floor_nearest {v : ℚ} (hv : 0 ≤ v) (hfinite : f.nearest v < f.infinity)
    (hfew : 2 * f.binade < f.one) (hwhole : f.isWhole (f.nearest v) = true) :
    2 * f.binade * |f.floor (f.nearest v) - v| ≤ v ∨
      f.floor (f.nearest v) = 0 ∧ 2 * f.one * v ≤ 1 := by
  by_cases hplace : f.lastPlace v = 0
  · right
    have hnear := dist_nearest_le hfinite hv
    have hsmall := magnitude_nearest_le hfinite hplace
    have hzero : f.floor (f.nearest v) = 0 := Nat.div_eq_of_lt (by omega)
    rw [f.value_of_isWhole hwhole, hplace, hzero, Nat.cast_zero, zero_sub, abs_neg, abs_of_nonneg hv,
      pow_zero] at hnear
    exact ⟨hzero, hnear⟩
  · left
    rw [← f.value_of_isWhole hwhole]
    exact dist_nearest_le_part hfinite hv hplace

/-- Whether a whole number has no more digits than a significand. -/
def Holds (n : Nat) : Prop := ∃ e, 2 ^ e ∣ n ∧ n ≤ 2 * f.binade * 2 ^ e

theorem holds_of_le {n : Nat} (h : n ≤ 2 * f.binade) : f.Holds n := ⟨0, by simp, by simpa using h⟩

/-- The values of finite patterns that are whole numbers are held. -/
theorem holds_floor {pattern : Nat} (h : f.isWhole pattern = true) : f.Holds (f.floor pattern) := by
  have hself : f.floor pattern * 2 ^ f.unitBits = f.significand pattern * 2 ^ f.shift pattern := by
    rw [floor, ← one_eq, Nat.div_mul_cancel (Nat.dvd_of_mod_eq_zero (of_decide_eq_true h)), magnitude,
      Nat.shiftLeft_eq]
  have hsignificand := f.significand_lt pattern
  rcases Nat.le_total f.unitBits (f.shift pattern) with hle | hle
  · refine ⟨f.shift pattern - f.unitBits, ?_⟩
    have hfloor : f.floor pattern = f.significand pattern * 2 ^ (f.shift pattern - f.unitBits) := by
      apply Nat.eq_of_mul_eq_mul_right (Nat.two_pow_pos f.unitBits)
      rw [hself, Nat.mul_assoc, ← Nat.pow_add, Nat.sub_add_cancel hle]
    rw [hfloor]
    exact ⟨Nat.dvd_mul_left _ _, Nat.mul_le_mul_right _ hsignificand.le⟩
  · apply f.holds_of_le
    have hfloor : f.floor pattern * 2 ^ (f.unitBits - f.shift pattern) = f.significand pattern := by
      apply Nat.eq_of_mul_eq_mul_right (Nat.two_pow_pos (f.shift pattern))
      rw [← hself, Nat.mul_assoc, ← Nat.pow_add, Nat.sub_add_cancel hle]
    have hgrow := Nat.le_mul_of_pos_right (f.floor pattern)
      (Nat.two_pow_pos (f.unitBits - f.shift pattern))
    omega

/-- A whole number that is held has no digits behind its last place. -/
theorem dvd_of_holds {n : Nat} (h : f.Holds n) :
    2 ^ ((n * f.one).log2 - f.fractionBits) ∣ n * f.one := by
  obtain ⟨e, ⟨m, rfl⟩, hle⟩ := h
  have hdvd : 2 ^ (f.unitBits + e) ∣ 2 ^ e * m * f.one := by
    rw [one_eq]
    exact ⟨m, by ring⟩
  have hlarge : 2 ^ e * m * f.one ≤ 2 ^ (f.fractionBits + (f.unitBits + e) + 1) := by
    calc 2 ^ e * m * f.one ≤ 2 * f.binade * 2 ^ e * f.one := Nat.mul_le_mul_right _ hle
      _ = 2 ^ (f.fractionBits + (f.unitBits + e) + 1) := by rw [binade_eq, one_eq]; ring
  by_cases hzero : 2 ^ e * m * f.one = 0
  · rw [hzero]
    exact Nat.dvd_zero _
  rcases Nat.lt_or_eq_of_le hlarge with hlt | heq
  · have hlog := (Nat.log2_lt hzero).2 hlt
    exact (Nat.pow_dvd_pow 2 (by omega)).trans hdvd
  · -- the first number with one more digit is a power of two
    rw [heq, Nat.log2_two_pow]
    exact Nat.pow_dvd_pow 2 (by omega)

/-- **Whole numbers that are held are kept, and no others.** -/
theorem floor_ofNat_eq_self_iff {n : Nat} (hfinite : f.ofNat n < f.infinity) :
    f.floor (f.ofNat n) = n ↔ f.Holds n := by
  constructor
  · intro h
    have hheld := f.holds_floor (f.isWhole_ofNat hfinite)
    rwa [h] at hheld
  · intro h
    have hmagnitude : f.magnitude (f.ofNat n) = n * f.one := by
      obtain ⟨q, hq⟩ := f.dvd_of_holds h
      rw [ofNat_eq] at hfinite ⊢
      rw [f.magnitude_ofRatio hfinite, Nat.div_one, Nat.one_shiftLeft]
      generalize (n * f.one).log2 - f.fractionBits = s at hq ⊢
      rw [hq, Nat.mul_comm (2 ^ s) q, roundHalfEven_mul q (Nat.two_pow_pos s)]
    rw [floor, hmagnitude, Nat.mul_div_cancel _ f.one_pos]

end BinaryFormat

/-! ## Double precision -/

namespace Double

/-- The exact value of a finite number. -/
def value? (x : Float) : Option ℚ :=
  match parts x with
  | .finite negative pattern =>
    some (if negative then -BinaryFormat.double.value pattern else BinaryFormat.double.value pattern)
  | _ => none

theorem value?_of_parts {x : Float} {negative : Bool} {pattern : Nat} (h : parts x = .finite negative pattern) :
    value? x =
      some (if negative then -BinaryFormat.double.value pattern else BinaryFormat.double.value pattern) := by
  rw [value?, h]

theorem exists_value? {x : Float} (h : x.isFinite = true) : ∃ v, value? x = some v := by
  obtain ⟨negative, pattern, hparts⟩ := (isFinite_iff x).1 h
  exact ⟨_, value?_of_parts hparts⟩

/-- Numbers with one sign are as far apart as they are without it. -/
theorem abs_signed_sub (negative : Bool) (v w : ℚ) :
    |(if negative then -v else v) - if negative then -w else w| = |v - w| := by
  cases negative with
  | false => rfl
  | true => rw [if_pos rfl, if_pos rfl, neg_sub_neg, abs_sub_comm]

theorem abs_signed (negative : Bool) {v : ℚ} (hv : 0 ≤ v) : |if negative then -v else v| = v := by
  cases negative with
  | false => rw [if_neg Bool.false_ne_true, abs_of_nonneg hv]
  | true => rw [if_pos rfl, abs_neg, abs_of_nonneg hv]

theorem one_eq : (BinaryFormat.double.one : ℚ) = 2 ^ 1074 := by
  have hbits : BinaryFormat.double.unitBits = 1074 := by decide
  rw [BinaryFormat.one, Nat.one_shiftLeft, Nat.cast_pow, hbits]
  rfl

theorem binade_eq : (BinaryFormat.double.binade : ℚ) = 2 ^ 52 := by
  have h : BinaryFormat.double.binade = 2 ^ 52 := by decide
  rw [h, Nat.cast_pow]
  rfl

/-- Half a digit beyond the largest double there is `2 ^ 1024 - 2 ^ 970`; numbers below are not too large. -/
theorem nearest_lt_infinity {v : ℚ} (hv : 0 ≤ v) (h : v < 2 ^ 1024 - 2 ^ 970) :
    BinaryFormat.double.nearest v < BinaryFormat.double.infinity := by
  apply BinaryFormat.double.nearest_lt_infinity hv (by decide)
  have hshift : BinaryFormat.double.lastShift = 2045 := by decide
  have hoverflow : BinaryFormat.double.overflow = 2 ^ 1024 - 2 ^ 970 := by
    have hlast : (2 : ℚ) ^ 2045 = 2 ^ 970 * (2 * 2 ^ 1074) := by rw [← pow_succ', ← pow_add]
    have hnext : (2 : ℚ) ^ 1024 = 2 ^ 54 * 2 ^ 970 := by rw [← pow_add]
    rw [BinaryFormat.overflow, one_eq, binade_eq, hshift, hlast, hnext, ← mul_assoc,
      mul_div_cancel_right₀ _ (by positivity)]
    generalize (2 : ℚ) ^ 970 = step
    ring
  rwa [hoverflow]

end Double

end FieldDiagram
