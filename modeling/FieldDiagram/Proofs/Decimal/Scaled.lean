import FieldDiagram.Decimal.Scaled
import FieldDiagram.Proofs.Decimal.Nearest
import Mathlib.Algebra.Order.Field.Basic
import Mathlib.Tactic.NormNum
/-!
# What scaling makes of a decimal number

A decimal number that is read by scaling is rounded three times: its coefficient, its power of ten and
their product or quotient. Each of the three is rounding to the nearest value, so each moves the number by
at most one part in `2 ^ 53`, and the errors of a product or quotient are those of its factors together.
`Near n` is that statement for `n` roundings, with its rules; nothing else about the arithmetic is used.

| what | where |
|---|---|
| small coefficients and powers of ten are exact, and only the last step rounds | `scaled?_eq_nearest` |
| in general the result is `Near 3`, or number and result are next to nothing | `scaled?_near` |
| only what is about to become infinite is too large | `isSome_scaled?` |

The first row is why most numbers that people write are read as their nearest value, and the second says
how far off the others can be. None of this makes the result the nearest value in general: it is not, and
the rows keep to what holds of every number.
-/

namespace FieldDiagram

namespace BinaryFormat

variable (f : BinaryFormat)

/-! ## Products and quotients

Both are computed on magnitudes, in units; on values they are the operations of the rational numbers
followed by one rounding. -/

theorem value_zero : f.value 0 = 0 := by
  rw [value, f.magnitude_of_lt f.binade_pos, Nat.cast_zero, zero_div]

theorem mul_eq_nearest (p q : Nat) : f.mul p q = f.nearest (f.value p * f.value q) := by
  have hvalue : f.value p * f.value q =
      ((f.magnitude p * f.magnitude q : ℕ) : ℚ) / ((f.one * f.one : ℕ) : ℚ) := by
    rw [value, value, div_mul_div_comm]
    push_cast
    rfl
  rw [hvalue, nearest_div _ _ (Nat.mul_pos f.one_pos f.one_pos), f.ofRatio_mul_right _ _ f.one_pos, mul]

theorem div_eq_nearest (p : Nat) {q : Nat} (hq : 0 < f.value q) :
    f.div p q = f.nearest (f.value p / f.value q) := by
  have hone : (f.one : ℚ) ≠ 0 := by exact_mod_cast f.one_pos.ne'
  have hpos : 0 < f.magnitude q := by
    by_contra hzero
    rw [value, Nat.eq_zero_of_not_pos hzero, Nat.cast_zero, zero_div] at hq
    exact lt_irrefl _ hq
  have hvalue : f.value p / f.value q = (f.magnitude p : ℚ) / (f.magnitude q : ℕ) :=
    div_div_div_cancel_right₀ hone _ _
  rw [hvalue, nearest_div _ _ hpos, div]

/-! ## Near numbers

One rounding changes a number by a factor between `1 - roundoff` and `1 + roundoff`, and the second is
less than one over the first. So with the first as the only factor, on either side, nearness is symmetric
and its rules are those of powers: what is `Near m` to something that is `Near n` is `Near (m + n)`. -/

/-- The largest part of itself that a number gains or loses by rounding. -/
def roundoff : ℚ := 1 / (2 * f.binade)

/-- Whether two numbers are no farther apart than so many roundings can take them. -/
structure Near (n : Nat) (x v : ℚ) : Prop where
  lower : v * (1 - f.roundoff) ^ n ≤ x
  upper : x * (1 - f.roundoff) ^ n ≤ v

theorem roundoff_nonneg : 0 ≤ f.roundoff := by
  unfold roundoff
  positivity

theorem roundoff_le_half : f.roundoff ≤ 1 / 2 := by
  have hbinade : (1 : ℚ) ≤ f.binade := by exact_mod_cast f.binade_pos
  unfold roundoff
  apply one_div_le_one_div_of_le two_pos
  linarith

theorem one_sub_roundoff_pos : 0 < 1 - f.roundoff := by
  linarith [f.roundoff_le_half]

/-- Many roundings together are at most as many times one: Bernoulli's inequality. -/
theorem one_sub_mul_roundoff_le (n : Nat) : 1 - n * f.roundoff ≤ (1 - f.roundoff) ^ n := by
  have h := one_add_mul_le_pow (a := -f.roundoff) (by linarith [f.roundoff_le_half]) n
  rw [mul_neg, ← sub_eq_add_neg, ← sub_eq_add_neg] at h
  exact h

namespace Near

variable {f} {m n : Nat} {x y v w : ℚ}

theorem refl (v : ℚ) : f.Near 0 v v := ⟨by simp, by simp⟩

theorem symm (h : f.Near n x v) : f.Near n v x := ⟨h.upper, h.lower⟩

/-- More roundings can take a number as far as fewer can. -/
theorem mono (h : f.Near m x v) (hmn : m ≤ n) (hx : 0 ≤ x) (hv : 0 ≤ v) : f.Near n x v := by
  have hpow : (1 - f.roundoff) ^ n ≤ (1 - f.roundoff) ^ m :=
    pow_le_pow_of_le_one f.one_sub_roundoff_pos.le (by linarith [f.roundoff_nonneg]) hmn
  exact ⟨(mul_le_mul_of_nonneg_left hpow hv).trans h.lower,
    (mul_le_mul_of_nonneg_left hpow hx).trans h.upper⟩

theorem self (n : Nat) (hv : 0 ≤ v) : f.Near n v v := (refl v).mono (Nat.zero_le n) hv hv

theorem trans (hxy : f.Near m x y) (hyv : f.Near n y v) : f.Near (m + n) x v := by
  have hpos : ∀ k, 0 ≤ (1 - f.roundoff) ^ k := fun k => (pow_pos f.one_sub_roundoff_pos k).le
  constructor
  · calc v * (1 - f.roundoff) ^ (m + n) = v * (1 - f.roundoff) ^ n * (1 - f.roundoff) ^ m := by ring
      _ ≤ y * (1 - f.roundoff) ^ m := mul_le_mul_of_nonneg_right hyv.lower (hpos m)
      _ ≤ x := hxy.lower
  · calc x * (1 - f.roundoff) ^ (m + n) = x * (1 - f.roundoff) ^ m * (1 - f.roundoff) ^ n := by ring
      _ ≤ y * (1 - f.roundoff) ^ n := mul_le_mul_of_nonneg_right hxy.upper (hpos n)
      _ ≤ v := hyv.upper

theorem mul (hx : f.Near m x v) (hy : f.Near n y w) (hv : 0 ≤ v) (hw : 0 ≤ w) (hx0 : 0 ≤ x)
    (hy0 : 0 ≤ y) : f.Near (m + n) (x * y) (v * w) := by
  have hpos : ∀ k, 0 ≤ (1 - f.roundoff) ^ k := fun k => (pow_pos f.one_sub_roundoff_pos k).le
  constructor
  · calc v * w * (1 - f.roundoff) ^ (m + n) =
          v * (1 - f.roundoff) ^ m * (w * (1 - f.roundoff) ^ n) := by ring
      _ ≤ x * y := mul_le_mul hx.lower hy.lower (mul_nonneg hw (hpos n)) hx0
  · calc x * y * (1 - f.roundoff) ^ (m + n) =
          x * (1 - f.roundoff) ^ m * (y * (1 - f.roundoff) ^ n) := by ring
      _ ≤ v * w := mul_le_mul hx.upper hy.upper (mul_nonneg hy0 (hpos n)) hv

/-- A number and its near one stand on either side of a fraction alike. -/
theorem inv (hx : f.Near n x v) (hx0 : 0 < x) (hv : 0 < v) : f.Near n x⁻¹ v⁻¹ := by
  constructor
  · rw [inv_mul_le_iff₀ hv, ← div_eq_mul_inv, le_div_iff₀ hx0, mul_comm]
    exact hx.upper
  · rw [inv_mul_le_iff₀ hx0, ← div_eq_mul_inv, le_div_iff₀ hv, mul_comm]
    exact hx.lower

theorem div (hx : f.Near m x v) (hy : f.Near n y w) (hv : 0 ≤ v) (hw : 0 < w) (hx0 : 0 ≤ x)
    (hy0 : 0 < y) : f.Near (m + n) (x / y) (v / w) := by
  rw [div_eq_mul_inv, div_eq_mul_inv]
  exact hx.mul (hy.inv hy0 hw) hv (inv_nonneg.2 hw.le) hx0 (inv_nonneg.2 hy0.le)

/-- **One rounding**, where the last place is worth more than a unit. -/
theorem nearest (hv : 0 ≤ v) (hfinite : f.nearest v < f.infinity) (hplace : f.lastPlace v ≠ 0) :
    f.Near 1 (f.value (f.nearest v)) v := by
  have hbinade : (0 : ℚ) < 2 * f.binade := by
    have := f.binade_pos
    positivity
  have hnear : |f.value (f.nearest v) - v| ≤ v * f.roundoff := by
    rw [roundoff, mul_one_div, le_div_iff₀ hbinade, mul_comm]
    exact dist_nearest_le_part hfinite hv hplace
  obtain ⟨hlower, hupper⟩ := abs_le.1 hnear
  constructor
  · rw [pow_one]
    linarith
  · have hsquare : 0 ≤ v * (f.roundoff * f.roundoff) :=
      mul_nonneg hv (mul_nonneg f.roundoff_nonneg f.roundoff_nonneg)
    have hscaled := mul_le_mul_of_nonneg_right (sub_le_iff_le_add.1 hupper) f.one_sub_roundoff_pos.le
    rw [pow_one]
    linarith

end Near

/-- A small number becomes a small value: it is rounded to at most twice itself, or there are so few units
in it that rounding makes one more of them. -/
theorem value_nearest_le {v b : ℚ} (hv : 0 ≤ v) (hfinite : f.nearest v < f.infinity) (h : 2 * v ≤ b)
    (hb : 2 * f.binade ≤ b * f.one) : f.value (f.nearest v) ≤ b := by
  have hone : (0 : ℚ) < f.one := by exact_mod_cast f.one_pos
  by_cases hplace : f.lastPlace v = 0
  · have hsmall : (f.magnitude (f.nearest v) : ℚ) ≤ 2 * f.binade := by
      exact_mod_cast magnitude_nearest_le hfinite hplace
    rw [value, div_le_iff₀ hone]
    exact hsmall.trans hb
  · have hupper := (Near.nearest hv hfinite hplace).upper
    have hhalf := mul_le_mul_of_nonneg_left f.roundoff_le_half (f.value_nonneg (f.nearest v))
    rw [pow_one] at hupper
    linarith

end BinaryFormat

/-! ## Double precision -/

namespace Double

open BinaryFormat (double)

theorem roundoff_eq : double.roundoff = 1 / 2 ^ 53 := by
  rw [BinaryFormat.roundoff, binade_eq, ← pow_succ']

/-- Where two binades of units begin. -/
theorem two_mul_binade_le {b : ℚ} (h : 1 ≤ 2 ^ 1021 * b) : 2 * (double.binade : ℚ) ≤ b * double.one := by
  have hone : (2 : ℚ) ^ 1074 = 2 ^ 53 * 2 ^ 1021 := by rw [← pow_add]
  have hbinade : (2 : ℚ) * 2 ^ 52 = 2 ^ 53 := by rw [← pow_succ']
  rw [binade_eq, one_eq, hone, hbinade]
  generalize (2 : ℚ) ^ 1021 = scale at h
  linarith

/-- From there on the last place is worth more than a unit. -/
theorem lastPlace_ne_zero {v : ℚ} (h : 1 ≤ 2 ^ 1021 * v) : double.lastPlace v ≠ 0 := by
  have hplace : 1 ≤ double.lastPlace v := by
    apply double.le_lastPlace
    rw [pow_succ', ← Nat.cast_ofNat, ← Nat.cast_pow]
    exact two_mul_binade_le h
  omega

/-- From one on, a number that is not too large is rounded once and no more. -/
theorem near_of_one_le {v : ℚ} (hone : 1 ≤ v) (h : v < 2 ^ 1024 - 2 ^ 970) :
    double.nearest v < double.infinity ∧ double.Near 1 (double.value (double.nearest v)) v := by
  have hv : 0 ≤ v := zero_le_one.trans hone
  have hfinite := nearest_lt_infinity hv h
  refine ⟨hfinite, .nearest hv hfinite (lastPlace_ne_zero ?_)⟩
  exact one_le_mul_of_one_le_of_one_le (one_le_pow₀ one_le_two) hone

/-- A few roundings do not halve a number. -/
theorem le_two_mul_of_near {n : Nat} {x v : ℚ} (hn : n ≤ 4) (h : double.Near n x v) (hv : 0 ≤ v) :
    v ≤ 2 * x := by
  have hpow := double.one_sub_mul_roundoff_le n
  have hfew : (n : ℚ) ≤ 4 := by exact_mod_cast hn
  have hroundoff : (n : ℚ) * double.roundoff ≤ 1 / 2 := by
    rw [roundoff_eq]
    norm_num
    linarith
  have hscaled := mul_le_mul_of_nonneg_left (hpow.trans' (sub_le_sub_left hroundoff 1)) hv
  linarith [h.lower]

/-- Numbers of sixty-four bits are far from being too large. -/
theorem lt_overflow_of_le {v : ℚ} (h : v ≤ 2 ^ 66) : v < 2 ^ 1024 - 2 ^ 970 := by
  have hnext : (2 : ℚ) ^ 1024 = 2 ^ 54 * 2 ^ 970 := by rw [← pow_add]
  have hlarge : (2 : ℚ) ^ 66 ≤ 2 ^ 970 := pow_le_pow_right₀ one_le_two (by decide)
  rw [hnext]
  generalize (2 : ℚ) ^ 970 = step at hlarge ⊢
  norm_num at hlarge h ⊢
  linarith

/-- **A few roundings, as a part of the number**: five of them stay within one part in `2 ^ 50`. -/
theorem dist_le_of_near {n : Nat} {x v : ℚ} (hn : n ≤ 5) (h : double.Near n x v) (hx : 0 ≤ x) (hv : 0 ≤ v) :
    2 ^ 50 * |x - v| ≤ v := by
  have hpow := double.one_sub_mul_roundoff_le n
  have hfew : (n : ℚ) ≤ 5 := by exact_mod_cast hn
  have hroundoff : (n : ℚ) * double.roundoff ≤ 5 / 2 ^ 53 := by
    rw [roundoff_eq]
    norm_num
    linarith
  have hfactor := hpow.trans' (sub_le_sub_left hroundoff 1)
  have hlower := (mul_le_mul_of_nonneg_left hfactor hv).trans h.lower
  have hupper := (mul_le_mul_of_nonneg_left hfactor hx).trans h.upper
  norm_num at hlower hupper
  rw [mul_comm, ← le_div_iff₀ (by positivity), abs_le]
  norm_num
  constructor
  · linarith
  · linarith

/-! ### The table -/

theorem power_eq_nearest (e : Nat) : power e = double.nearest (10 ^ e) := by
  rw [power, BinaryFormat.ofDecimal_eq_nearest, Decimal.value, Nat.cast_one, one_mul, zpow_natCast]

theorem near_power {e : Nat} (he : e ≤ lastPower) :
    power e < double.infinity ∧ double.Near 1 (double.value (power e)) (10 ^ e) := by
  have hlast : (10 : ℚ) ^ lastPower < 2 ^ 1024 - 2 ^ 970 := by
    have hnat : 10 ^ lastPower + 2 ^ 970 < 2 ^ 1024 := by decide +kernel
    rw [lt_sub_iff_add_lt]
    exact_mod_cast hnat
  rw [power_eq_nearest]
  exact near_of_one_le (one_le_pow₀ (by norm_num))
    ((pow_le_pow_right₀ (by norm_num) he).trans_lt hlast)

theorem le_two_mul_value_power {e : Nat} (he : e ≤ lastPower) : 10 ^ e ≤ 2 * double.value (power e) :=
  le_two_mul_of_near (by decide) (near_power he).2 (by positivity)

/-- Coefficients of sixty-four bits become machine numbers by one rounding. -/
theorem near_ofNat {n : Nat} (hpos : 0 < n) (h : n ≤ 2 ^ 64) :
    double.ofNat n < double.infinity ∧ double.Near 1 (double.value (double.ofNat n)) n := by
  have hlarge : (2 : ℚ) ^ 64 ≤ 2 ^ 66 := pow_le_pow_right₀ one_le_two (by decide)
  have hle : (n : ℚ) ≤ 2 ^ 64 := by exact_mod_cast h
  rw [BinaryFormat.ofNat_eq_nearest]
  exact near_of_one_le (by exact_mod_cast hpos) (lt_overflow_of_le (hle.trans hlarge))

/-! ### Exact steps

A coefficient of fifty-three binary digits is a machine number, and so are the first powers of ten: they
have a factor of two to every factor of five. With both of them exact only one rounding is left, that of
the result. -/

/-- Whole numbers that are held have themselves as values. -/
theorem value_ofNat {n : Nat} (hn : n ≤ 2 ^ 64) (h : double.Holds n) : double.value (double.ofNat n) = n := by
  have hfinite := ofNat_lt_infinity hn
  rw [double.value_of_isWhole (double.isWhole_ofNat hfinite), (double.floor_ofNat_eq_self_iff hfinite).2 h]

theorem value_ofNat_of_le {c : Nat} (h : c ≤ 2 ^ 53) : double.value (double.ofNat c) = c := by
  have hbinade : 2 * double.binade = 2 ^ 53 := by decide
  exact value_ofNat (by omega) (double.holds_of_le (by omega))

/-- The powers of ten of which a machine number holds all digits. -/
theorem value_power_of_le {e : Nat} (h : e ≤ 22) : double.value (power e) = 10 ^ e := by
  have hbinade : 2 * double.binade = 2 ^ 53 := by decide
  have hten : 10 ^ e = 5 ^ e * 2 ^ e := by rw [← Nat.mul_pow]
  have hfive : 5 ^ e ≤ 2 ^ 53 := (Nat.pow_le_pow_right (by decide) h).trans (by decide)
  have hholds : double.Holds (10 ^ e) := by
    refine ⟨e, ?_, ?_⟩
    · rw [hten]
      exact Nat.dvd_mul_left _ _
    · rw [hten, hbinade]
      exact Nat.mul_le_mul_right _ hfive
  have hfinite : double.ofNat (10 ^ e) < double.infinity := by
    rw [BinaryFormat.ofNat_eq_nearest, Nat.cast_pow, Nat.cast_ofNat, ← power_eq_nearest]
    exact (near_power (h.trans (by decide))).1
  have hself := (double.floor_ofNat_eq_self_iff hfinite).2 hholds
  have hvalue := double.value_of_isWhole (double.isWhole_ofNat hfinite)
  rw [hself, BinaryFormat.ofNat_eq_nearest] at hvalue
  push_cast at hvalue
  rwa [power_eq_nearest]

/-- **Short numbers are read as their nearest values**: those with a coefficient of at most fifty-three
binary digits and a power of ten that is held. -/
theorem scaled?_eq_nearest {d : Decimal} (hcoefficient : d.coefficient ≤ 2 ^ 53)
    (hexponent : d.exponent.natAbs ≤ 22) : scaled? d = some (double.nearest d.value) := by
  obtain ⟨c, e⟩ := d
  dsimp only at hcoefficient hexponent
  have hc : (c : ℚ) ≤ 2 ^ 53 := by exact_mod_cast hcoefficient
  cases e with
  | ofNat e =>
    have he : e ≤ 22 := hexponent
    have hvalue : Decimal.value ⟨c, Int.ofNat e⟩ = c * 10 ^ e := by
      rw [Decimal.value, Int.ofNat_eq_natCast, zpow_natCast]
    have hproduct : double.mul (double.ofNat c) (power e) = double.nearest (c * 10 ^ e) := by
      rw [BinaryFormat.mul_eq_nearest, value_ofNat_of_le hcoefficient, value_power_of_le he]
    have hfinite : double.nearest (c * 10 ^ e) < double.infinity := by
      apply nearest_lt_infinity (by positivity)
      have hten : (10 : ℚ) ^ e ≤ 10 ^ 22 := pow_le_pow_right₀ (by norm_num) he
      have hnat : 2 ^ 53 * 10 ^ 22 + 2 ^ 970 < 2 ^ 1024 := by decide +kernel
      have hlarge : (2 : ℚ) ^ 53 * 10 ^ 22 < 2 ^ 1024 - 2 ^ 970 := by
        rw [lt_sub_iff_add_lt]
        exact_mod_cast hnat
      exact (mul_le_mul hc hten (by positivity) (by positivity)).trans_lt hlarge
    rw [hvalue, scaled?, scale?, if_pos (he.trans (by decide)), hproduct, if_neg hfinite.ne]
  | negSucc e =>
    have he : e + 1 ≤ 22 := hexponent
    have hvalue : Decimal.value ⟨c, Int.negSucc e⟩ = c / 10 ^ (e + 1) := by
      rw [Decimal.value, zpow_negSucc, div_eq_mul_inv]
    have hlast : lastPower = 308 := rfl
    have hpower := value_power_of_le he
    rw [hvalue, scaled?, scale?, Nat.div_eq_of_lt (by omega), Nat.mod_eq_of_lt (by omega), divLastPower,
      BinaryFormat.div_eq_nearest _ _ (by rw [hpower]; positivity), value_ofNat_of_le hcoefficient, hpower]

/-! ### All steps

In general every step rounds. The result is near the number then, except that a quotient may fall below the
binades, where there is no such thing as near: such a quotient is next to nothing, and so is the number. -/

theorem scaled?_zero (e : Int) : scaled? ⟨0, e⟩ = some 0 := by
  have hnothing : double.ofNat 0 = 0 := by decide
  have hzero : double.nearest 0 = 0 := double.nearest_zero
  cases e with
  | ofNat e =>
    have hproduct : double.mul 0 (power e) = 0 := by
      rw [BinaryFormat.mul_eq_nearest, BinaryFormat.value_zero, zero_mul, hzero]
    have hinfinity : (0 : Nat) ≠ double.infinity := by decide
    rw [scaled?, hnothing, scale?, hproduct]
    split
    · exact if_neg hinfinity
    · rfl
  | negSucc e =>
    have hleft : ∀ times, divLastPower times 0 = 0 := by
      intro times
      cases times with
      | zero => rfl
      | succ times => exact if_pos rfl
    have hlast : e % lastPower + 1 ≤ lastPower := Nat.mod_lt _ (by decide)
    have hpower := le_two_mul_value_power hlast
    have hten : (0 : ℚ) < 10 ^ (e % lastPower + 1) := by positivity
    rw [scaled?, hnothing, scale?, hleft, BinaryFormat.div_eq_nearest _ _ (by linarith),
      BinaryFormat.value_zero, zero_div, hzero]

/-- A quotient is no larger than a bound that the exact quotient keeps twice over. -/
theorem value_div_le {p q : Nat} {b : ℚ} (hq : 0 < double.value q)
    (h : 2 * double.value p ≤ b * double.value q) (hsmall : 1 ≤ 2 ^ 1021 * b) (hlarge : b ≤ 2 ^ 66) :
    double.div p q < double.infinity ∧ double.value (double.div p q) ≤ b := by
  have hquotient : 0 ≤ double.value p / double.value q := div_nonneg (double.value_nonneg p) hq.le
  have hhalf : 2 * (double.value p / double.value q) ≤ b := by
    rwa [← mul_div_assoc, div_le_iff₀ hq]
  have hfinite : double.nearest (double.value p / double.value q) < double.infinity :=
    nearest_lt_infinity hquotient (lt_overflow_of_le (by linarith))
  rw [BinaryFormat.div_eq_nearest _ _ hq]
  exact ⟨hfinite, double.value_nearest_le hquotient hfinite hhalf (two_mul_binade_le hsmall)⟩

/-- Dividing by a power of ten from ten on keeps a bound. -/
theorem value_div_power_le {p e : Nat} {b : ℚ} (hp : double.value p ≤ b) (hpos : e ≠ 0)
    (he : e ≤ lastPower) (hsmall : 1 ≤ 2 ^ 1021 * b) (hlarge : b ≤ 2 ^ 66) :
    double.div p (power e) < double.infinity ∧ double.value (double.div p (power e)) ≤ b := by
  have hpower := le_two_mul_value_power he
  have hten : (10 : ℚ) ≤ 10 ^ e := le_self_pow₀ (by norm_num) hpos
  have htwo : 2 ≤ double.value (power e) := by linarith
  have hscaled := mul_le_mul_of_nonneg_left htwo ((double.value_nonneg p).trans hp)
  exact value_div_le (by linarith) (by linarith) hsmall hlarge

theorem value_divLastPower_le {b : ℚ} (hsmall : 1 ≤ 2 ^ 1021 * b) (hlarge : b ≤ 2 ^ 66) (times : Nat)
    {pattern : Nat} (h : double.value pattern ≤ b) :
    double.value (divLastPower times pattern) ≤ b := by
  induction times generalizing pattern with
  | zero => exact h
  | succ times ih =>
    rw [divLastPower]
    split
    · rw [BinaryFormat.value_zero]
      exact (double.value_nonneg _).trans h
    · exact ih (value_div_power_le h (by decide) (Nat.le_refl lastPower) hsmall hlarge).2

/-- What counts as next to nothing: far below one, and still far above the least numbers of the format. -/
def tiny : ℚ := 1 / 2 ^ 950

theorem tiny_pos : 0 < tiny := by
  unfold tiny
  positivity

/-- What is next to nothing is below one with many more zeros than roundings can make up for. -/
theorem four_mul_tiny_le : 4 * tiny ≤ 1 / 2 ^ 900 := by
  have hscale : (2 : ℚ) ^ 950 = 2 ^ 50 * 2 ^ 900 := by rw [← pow_add]
  have hpos : (0 : ℚ) < 2 ^ 900 := by positivity
  rw [tiny, hscale]
  generalize (2 : ℚ) ^ 900 = scale at hpos ⊢
  rw [mul_one_div, div_le_div_iff₀ (by positivity) hpos]
  norm_num
  linarith

theorem tiny_le_one : tiny ≤ 1 := div_le_one_of_le₀ (one_le_pow₀ one_le_two) (by positivity)

/-- Numbers whose last place is a unit are next to nothing, twice over. -/
theorem two_mul_le_tiny {v : ℚ} (hv : 0 ≤ v) (h : double.lastPlace v = 0) : 2 * v ≤ tiny := by
  have hless : 2 ^ 1021 * v < 1 := by
    by_contra hlarge
    exact lastPlace_ne_zero (not_lt.1 hlarge) h
  have hscale : (2 : ℚ) ^ 1021 = 2 ^ 71 * 2 ^ 950 := by rw [← pow_add]
  have hpos : (0 : ℚ) ≤ 2 ^ 950 := by positivity
  rw [hscale] at hless
  rw [tiny, le_div_iff₀ (by positivity)]
  generalize (2 : ℚ) ^ 950 = scale at hless hpos ⊢
  have hscaled := mul_nonneg hpos hv
  linarith

theorem tiny_bounds : 1 ≤ 2 ^ 1021 * tiny ∧ tiny ≤ 2 ^ 66 := by
  unfold tiny
  constructor
  · rw [mul_one_div, le_div_iff₀ (by positivity), one_mul]
    exact pow_le_pow_right₀ one_le_two (by decide)
  · rw [div_le_iff₀ (by positivity), ← pow_add]
    exact one_le_pow₀ one_le_two

/-- A coefficient of sixty-four bits divided by more than the table holds is next to nothing, and no
rounding on the way makes more of it. -/
theorem value_div_divLastPower_le {c e : Nat} (hpos : 0 < c) (hc : c ≤ 2 ^ 64) (he : lastPower ≤ e) :
    double.div (divLastPower (e / lastPower) (double.ofNat c)) (power (e % lastPower + 1)) <
        double.infinity ∧
      double.value (double.div (divLastPower (e / lastPower) (double.ofNat c))
        (power (e % lastPower + 1))) ≤ tiny := by
  obtain ⟨hsmall, hlarge⟩ := tiny_bounds
  obtain ⟨times, htimes⟩ : ∃ times, e / lastPower = times + 1 :=
    Nat.exists_eq_add_of_le' (Nat.div_pos he (by decide))
  have hfirst : double.value (divLastPower (e / lastPower) (double.ofNat c)) ≤ tiny := by
    rw [htimes, divLastPower]
    split
    · rw [BinaryFormat.value_zero]
      exact tiny_pos.le
    · -- one division already takes it below the bound
      refine value_divLastPower_le hsmall hlarge times (value_div_le ?_ ?_ hsmall hlarge).2
      · have hpower := le_two_mul_value_power (Nat.le_refl lastPower)
        have hten : (0 : ℚ) < 10 ^ lastPower := by positivity
        linarith
      · have hvalue := le_two_mul_of_near (by decide) (near_ofNat hpos hc).2.symm (double.value_nonneg _)
        have hword : (c : ℚ) ≤ 2 ^ 64 := by exact_mod_cast hc
        have hpower := le_two_mul_value_power (Nat.le_refl lastPower)
        have hnat : 2 ^ 950 * 2 ^ 67 ≤ 10 ^ lastPower := by decide +kernel
        have hcast : (2 : ℚ) ^ 950 * 2 ^ 67 ≤ 10 ^ lastPower := by exact_mod_cast hnat
        have hpos : (0 : ℚ) ≤ 2 ^ 950 := by positivity
        rw [tiny, one_div_mul_eq_div, le_div_iff₀ (by positivity)]
        generalize (2 : ℚ) ^ 950 = scale at hcast hpos ⊢
        generalize (10 : ℚ) ^ lastPower = last at hcast hpower
        have hscaled := mul_le_mul_of_nonneg_right (hvalue.trans (mul_le_mul_of_nonneg_left hword two_pos.le)) hpos
        linarith
  exact value_div_power_le hfirst (Nat.succ_ne_zero _) (Nat.mod_lt _ (by decide)) hsmall hlarge

/-- So far below one stands a coefficient of sixty-four bits behind more zeros than the table has. -/
theorem div_ten_pow_le {c e : Nat} (hc : c ≤ 2 ^ 64) (he : lastPower ≤ e) :
    (c : ℚ) / 10 ^ (e + 1) ≤ tiny := by
  have hnat : 2 ^ 64 * 2 ^ 950 ≤ 10 ^ lastPower := by decide +kernel
  have hword : (c : ℚ) ≤ 2 ^ 64 := by exact_mod_cast hc
  rw [tiny, div_le_div_iff₀ (by positivity) (by positivity), one_mul]
  calc (c : ℚ) * 2 ^ 950 ≤ 2 ^ 64 * 2 ^ 950 := mul_le_mul_of_nonneg_right hword (by positivity)
    _ ≤ 10 ^ lastPower := by exact_mod_cast hnat
    _ ≤ 10 ^ (e + 1) := pow_le_pow_right₀ (by norm_num) (by omega)

theorem near_mul_power {c e : Nat} (hpos : 0 < c) (hc : c ≤ 2 ^ 64) (he : e ≤ lastPower)
    (hfinite : double.mul (double.ofNat c) (power e) < double.infinity) :
    double.Near 3 (double.value (double.mul (double.ofNat c) (power e))) (c * 10 ^ e) := by
  have hcoefficient := (near_ofNat hpos hc).2
  have hpower := (near_power he).2
  have hone : (1 : ℚ) ≤ c * 10 ^ e :=
    one_le_mul_of_one_le_of_one_le (by exact_mod_cast hpos) (one_le_pow₀ (by norm_num))
  have hfactors := hcoefficient.mul hpower (by positivity) (by positivity) (double.value_nonneg _)
    (double.value_nonneg _)
  have hplace : double.lastPlace (double.value (double.ofNat c) * double.value (power e)) ≠ 0 := by
    apply lastPlace_ne_zero
    have hhalf := le_two_mul_of_near (by decide) hfactors (zero_le_one.trans hone)
    have hlarge : (2 : ℚ) ≤ 2 ^ 1021 := le_self_pow₀ one_le_two (by decide)
    exact hone.trans (hhalf.trans (mul_le_mul_of_nonneg_right hlarge
      (mul_nonneg (double.value_nonneg (double.ofNat c)) (double.value_nonneg (power e)))))
  rw [BinaryFormat.mul_eq_nearest] at hfinite ⊢
  have hproduct : 0 ≤ double.value (double.ofNat c) * double.value (power e) :=
    mul_nonneg (double.value_nonneg _) (double.value_nonneg _)
  exact (BinaryFormat.Near.nearest hproduct hfinite hplace).trans hfactors

theorem near_div_power {c e : Nat} (hpos : 0 < c) (hc : c ≤ 2 ^ 64) (he : e ≤ lastPower) :
    double.div (double.ofNat c) (power e) < double.infinity ∧
      (double.Near 3 (double.value (double.div (double.ofNat c) (power e))) (c / 10 ^ e) ∨
        double.value (double.div (double.ofNat c) (power e)) ≤ tiny ∧ (c : ℚ) / 10 ^ e ≤ tiny) := by
  have hcoefficient := (near_ofNat hpos hc).2
  have hpower := (near_power he).2
  have hten : (1 : ℚ) ≤ 10 ^ e := one_le_pow₀ (by norm_num)
  have hdivisor : 0 < double.value (power e) := by linarith [le_two_mul_value_power he]
  have hparts := hcoefficient.div hpower (Nat.cast_nonneg c) (by positivity) (double.value_nonneg _) hdivisor
  have hquotient : 0 ≤ double.value (double.ofNat c) / double.value (power e) :=
    div_nonneg (double.value_nonneg _) hdivisor.le
  have hexact : (0 : ℚ) ≤ c / 10 ^ e := by positivity
  -- a coefficient of one word is not too large, and a quotient is not much larger
  have hrange : double.value (double.ofNat c) / double.value (power e) < 2 ^ 1024 - 2 ^ 970 := by
    have hword : (c : ℚ) ≤ 2 ^ 64 := by exact_mod_cast hc
    have hle : (c : ℚ) / 10 ^ e ≤ c := div_le_self (Nat.cast_nonneg c) hten
    have hdouble := le_two_mul_of_near (by decide) hparts.symm hquotient
    apply lt_overflow_of_le
    linarith
  have hfinite := nearest_lt_infinity hquotient hrange
  rw [BinaryFormat.div_eq_nearest _ _ hdivisor]
  refine ⟨hfinite, ?_⟩
  by_cases hplace : double.lastPlace (double.value (double.ofNat c) / double.value (power e)) = 0
  · right
    have hbound := two_mul_le_tiny hquotient hplace
    have hdouble := le_two_mul_of_near (by decide) hparts hexact
    obtain ⟨hsmall, hlarge⟩ := tiny_bounds
    rw [← mul_div_assoc, div_le_iff₀ hdivisor] at hbound
    have hvalue := (value_div_le hdivisor hbound hsmall hlarge).2
    rw [BinaryFormat.div_eq_nearest _ _ hdivisor] at hvalue
    rw [← div_le_iff₀ hdivisor, mul_div_assoc] at hbound
    exact ⟨hvalue, hdouble.trans hbound⟩
  · left
    exact (BinaryFormat.Near.nearest hquotient hfinite hplace).trans hparts

/-- **What scaling gives is near the number**, or both are next to nothing. -/
theorem scaled?_near {d : Decimal} (hd : d.coefficient ≤ 2 ^ 64) {pattern : Nat}
    (h : scaled? d = some pattern) : pattern < double.infinity ∧
      (double.Near 3 (double.value pattern) d.value ∨
        double.value pattern ≤ tiny ∧ d.value ≤ tiny) := by
  obtain ⟨c, e⟩ := d
  dsimp only at hd
  rcases Nat.eq_zero_or_pos c with rfl | hpos
  · rw [scaled?_zero] at h
    rw [← Option.some.inj h, BinaryFormat.value_zero, Decimal.value, Nat.cast_zero, zero_mul]
    exact ⟨by decide, Or.inl ⟨by simp, by simp⟩⟩
  have hword : double.ofNat c ≠ 0 := (ofNat_pos hpos).ne'
  -- a power at or above one is a factor, one below it a divisor, and only a quotient can fall below the binades
  cases e with
  | ofNat e =>
    have hvalue : Decimal.value ⟨c, Int.ofNat e⟩ = c * 10 ^ e := by
      rw [Decimal.value, Int.ofNat_eq_natCast, zpow_natCast]
    rw [scaled?, scale?] at h
    split at h
    · next he =>
      dsimp only at h
      split at h
      · cases h
      · next hproduct =>
        obtain rfl := Option.some.inj h
        have hfinite := Nat.lt_of_le_of_ne (double.ofRatio_le_infinity _ _) hproduct
        rw [hvalue]
        exact ⟨hfinite, Or.inl (near_mul_power hpos hd he hfinite)⟩
    · cases h
  | negSucc e =>
    have hvalue : Decimal.value ⟨c, Int.negSucc e⟩ = c / 10 ^ (e + 1) := by
      rw [Decimal.value, zpow_negSucc, div_eq_mul_inv]
    rw [scaled?, scale?] at h
    rw [← Option.some.inj h, hvalue]
    rcases Nat.lt_or_ge e lastPower with hlt | hge
    · rw [Nat.div_eq_of_lt hlt, Nat.mod_eq_of_lt hlt, divLastPower]
      exact near_div_power hpos hd hlt
    · obtain ⟨hfinite, hsmall⟩ := value_div_divLastPower_le hpos hd hge
      exact ⟨hfinite, Or.inr ⟨hsmall, div_ten_pow_le hd hge⟩⟩

/-- The fifth largest finite number. -/
def scaleLimit : ℚ := 2 ^ 1024 - 10 * 2 ^ 970

theorem le_scaleLimit_of_le {v : ℚ} (h : v ≤ 2 ^ 64) : v ≤ scaleLimit := by
  have hnext : (2 : ℚ) ^ 1024 = 2 ^ 54 * 2 ^ 970 := by rw [← pow_add]
  have hlarge : (2 : ℚ) ^ 64 ≤ 2 ^ 970 := pow_le_pow_right₀ one_le_two (by decide)
  rw [scaleLimit, hnext]
  generalize (2 : ℚ) ^ 970 = step at hlarge ⊢
  norm_num at hlarge h ⊢
  linarith

/-- **Only what is about to become infinite is too large**: up to the fifth largest number there is room for
four roundings, of which two are those of scaling and two may have been made before. -/
theorem isSome_scaled? {d : Decimal} (hd : d.coefficient ≤ 2 ^ 64) {x : ℚ}
    (hnear : double.Near 2 d.value x) (h : x ≤ scaleLimit) : (scaled? d).isSome = true := by
  obtain ⟨c, e⟩ := d
  dsimp only at hd
  rcases Nat.eq_zero_or_pos c with rfl | hpos
  · rw [scaled?_zero]
    rfl
  cases e with
  | negSucc e => rfl
  | ofNat e =>
    have hvalue : Decimal.value ⟨c, Int.ofNat e⟩ = c * 10 ^ e := by
      rw [Decimal.value, Int.ofNat_eq_natCast, zpow_natCast]
    rw [hvalue] at hnear
    rw [scaleLimit] at h
    have hnext : (2 : ℚ) ^ 1024 = 2 ^ 54 * 2 ^ 970 := by rw [← pow_add]
    -- the power is in the table, as the first one that is not is twice as large as any finite number
    have he : e ≤ lastPower := by
      by_contra hlarge
      have hnat : 2 * 2 ^ 1024 ≤ 10 ^ (lastPower + 1) := by decide +kernel
      have hlast : (2 : ℚ) * 2 ^ 1024 ≤ 10 ^ (lastPower + 1) := by exact_mod_cast hnat
      have hpow : (10 : ℚ) ^ (lastPower + 1) ≤ 10 ^ e := pow_le_pow_right₀ (by norm_num) (by omega)
      have hc : (1 : ℚ) ≤ c := by exact_mod_cast hpos
      have hgrow : (10 : ℚ) ^ e ≤ c * 10 ^ e := le_mul_of_one_le_left (by positivity) hc
      have hdouble := le_two_mul_of_near (by decide) hnear.symm (by positivity)
      have hstep : (0 : ℚ) < 2 ^ 970 := by positivity
      have hchain := hlast.trans (hpow.trans (hgrow.trans hdouble))
      generalize (2 : ℚ) ^ 970 = step at h hstep
      generalize (2 : ℚ) ^ 1024 = largest at h hchain
      linarith
    have hfactors := (near_ofNat hpos hd).2.mul (near_power he).2 (Nat.cast_nonneg c) (by positivity)
      (double.value_nonneg _) (double.value_nonneg _)
    have hproduct : 0 ≤ double.value (double.ofNat c) * double.value (power e) :=
      mul_nonneg (double.value_nonneg _) (double.value_nonneg _)
    -- and the product before its last rounding is short of what would be rounded to infinity
    have hrange : double.value (double.ofNat c) * double.value (power e) < 2 ^ 1024 - 2 ^ 970 := by
      have hupper := (hfactors.trans hnear).upper
      have hpow := double.one_sub_mul_roundoff_le (1 + 1 + 2)
      have hscaled := (mul_le_mul_of_nonneg_left hpow hproduct).trans hupper
      have hstep : (0 : ℚ) < 2 ^ 970 := by positivity
      by_contra hlarge
      rw [not_lt] at hlarge
      rw [roundoff_eq] at hscaled
      rw [hnext] at hlarge h
      generalize (2 : ℚ) ^ 970 = step at hlarge h hstep
      norm_num at hscaled hlarge h
      linarith
    have hfinite := nearest_lt_infinity hproduct hrange
    rw [← BinaryFormat.mul_eq_nearest] at hfinite
    rw [scaled?, scale?, if_pos he]
    dsimp only
    rw [if_neg hfinite.ne]
    rfl

end Double

end FieldDiagram
