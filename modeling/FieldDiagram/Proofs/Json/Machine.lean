import FieldDiagram.Proofs.Json.Spelled
/-!
# Machine numbers of number tokens

Which machine number a token is read as, and when that number is whole. A token of digits alone is read digit
by digit and rounded once; every other token is read by scaling, and of those the short ones are rounded once,
too. So there is a nearest machine number for those two kinds and a near one for all.

| what | where |
|---|---|
| plain and short tokens are read as the nearest machine number | `machine?_eq_nearest` |
| the nearest machine number of a whole number is whole, and it is that number if a significand holds it | `nearestWhole?_intCast` |
| a fraction of few digits is not lost | `eq_of_nearestWhole?` |
| any token that is read as a whole number spells a number near it | `dist_of_whole?` |
-/

namespace FieldDiagram

open Json (Number NumberToken)

/-! ## Machine numbers that are whole

Two facts about the nearest machine number are behind the first two rows. It is whole for every whole number,
which is itself if a significand holds it. And it is near the number, so that a fraction can be lost only if it
is a small part of the number: a fraction that is spelled with few digits is not. -/

namespace BinaryFormat

variable (f : BinaryFormat)

/-- A finite pattern is the one nearest to its value. -/
theorem nearest_value {pattern : Nat} (h : pattern ≤ f.infinity) : f.nearest (f.value pattern) = pattern := by
  have hscale := f.ofRatio_mul_right (f.magnitude pattern) 1 f.one_pos
  rw [Nat.one_mul] at hscale
  rw [value, nearest_div _ _ f.one_pos, hscale, f.ofRatio_magnitude h]

theorem isWhole_of_le {pattern : Nat} (hfinite : pattern < f.infinity) (h : f.binade ≤ f.value pattern) :
    f.isWhole pattern = true := by
  have hnearest := f.nearest_value hfinite.le
  have hwhole := f.isWhole_nearest_of_le (v := f.value pattern) (by rwa [hnearest]) h
  rwa [hnearest] at hwhole

end BinaryFormat

namespace Double

/-- The whole number that the machine number nearest to a number is, if it is one. -/
def nearestWhole? (v : ℚ) : Option Int :=
  let pattern := BinaryFormat.double.nearest |v|
  if BinaryFormat.double.isWhole pattern then
    let n : Int := BinaryFormat.double.floor pattern
    some (if v < 0 then -n else n)
  else none

/-- Whether a whole number has no more than fifty-three binary digits between its first and its last
one. -/
def Holds (z : Int) : Prop := BinaryFormat.double.Holds z.natAbs

/-- A whole number of which even a large multiple is small is zero. -/
theorem eq_zero_of_mul_abs_le {c : Int} {large small : ℚ} (hpos : 0 < large) (hlt : small < large)
    (h : large * |(c : ℚ)| ≤ small) : c = 0 := by
  have hless : |(c : ℚ)| < 1 := by
    by_contra hone
    have hgrow := mul_le_mul_of_nonneg_left (not_lt.1 hone) hpos.le
    linarith
  exact Int.abs_lt_one_iff.1 (by exact_mod_cast hless)

section Near

variable {v : ℚ} (hfinite : BinaryFormat.double.nearest |v| < BinaryFormat.double.infinity)

include hfinite

/-- **The whole number that a number is read as is near it.** -/
theorem dist_nearestWhole? {k : Int} (h : nearestWhole? v = some k) :
    2 ^ 53 * |k - v| ≤ |v| ∨ k = 0 ∧ 2 ^ 1075 * |v| ≤ 1 := by
  unfold nearestWhole? at h
  rw [Option.ite_none_right_eq_some] at h
  obtain ⟨hwhole, hk⟩ := h
  have hnear := BinaryFormat.double.dist_floor_nearest (abs_nonneg v) hfinite (by decide) hwhole
  rw [binade_eq, one_eq, ← pow_succ', ← pow_succ'] at hnear
  -- the sign goes with the number
  have hdist : |(k : ℚ) - v| =
      |(BinaryFormat.double.floor (BinaryFormat.double.nearest |v|) : ℚ) - (|v|)| := by
    rw [← Option.some.inj hk]
    by_cases hneg : v < 0
    · rw [if_pos hneg, abs_of_neg hneg, ← abs_neg]
      push_cast
      congr 1
      ring
    · rw [if_neg hneg, abs_of_nonneg (not_lt.1 hneg)]
      push_cast
      rfl
  rcases hnear with hnear | ⟨hzero, hsmall⟩
  · left
    rw [hdist]
    exact hnear
  · right
    refine ⟨?_, hsmall⟩
    rw [← Option.some.inj hk, hzero]
    simp

/-- **A whole number is read as a whole number**, and as itself exactly if a machine number holds it. -/
theorem nearestWhole?_intCast {z : Int} (hz : v = z) :
    ∃ k, nearestWhole? v = some k ∧ 2 ^ 53 * |k - z| ≤ |z| ∧ (k = z ↔ Holds z) := by
  have habs : |v| = (z.natAbs : ℚ) := by
    rw [hz, ← Int.cast_abs, Int.abs_eq_natAbs, Int.cast_natCast]
  have hnearest : BinaryFormat.double.nearest |v| = BinaryFormat.double.ofNat z.natAbs := by
    rw [habs, BinaryFormat.ofNat_eq_nearest]
  have hfinite' : BinaryFormat.double.ofNat z.natAbs < BinaryFormat.double.infinity := by
    rwa [← hnearest]
  have hread : nearestWhole? v = some (if z < 0 then
      -(BinaryFormat.double.floor (BinaryFormat.double.ofNat z.natAbs) : Int)
      else BinaryFormat.double.floor (BinaryFormat.double.ofNat z.natAbs)) := by
    have hsign : v < 0 ↔ z < 0 := by rw [hz, Int.cast_lt_zero]
    rw [nearestWhole?, hnearest, if_pos (BinaryFormat.double.isWhole_ofNat hfinite')]
    simp only [hsign]
  refine ⟨_, hread, ?_, ?_⟩
  · rcases dist_nearestWhole? hfinite hread with hnear | ⟨hzero, hsmall⟩
    · rw [hz] at hnear
      exact_mod_cast hnear
    · have hpow : (1 : ℚ) < 2 ^ 1075 := one_lt_pow₀ (by norm_num) (by decide)
      rw [hz] at hsmall
      rw [hzero, eq_zero_of_mul_abs_le (zero_lt_one.trans hpow) hpow hsmall]
      simp
  · rw [Holds, ← BinaryFormat.double.floor_ofNat_eq_self_iff hfinite']
    split <;> omega

/-- **A fraction of few digits is not lost**: a number of so many digits is read as a whole one only if it is
that whole number. -/
theorem eq_of_nearestWhole? {k c : Int} {m : Nat} (h : nearestWhole? v = some k) (hm : m ≤ 22)
    (hscale : v * 10 ^ m = c) (hfew : |c| < 2 ^ 53) : v = k := by
  have hten : (0 : ℚ) < 10 ^ m := by positivity
  have hsize : |v| * 10 ^ m = |(c : ℚ)| := by rw [← hscale, abs_mul, abs_of_pos hten]
  rcases dist_nearestWhole? hfinite h with hnear | ⟨hzero, hsmall⟩
  · -- in units of the last digit the distance is a whole number, and less than one
    have hdist : |(k : ℚ) - v| * 10 ^ m = |(k : ℚ) * 10 ^ m - c| := by
      rw [← hscale, ← sub_mul, abs_mul, abs_of_pos hten]
    have hscaled := mul_le_mul_of_nonneg_right hnear hten.le
    rw [mul_assoc, hdist, hsize] at hscaled
    have hint : 2 ^ 53 * |k * 10 ^ m - c| ≤ |c| := by exact_mod_cast hscaled
    have hnone : k * 10 ^ m - c = 0 := abs_eq_zero.1 (by have := abs_nonneg (k * 10 ^ m - c); omega)
    have hsame : (k : ℚ) * 10 ^ m = v * 10 ^ m := by
      rw [hscale]
      exact_mod_cast sub_eq_zero.1 hnone
    exact (mul_right_cancel₀ hten.ne' hsame).symm
  · -- so small a number has no digits
    have hlarge : (10 : ℚ) ^ m < 2 ^ 1075 := by
      have hnat : 10 ^ 22 < 2 ^ 1075 := by decide +kernel
      have hpow : (10 : ℚ) ^ m ≤ 10 ^ 22 := pow_le_pow_right₀ (by norm_num) hm
      exact hpow.trans_lt (by exact_mod_cast hnat)
    have hscaled := mul_le_mul_of_nonneg_right hsmall hten.le
    rw [mul_assoc, hsize, one_mul] at hscaled
    rw [eq_zero_of_mul_abs_le (hten.trans hlarge) hlarge hscaled, Int.cast_zero] at hscale
    rw [(mul_eq_zero.1 hscale).resolve_right hten.ne', hzero, Int.cast_zero]

end Near

/-- A number that is whole has the whole number as its value. -/
theorem value?_of_whole? {x : Float} {k : Int} (h : whole? x = some k) : value? x = some (k : ℚ) := by
  rw [whole?] at h
  split at h
  · next negative pattern hparts =>
    rw [Option.ite_none_right_eq_some] at h
    obtain ⟨hwhole, hk⟩ := h
    rw [value?_of_parts hparts, BinaryFormat.double.value_of_isWhole hwhole, ← Option.some.inj hk]
    push_cast
    rfl
  · cases h

end Double

/-! ## Machine numbers of tokens

A token of digits alone is read digit by digit and rounded once. Every other token is read by scaling, and
of those the short ones are rounded once, too. -/

namespace Json.NumberToken

/-- The machine number that a token is read as, if it is not too large. -/
def machine? (t : NumberToken) : Option Float := (Number.ofToken? t).map Number.toFloat

/-- The machine number nearest to what a token spells, with the sign of the token. -/
def nearest (t : NumberToken) : Float := Double.ofPattern t.negative (BinaryFormat.double.nearest |t.value|)

/-- Tokens of digits alone that fit sixty-four bits, with a sign only if they have one. -/
structure IsPlain (t : NumberToken) : Prop where
  fraction : t.fraction = []
  exponent : t.exponent = none
  lt : ofDigits t.whole < wordSize
  le_of_negative : t.negative = true → ofDigits t.whole ≤ wordSize / 2

theorem IsPlain.value_decimal {t : NumberToken} (h : t.IsPlain) : t.decimal.value = ofDigits t.whole :=
  value_decimal_of_digits h.fraction h.exponent

theorem machine?_of_not_isPlain {t : NumberToken} (h : ¬ t.IsPlain) :
    t.machine? = t.pattern?.map (Double.ofPattern t.negative) := by
  have hpositive : ¬ (t.fraction = [] ∧ t.exponent = none ∧ !t.negative ∧ ofDigits t.whole < wordSize) := by
    rintro ⟨hfraction, hexponent, hsign, hlt⟩
    exact h ⟨hfraction, hexponent, hlt, fun hnegative => by simp [hnegative] at hsign⟩
  have hnegative : ¬ (t.fraction = [] ∧ t.exponent = none ∧ t.negative ∧ 0 < ofDigits t.whole ∧
      ofDigits t.whole ≤ wordSize / 2) := by
    rintro ⟨hfraction, hexponent, -, -, hle⟩
    exact h ⟨hfraction, hexponent, Nat.lt_of_le_of_lt hle (by decide), fun _ => hle⟩
  rw [machine?, Number.ofToken?, if_neg hpositive, if_neg hnegative, Option.map_map]
  rfl

theorem machine?_of_isPlain {t : NumberToken} (h : t.IsPlain) : t.machine? = some t.nearest := by
  have hnearest : BinaryFormat.double.nearest |t.value| = BinaryFormat.double.ofNat (ofDigits t.whole) := by
    rw [abs_value, h.value_decimal, BinaryFormat.ofNat_eq_nearest]
  rw [machine?, Number.ofToken?, nearest, hnearest]
  cases hnegative : t.negative with
  | false =>
    rw [if_pos ⟨h.fraction, h.exponent, rfl, h.lt⟩]
    rfl
  | true =>
    rw [if_neg (by simp)]
    by_cases hzero : 0 < ofDigits t.whole
    · rw [if_pos ⟨h.fraction, h.exponent, rfl, hzero, h.le_of_negative hnegative⟩]
      change some (Double.ofInt (-(ofDigits t.whole : ℤ))) = _
      rw [Double.ofInt, Int.natAbs_neg, Int.natAbs_natCast, decide_eq_true (by omega)]
    · -- zero with a sign is no whole number of the machine, and is read by scaling
      have hnothing : ofDigits t.whole = 0 := by omega
      have hdecimal : t.decimal = ⟨0, 0⟩ := by
        rw [decimal, h.fraction, h.exponent, Decimal.ofParts, List.append_nil, hnothing]
        rfl
      have hshort : t.IsShort :=
        ⟨by rw [hdecimal]; exact Nat.zero_le _, by rw [hdecimal]; exact Nat.zero_le _, by
          rw [h.exponent]; exact Nat.zero_le _⟩
      rw [if_neg (by rintro ⟨-, -, -, hpos, -⟩; exact hzero hpos), pattern?_of_isShort hshort,
        ← abs_value, hnearest]
      rfl

/-- **Plain and short tokens are read as the nearest machine number.** -/
theorem machine?_eq_nearest {t : NumberToken} (h : t.IsPlain ∨ t.IsShort) : t.machine? = some t.nearest := by
  by_cases hplain : t.IsPlain
  · exact machine?_of_isPlain hplain
  · rw [machine?_of_not_isPlain hplain, pattern?_of_isShort (h.resolve_left hplain), ← abs_value]
    rfl

theorem nearest_lt_infinity {t : NumberToken} (h : t.IsPlain ∨ t.IsShort) :
    BinaryFormat.double.nearest |t.value| < BinaryFormat.double.infinity := by
  rcases h with hplain | hshort
  · rw [abs_value, hplain.value_decimal, ← BinaryFormat.ofNat_eq_nearest]
    exact Double.ofNat_lt_infinity hplain.lt.le
  · rw [abs_value]
    exact pattern_lt_infinity (pattern?_of_isShort hshort)

/-- **Any token is read as a machine number near its value**, if it is read at all, or both are next to
nothing. -/
theorem exists_pattern_of_machine? {t : NumberToken} (ht : t.WellFormed)
    (hexponent : (t.exponent.getD 0).natAbs ≤ exponentLimit) {x : Float} (hx : t.machine? = some x) :
    ∃ pattern, Double.parts x = .finite t.negative pattern ∧
      (BinaryFormat.double.Near 4 (BinaryFormat.double.value pattern) |t.value| ∨
        BinaryFormat.double.value pattern ≤ 2 * Double.tiny ∧ |t.value| ≤ 2 * Double.tiny) := by
  by_cases hplain : t.IsPlain
  · have hfinite := nearest_lt_infinity (.inl hplain)
    rw [machine?_of_isPlain hplain] at hx
    rw [← Option.some.inj hx, nearest]
    refine ⟨_, Double.parts_ofPattern _ hfinite, Or.inl ?_⟩
    rw [abs_value, hplain.value_decimal, ← BinaryFormat.ofNat_eq_nearest]
    rcases Nat.eq_zero_or_pos (ofDigits t.whole) with hzero | hpos
    · have hnothing : BinaryFormat.double.ofNat 0 = 0 := by decide
      rw [hzero, hnothing, BinaryFormat.value_zero, Nat.cast_zero]
      exact ⟨by simp, by simp⟩
    · exact (Double.near_ofNat hpos hplain.lt.le).2.mono (by decide) (BinaryFormat.double.value_nonneg _)
        (Nat.cast_nonneg _)
  · rw [machine?_of_not_isPlain hplain] at hx
    obtain ⟨pattern, hpattern, rfl⟩ := Option.map_eq_some_iff.1 hx
    rw [abs_value]
    exact ⟨pattern, Double.parts_ofPattern _ (pattern_lt_infinity hpattern),
      near_of_pattern? ht hexponent hpattern⟩

/-- Up to the fifth largest machine number a token is read. -/
theorem exists_machine? {t : NumberToken} (ht : t.WellFormed)
    (hexponent : (t.exponent.getD 0).natAbs ≤ exponentLimit) (h : |t.value| ≤ Double.scaleLimit) :
    ∃ x, t.machine? = some x := by
  by_cases hplain : t.IsPlain
  · exact ⟨_, machine?_of_isPlain hplain⟩
  · rw [abs_value] at h
    have hself := BinaryFormat.Near.self (f := BinaryFormat.double) 1 t.decimal.value_nonneg
    obtain ⟨pattern, hpattern⟩ :=
      Option.isSome_iff_exists.1 (isSome_pattern? ht (by omega) hself h)
    exact ⟨_, by rw [machine?_of_not_isPlain hplain, hpattern, Option.map_some]⟩

/-- **A token that is read as a whole number spells a number near it**, or next to nothing. -/
theorem dist_of_whole? {t : NumberToken} (ht : t.WellFormed)
    (hexponent : (t.exponent.getD 0).natAbs ≤ exponentLimit) {x : Float} (hx : t.machine? = some x) {k : Int}
    (hk : Double.whole? x = some k) :
    2 ^ 50 * |k - t.value| ≤ |t.value| ∨ k = 0 ∧ |t.value| ≤ 1 / 2 ^ 900 := by
  obtain ⟨pattern, hparts, hnear⟩ := exists_pattern_of_machine? ht hexponent hx
  have hvalue := Double.value?_of_whole? hk
  rw [Double.value?_of_parts hparts] at hvalue
  have hvalue := Option.some.inj hvalue
  have hnonneg := BinaryFormat.double.value_nonneg pattern
  rcases hnear with hnear | ⟨hread, hsmall⟩
  · left
    rw [← hvalue, value, Double.abs_signed_sub, ← value, ← abs_value]
    exact Double.dist_le_of_near (by decide) hnear hnonneg (abs_nonneg _)
  · right
    have htiny : 2 * Double.tiny ≤ 1 / 2 ^ 900 :=
      (mul_le_mul_of_nonneg_right (by norm_num) Double.tiny_pos.le).trans Double.four_mul_tiny_le
    have hone : (1 : ℚ) / 2 ^ 900 < 1 := by
      rw [div_lt_one (by positivity)]
      exact one_lt_pow₀ one_lt_two (by decide)
    have hless : |k| < 1 := by
      have hcast : |(k : ℚ)| < 1 := by
        rw [← hvalue, Double.abs_signed _ hnonneg]
        exact (hread.trans htiny).trans_lt hone
      exact_mod_cast hcast
    exact ⟨Int.abs_lt_one_iff.1 hless, hsmall.trans htiny⟩

/-- From two to the fifty-third on every machine number near a number is whole. -/
theorem exists_whole?_of_le {t : NumberToken} (ht : t.WellFormed)
    (hexponent : (t.exponent.getD 0).natAbs ≤ exponentLimit) (h : 2 ^ 53 ≤ |t.value|) {x : Float}
    (hx : t.machine? = some x) : ∃ k, Double.whole? x = some k := by
  obtain ⟨pattern, hparts, hnear⟩ := exists_pattern_of_machine? ht hexponent hx
  have hlarge : (BinaryFormat.double.binade : ℚ) ≤ BinaryFormat.double.value pattern := by
    rw [Double.binade_eq]
    rcases hnear with hnear | ⟨-, hsmall⟩
    · have hdouble := Double.le_two_mul_of_near (by decide) hnear (abs_nonneg _)
      norm_num at h ⊢
      linarith
    · have hone := Double.tiny_le_one
      norm_num at h
      linarith
  obtain ⟨-, hfinite⟩ := Double.ofPattern_of_parts hparts
  rw [Double.whole?, hparts]
  dsimp only
  rw [if_pos (BinaryFormat.double.isWhole_of_le hfinite hlarge)]
  exact ⟨_, rfl⟩

end Json.NumberToken

end FieldDiagram
