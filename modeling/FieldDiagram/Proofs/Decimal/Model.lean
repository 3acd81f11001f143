import FieldDiagram.Decimal.Binary
import Mathlib
/-!
# Bits of machine numbers and the model of their arithmetic

The language defines the arithmetic of machine numbers by a model that takes the bits of a number
apart: a sign, an exponent and a fraction. A `BinaryFormat` takes them apart as well, into a sign and a
pattern. Both ways tell the same number, in every format, so what the model says of numbers can be said
of their patterns.

Main statement: `unpack_eq`.
-/

namespace FieldDiagram

open Float.Model (UnpackedFloat)
open Float.Model.UnpackedFloat

/-! ## Patterns by their fields

A pattern is one number, with the exponent in its upper part. Taking it apart gives the significand and how
far that is shifted. -/

namespace BinaryFormat

/-- A pattern is told by its significand and how far that is shifted. -/
theorem shift_mul_binade_add_significand (f : BinaryFormat) (pattern : Nat) :
    f.shift pattern * f.binade + f.significand pattern = pattern := by
  have hpos := f.binade_pos
  rw [shift, significand]
  split
  · next hsmall => rw [Nat.div_eq_of_lt hsmall, Nat.zero_sub, Nat.zero_mul, Nat.zero_add]
  · next hlarge =>
    have hsplit := Nat.div_add_mod' pattern f.binade
    have hquotient : 1 ≤ pattern / f.binade := (Nat.one_le_div_iff hpos).2 (by omega)
    obtain ⟨q, hq⟩ := Nat.exists_eq_add_of_le' hquotient
    rw [hq, Nat.add_mul] at hsplit
    rw [hq, Nat.add_sub_cancel]
    omega

theorem significand_lt (f : BinaryFormat) (pattern : Nat) : f.significand pattern < 2 * f.binade := by
  have hpos := f.binade_pos
  have hmod := Nat.mod_lt pattern hpos
  rw [significand]
  split <;> omega

/-- A significand that is shifted has its leading bit. -/
theorem le_significand (f : BinaryFormat) (pattern : Nat) (h : f.shift pattern ≠ 0) :
    f.binade ≤ f.significand pattern := by
  rw [shift] at h
  rw [significand]
  split
  · next hsmall =>
    rw [Nat.div_eq_of_lt hsmall] at h
    exact absurd rfl h
  · omega

theorem significand_pos_iff (f : BinaryFormat) (pattern : Nat) :
    0 < f.significand pattern ↔ 0 < pattern := by
  have hpos := f.binade_pos
  rw [significand]
  split <;> omega

/-- Significand and shift of a pattern, by its exponent field and its fraction. -/
theorem fields_of_lt (f : BinaryFormat) {fraction : Nat} (h : fraction < f.binade) (exponent : Nat) :
    f.significand (exponent * f.binade + fraction) =
        (if exponent = 0 then fraction else f.binade + fraction) ∧
      f.shift (exponent * f.binade + fraction) = exponent - 1 := by
  have hdiv : (exponent * f.binade + fraction) / f.binade = exponent := by
    rw [Nat.mul_comm, Nat.mul_add_div f.binade_pos, Nat.div_eq_of_lt h, Nat.add_zero]
  have hmod : (exponent * f.binade + fraction) % f.binade = fraction := by
    rw [Nat.mul_comm, Nat.mul_add_mod, Nat.mod_eq_of_lt h]
  rw [significand, shift, hdiv, hmod]
  refine ⟨?_, rfl⟩
  by_cases hzero : exponent = 0
  · rw [hzero, Nat.zero_mul, Nat.zero_add, if_pos h, if_pos rfl]
  · have hlarge := Nat.mul_le_mul_right f.binade (Nat.one_le_iff_ne_zero.2 hzero)
    rw [if_neg (by omega), if_neg hzero]

/-- The format of a model of machine numbers. -/
def ofModel (S : Float.Model.Format) : BinaryFormat :=
  ⟨S.mantissaBitsWithoutImplicit, S.exponentBits⟩

theorem binade_ofModel (S : Float.Model.Format) :
    (ofModel S).binade = 2 ^ S.mantissaBitsWithoutImplicit := by
  rw [binade, Nat.one_shiftLeft]
  rfl

theorem signBit_ofModel (S : Float.Model.Format) :
    (ofModel S).signBit = 2 ^ S.exponentBits * 2 ^ S.mantissaBitsWithoutImplicit := by
  rw [signBit, Nat.one_shiftLeft, ← Nat.pow_add]
  rfl

theorem infinity_ofModel (S : Float.Model.Format) :
    (ofModel S).infinity = (2 ^ S.exponentBits - 1) * 2 ^ S.mantissaBitsWithoutImplicit := by
  rw [infinity, binade_ofModel, Nat.one_shiftLeft]
  rfl

end BinaryFormat

/-! ## Bits by their fields

The model cuts bits into three fields of fixed width. Seen as one number, these are quotients and remainders
by powers of two. -/

section Bits

variable {S : Float.Model.Format} (b : BitVec S.numBits)

theorem toNat_unpackMantissa :
    (unpackMantissa b).toNat = b.toNat % 2 ^ S.mantissaBitsWithoutImplicit := by
  have hm := S.hm
  simp [unpackMantissa, Nat.sub_add_cancel hm]

theorem toNat_unpackExponent :
    (unpackExponent b).toNat =
      b.toNat / 2 ^ S.mantissaBitsWithoutImplicit % 2 ^ S.exponentBits := by
  have he := S.he
  have hm := S.hm
  have hwidth : S.mantissaBitsWithoutImplicit + S.exponentBits - 1 - S.mantissaBitsWithoutImplicit + 1 =
    S.exponentBits := by omega
  simp [unpackExponent, Nat.shiftRight_eq_div_pow, hwidth]

theorem toNat_unpackSign :
    (unpackSign b).toNat =
      b.toNat / 2 ^ (S.mantissaBitsWithoutImplicit + S.exponentBits) % 2 := by
  simp [unpackSign, Nat.shiftRight_eq_div_pow]

/-- The pattern of the bits of a number: exponent and fraction without the sign. -/
def patternOfBits : Nat :=
  (unpackExponent b).toNat * 2 ^ S.mantissaBitsWithoutImplicit + (unpackMantissa b).toNat

theorem patternOfBits_lt : patternOfBits b < (BinaryFormat.ofModel S).signBit := by
  have hmant : (unpackMantissa b).toNat < 2 ^ S.mantissaBitsWithoutImplicit :=
    (unpackMantissa b).isLt
  have hexp : (unpackExponent b).toNat < 2 ^ S.exponentBits := (unpackExponent b).isLt
  rw [BinaryFormat.signBit_ofModel]
  calc patternOfBits b < ((unpackExponent b).toNat + 1) * 2 ^ S.mantissaBitsWithoutImplicit := by
        rw [patternOfBits, Nat.add_mul, Nat.one_mul]
        omega
    _ ≤ 2 ^ S.exponentBits * 2 ^ S.mantissaBitsWithoutImplicit := Nat.mul_le_mul_right _ hexp

/-- The bits of a number are its sign and its pattern. -/
theorem toNat_eq_fields :
    b.toNat = (unpackSign b).toNat * (BinaryFormat.ofModel S).signBit + patternOfBits b := by
  have hbits : b.toNat < 2 ^ (1 + S.exponentBits + S.mantissaBitsWithoutImplicit) := b.isLt
  have hsign : b.toNat / 2 ^ S.mantissaBitsWithoutImplicit / 2 ^ S.exponentBits < 2 := by
    rw [Nat.div_div_eq_div_mul, ← Nat.pow_add, Nat.div_lt_iff_lt_mul (Nat.two_pow_pos _),
      ← Nat.pow_succ']
    rwa [show (S.mantissaBitsWithoutImplicit + S.exponentBits).succ =
      1 + S.exponentBits + S.mantissaBitsWithoutImplicit by omega]
  rw [BinaryFormat.signBit_ofModel, patternOfBits, ← Nat.add_assoc, ← Nat.mul_assoc, ← Nat.add_mul,
    toNat_unpackSign, toNat_unpackExponent, toNat_unpackMantissa, Nat.pow_add,
    ← Nat.div_div_eq_div_mul, Nat.mod_eq_of_lt hsign, Nat.div_add_mod', Nat.div_add_mod']

theorem toNat_mod_signBit : b.toNat % (BinaryFormat.ofModel S).signBit = patternOfBits b := by
  rw [toNat_eq_fields b, Nat.mul_add_mod_self_right, Nat.mod_eq_of_lt (patternOfBits_lt b)]

theorem signBit_le_iff :
    (BinaryFormat.ofModel S).signBit ≤ b.toNat ↔ unpackSign b ≠ 0#1 := by
  have hsign : (unpackSign b).toNat < 2 := (unpackSign b).isLt
  have hpattern := patternOfBits_lt b
  rw [toNat_eq_fields b, ne_eq, ← BitVec.toNat_inj, BitVec.toNat_zero]
  constructor
  · intro hle hzero
    rw [hzero, Nat.zero_mul] at hle
    omega
  · intro hne
    rw [show (unpackSign b).toNat = 1 by omega]
    omega

/-- The exponents that are not all ones belong to the patterns below infinity. -/
theorem patternOfBits_lt_infinity_iff :
    patternOfBits b < (BinaryFormat.ofModel S).infinity ↔ unpackExponent b ≠ -1#_ := by
  have hmant : (unpackMantissa b).toNat < 2 ^ S.mantissaBitsWithoutImplicit :=
    (unpackMantissa b).isLt
  have hexp : (unpackExponent b).toNat < 2 ^ S.exponentBits := (unpackExponent b).isLt
  rw [ne_eq, ← BitVec.toNat_inj, BitVec.neg_one_eq_allOnes, BitVec.toNat_allOnes,
    BinaryFormat.infinity_ofModel, patternOfBits]
  constructor
  · intro hlt hones
    rw [hones] at hlt
    omega
  · intro hne
    have hle := Nat.mul_le_mul_right (2 ^ S.mantissaBitsWithoutImplicit)
      (show (unpackExponent b).toNat + 1 ≤ 2 ^ S.exponentBits - 1 by omega)
    rw [Nat.succ_mul] at hle
    omega

/-- Among the patterns from infinity on, infinity is the one without a fraction. -/
theorem patternOfBits_eq_infinity_iff (h : unpackExponent b = -1#_) :
    patternOfBits b = (BinaryFormat.ofModel S).infinity ↔ unpackMantissa b = 0#_ := by
  rw [patternOfBits, BinaryFormat.infinity_ofModel, h, BitVec.neg_one_eq_allOnes, BitVec.toNat_allOnes,
    ← BitVec.toNat_inj, BitVec.toNat_zero]
  omega

/-- What a number is, by the fields of its bits. -/
theorem parts_toNat :
    (BinaryFormat.ofModel S).parts b.toNat =
      if unpackExponent b ≠ -1#_ then .finite (unpackSign b ≠ 0#1) (patternOfBits b)
      else if unpackMantissa b = 0#_ then .infinite (unpackSign b ≠ 0#1) else .nan := by
  rw [BinaryFormat.parts, toNat_mod_signBit, decide_eq_decide.2 (signBit_le_iff b)]
  simp only [patternOfBits_lt_infinity_iff]
  split
  · rfl
  · next hones => simp only [patternOfBits_eq_infinity_iff b (not_not.1 hones)]

/-- Bits whose pattern is not beyond infinity are those of a number of the model. -/
theorem valid_of_le (h : b.toNat % (BinaryFormat.ofModel S).signBit ≤ (BinaryFormat.ofModel S).infinity) :
    S.Valid b := by
  refine ⟨fun hones hfraction => absurd ?_ hfraction⟩
  rw [toNat_mod_signBit] at h
  rw [← patternOfBits_eq_infinity_iff b hones]
  have hge := mt (patternOfBits_lt_infinity_iff b).1 (not_not.2 hones)
  omega

end Bits

/-! ## Numbers of the model

Both ways lead to a sign, a significand and an exponent, where the model counts exponents from another
start. -/

/-- The sign of a number in the model. -/
def modelSign (negative : Bool) : Sign := if negative then .negative else .positive

/-- What a number is, as the model has it. -/
def FloatParts.unpacked (f : BinaryFormat) : FloatParts → UnpackedFloat
  | nan => .notANumber
  | infinite negative => .infinity (modelSign negative)
  | finite negative pattern =>
    if h : 0 < f.significand pattern then
      .finite (modelSign negative) (f.significand pattern) (f.shift pattern - f.unitBits) h
    else .zero (modelSign negative)

/-- **The model takes a number apart as its format does.** -/
theorem unpack_eq {S : Float.Model.Format} (b : BitVec S.numBits) :
    unpack S b = ((BinaryFormat.ofModel S).parts b.toNat).unpacked (.ofModel S) := by
  have hmant : (unpackMantissa b).toNat < 2 ^ S.mantissaBitsWithoutImplicit :=
    (unpackMantissa b).isLt
  have hbinade := BinaryFormat.binade_ofModel S
  have hunit : ((BinaryFormat.ofModel S).unitBits : Int) =
      S.exponentBias + S.mantissaBitsWithoutImplicit - 1 := by
    have hm := S.hm
    have hpow := Nat.two_pow_pos (S.exponentBits - 1)
    rw [BinaryFormat.unitBits, Nat.one_shiftLeft, Float.Model.Format.exponentBias]
    simp only [BinaryFormat.ofModel]
    omega
  have hsign : Sign.ofBitVec (unpackSign b) = modelSign (unpackSign b ≠ 0#1) := by
    rw [Sign.ofBitVec, modelSign]
    by_cases h : unpackSign b = 0#1 <;> simp [h]
  have hzeroMantissa : unpackMantissa b = 0#_ ↔ (unpackMantissa b).toNat = 0 := by
    rw [← BitVec.toNat_inj, BitVec.toNat_zero]
  have hzeroExponent : unpackExponent b = 0#_ ↔ (unpackExponent b).toNat = 0 := by
    rw [← BitVec.toNat_inj, BitVec.toNat_zero]
  rw [parts_toNat, unpack, hsign]
  by_cases hones : unpackExponent b = -1#_
  · rw [if_pos hones, if_neg (not_not.2 hones)]
    by_cases hfraction : unpackMantissa b = 0#_
    · rw [if_pos hfraction, if_pos hfraction, FloatParts.unpacked]
    · rw [if_neg hfraction, if_neg hfraction, FloatParts.unpacked]
  · rw [if_neg hones, if_pos hones, FloatParts.unpacked]
    obtain ⟨hsignificand, hshift⟩ := (BinaryFormat.ofModel S).fields_of_lt
      (hbinade ▸ hmant) (unpackExponent b).toNat
    rw [hbinade] at hsignificand hshift
    simp only [patternOfBits, hsignificand, hshift]
    by_cases hleast : (unpackExponent b).toNat = 0
    · -- no leading bit: a fraction in units, or zero
      simp only [if_pos (hzeroExponent.2 hleast), if_pos hleast]
      by_cases hfraction : (unpackMantissa b).toNat = 0
      · rw [dif_pos (hzeroMantissa.2 hfraction), dif_neg (by omega)]
      · rw [dif_neg (by rwa [hzeroMantissa]), dif_pos (by omega)]
        congr 1
        omega
    · have hfull : (1#1 ++ unpackMantissa b).toNat =
          2 ^ S.mantissaBitsWithoutImplicit + (unpackMantissa b).toNat := by
        rw [BitVec.toNat_append, ← Nat.shiftLeft_add_eq_or_of_lt hmant]
        simp [Nat.shiftLeft_eq]
      simp only [if_neg (fun h => hleast (hzeroExponent.1 h)), if_neg hleast, hfull]
      rw [dif_pos (by omega)]
      congr 1
      omega

end FieldDiagram
