import FieldDiagram.Proofs.Decimal.Order
/-!
# Quotients of machine numbers

A number divided by one that is at least as large is a number between zero and one. The quotient is
rounded twice on its way: it is cut off when the division ends, and rounded to the width of a machine
number after that. Neither step gets beyond one, because one is a number of every width: what is below
it is rounded to one at most, and one itself is not rounded at all.

Main statement: `Single.parts_div`.
-/

namespace FieldDiagram

open Float.Model (UnpackedFloat Format)
open Float.Model.UnpackedFloat

/-! ## Rounding what is at most one

Rounding up may add one in the last place. The quotient is then at most one all the same: had it been one
before, there would be nothing to round. -/

namespace ModelDivision

theorem mantissa_shiftRight (em : ExtendedMantissa) (n : Nat) :
    (em >>> n).mantissa = em.mantissa / 2 ^ n := by
  induction n with
  | zero => exact (Nat.div_one _).symm
  | succ n ih =>
    change (em >>> n).mantissa / 2 = _
    rw [ih, Nat.div_div_eq_div_mul, Nat.pow_succ]

/-- Zeros at the end are shifted out without a trace. -/
theorem exact_shiftRight (m n : Nat) :
    ExtendedMantissa.ofMantissaAndAccuracy (m * 2 ^ n) .exact >>> n = ⟨m, false, false⟩ := by
  induction n generalizing m with
  | zero =>
    rw [Nat.pow_zero, Nat.mul_one]
    rfl
  | succ n ih =>
    -- the last bit to go is a zero as well
    change (ExtendedMantissa.ofMantissaAndAccuracy (m * 2 ^ (n + 1)) .exact >>> n).shiftRightOne = _
    rw [Nat.pow_succ', ← Nat.mul_assoc, ih]
    simp [ExtendedMantissa.shiftRightOne]

theorem roundedMantissa_le (em : ExtendedMantissa) : em.roundedMantissa ≤ em.mantissa + 1 := by
  obtain ⟨m, roundBit, stickyBit⟩ := em
  unfold ExtendedMantissa.roundedMantissa ExtendedMantissa.accuracy Accuracy.roundToNearestEven
  cases roundBit <;> cases stickyBit <;> dsimp only <;> omega

theorem mantissa_ofMantissaAndAccuracy (m : Nat) (accuracy : Accuracy) :
    (ExtendedMantissa.ofMantissaAndAccuracy m accuracy).mantissa = m := by
  cases accuracy with
  | exact => rfl
  | inexact side => cases side <;> rfl

/-- A quotient cut off after `k` binary places, and at most one. If what is left of it is one, then
nothing has been cut off. -/
def AtMostOne (m k : Nat) (accuracy : Accuracy) : Prop :=
  m < 2 ^ k ∨ m = 2 ^ k ∧ accuracy = .exact

/-- Places are dropped, and no more of them than there are. -/
theorem shiftToTargetExponent_eq {m k : Nat} (h : m ≤ 2 ^ k) (accuracy : Accuracy) :
    ∃ n ≤ k, shiftToTargetExponent .binary32 m (-(k : Int)) accuracy =
      (ExtendedMantissa.ofMantissaAndAccuracy m accuracy >>> n, -((k - n : Nat) : Int)) := by
  have hlog : m.log2 ≤ k := by
    by_cases hzero : m = 0
    · rw [hzero]
      exact Nat.zero_le k
    · have hpow : 2 ^ k < 2 ^ (k + 1) := Nat.pow_lt_pow_right (by decide) (Nat.lt_succ_self k)
      exact Nat.le_of_lt_succ ((Nat.log2_lt hzero).2 (Nat.lt_of_le_of_lt h hpow))
  have htarget : Format.binary32.targetExponent (Float.Model.totalExponent m (-(k : Int))) ≤ 0 := by
    unfold Format.targetExponent Float.Model.totalExponent Format.mantissaBits Format.minExponent
    simp only [Format.mantissaBits]
    omega
  unfold shiftToTargetExponent shiftToExponent
  generalize Format.binary32.targetExponent (Float.Model.totalExponent m (-(k : Int))) = target at *
  refine ⟨(target - -(k : Int)).toNat, by omega, ?_⟩
  dsimp only
  congr 1
  omega

theorem AtMostOne.roundedMantissa_le {m k n : Nat} {accuracy : Accuracy} (h : AtMostOne m k accuracy)
    (hn : n ≤ k) :
    (ExtendedMantissa.ofMantissaAndAccuracy m accuracy >>> n).roundedMantissa ≤ 2 ^ (k - n) := by
  have hsplit : 2 ^ k = 2 ^ (k - n) * 2 ^ n := by
    rw [← Nat.pow_add, Nat.sub_add_cancel hn]
  rcases h with hlt | ⟨rfl, rfl⟩
  · have hcut : m / 2 ^ n < 2 ^ (k - n) := by
      rw [Nat.div_lt_iff_lt_mul (Nat.two_pow_pos n), ← hsplit]
      exact hlt
    have hround := ModelDivision.roundedMantissa_le
      (ExtendedMantissa.ofMantissaAndAccuracy m accuracy >>> n)
    rw [mantissa_shiftRight, mantissa_ofMantissaAndAccuracy] at hround
    omega
  · rw [hsplit, exact_shiftRight]
    exact Nat.le_refl _

/-- A positive number of the model that is at most one, or zero. -/
inductive FromZeroToOne : UnpackedFloat → Prop
  | zero : FromZeroToOne (.zero .positive)
  | finite {m k : Nat} (hpos : 0 < m) (hle : m ≤ 2 ^ k) :
    FromZeroToOne (.finite .positive m (-(k : Int)) hpos)

/-- What is at most one is rounded to one at most. -/
theorem AtMostOne.roundWithAccuracy {m k : Nat} {accuracy : Accuracy} (h : AtMostOne m k accuracy) :
    FromZeroToOne (roundWithAccuracy .binary32 .positive m (-(k : Int)) accuracy) := by
  have hle : m ≤ 2 ^ k := by
    rcases h with hlt | ⟨heq, -⟩ <;> omega
  obtain ⟨n, hn, hfirst⟩ := shiftToTargetExponent_eq hle accuracy
  have hrounded := h.roundedMantissa_le hn
  -- rounding may have carried into one more place, which is dropped in turn
  obtain ⟨n', hn', hsecond⟩ := shiftToTargetExponent_eq hrounded .exact
  unfold UnpackedFloat.roundWithAccuracy
  simp only [hfirst, hsecond]
  split
  · exact .zero
  · apply FromZeroToOne.finite
    rw [mantissa_shiftRight, mantissa_ofMantissaAndAccuracy]
    apply Nat.div_le_of_le_mul
    rw [← Nat.pow_add, Nat.add_sub_cancel' hn']
    exact hrounded

/-! ## Dividing

Division in the model is one of whole numbers, with more places than the result has, and a note on what was
cut off. -/

/-- The quotient of a number by one that is at least as large is at most one. Both are given by
significand and shift. -/
theorem divCore_atMostOne {m₁ m₂ s₁ s₂ : Nat} (hm₁ : 0 < m₁) (hm₂ : 0 < m₂)
    (hle : m₁ * 2 ^ s₁ ≤ m₂ * 2 ^ s₂) (unit : Int) :
    ∃ m k accuracy, AtMostOne m k accuracy ∧
      divCore .binary32 m₁ (s₁ - unit) m₂ (s₂ - unit) = (m, -(k : Int), accuracy) := by
  -- the dividend has no more bits than the divisor, so the last place of the quotient is at most that of one
  have hlog : m₁.log2 + s₁ ≤ m₂.log2 + s₂ := by
    have hlow : 2 ^ (m₁.log2 + s₁) ≤ m₁ * 2 ^ s₁ := by
      rw [Nat.pow_add]
      exact Nat.mul_le_mul_right _ (Nat.log2_self_le (by omega))
    have hhigh : m₂ * 2 ^ s₂ < 2 ^ (m₂.log2 + s₂ + 1) := by
      rw [Nat.add_right_comm, Nat.pow_add]
      exact Nat.mul_lt_mul_of_pos_right Nat.lt_log2_self (Nat.two_pow_pos s₂)
    have hpow := (Nat.pow_lt_pow_iff_right (by decide : 1 < 2)).1
      (Nat.lt_of_le_of_lt (Nat.le_trans hlow hle) hhigh)
    omega
  unfold divCore
  have htarget : Format.binary32.targetExponent (Float.Model.totalExponent m₁ (s₁ - unit) -
      Float.Model.totalExponent m₂ (s₂ - unit)) ≤ 0 := by
    unfold Format.targetExponent Float.Model.totalExponent Format.minExponent
    simp only [Format.mantissaBits]
    omega
  generalize Format.binary32.targetExponent (Float.Model.totalExponent m₁ (s₁ - unit) -
    Float.Model.totalExponent m₂ (s₂ - unit)) = target at *
  obtain ⟨k, hk⟩ : ∃ k : Nat, min (s₁ - unit - (s₂ - unit)) target = -(k : Int) :=
    ⟨(-min (s₁ - unit - (s₂ - unit)) target).toNat, by omega⟩
  have hshift : ∃ a : Nat, (s₁ - unit - (s₂ - unit) - -(k : Int)).toNat = a ∧ a + s₂ = s₁ + k :=
    ⟨_, rfl, by omega⟩
  obtain ⟨a, ha, hsum⟩ := hshift
  dsimp only
  rw [hk, ha, Nat.shiftLeft_eq]
  refine ⟨_, k, _, ?_, rfl⟩
  have hnum : m₁ * 2 ^ a ≤ m₂ * 2 ^ k := by
    apply Nat.le_of_mul_le_mul_right _ (Nat.two_pow_pos s₂)
    calc m₁ * 2 ^ a * 2 ^ s₂ = m₁ * 2 ^ s₁ * 2 ^ k := by
          rw [Nat.mul_assoc, ← Nat.pow_add, hsum, Nat.pow_add, Nat.mul_assoc]
      _ ≤ m₂ * 2 ^ s₂ * 2 ^ k := Nat.mul_le_mul_right _ hle
      _ = m₂ * 2 ^ k * 2 ^ s₂ := Nat.mul_right_comm _ _ _
  -- below one the digits say so themselves; one is exact, with nothing cut off
  rcases Nat.lt_or_eq_of_le hnum with hlt | heq
  · left
    exact Nat.div_lt_of_lt_mul hlt
  · right
    rw [heq, Nat.mul_div_cancel_left _ hm₂, Nat.mul_mod_right]
    exact ⟨rfl, rfl⟩

/-! ## Bits of what is at most one

From the result of the model back to a pattern, which is what comparisons are about. -/

theorem unpackSign_packComponents {S : Format} (sign : Sign) (exponent : BitVec S.exponentBits)
    (mantissa : BitVec S.mantissaBitsWithoutImplicit) :
    unpackSign (packComponents S sign exponent mantissa) = sign.toBitVec := by
  ext i hi
  have hfirst : i = 0 := by omega
  simp [unpackSign, packComponents, hfirst, ← BitVec.getLsbD_eq_getElem, BitVec.getLsbD_append]

/-- The parts of a positive number that is packed with an exponent below the last one. -/
theorem parts_packComponents (exponent mantissa : Nat) (hexponent : exponent < 255) :
    BinaryFormat.single.parts (packComponents .binary32 .positive (BitVec.ofNat 8 exponent)
      (BitVec.ofNat 23 mantissa)).toNat = .finite false (exponent * 2 ^ 23 + mantissa % 2 ^ 23) := by
  have hparts := parts_toNat (S := .binary32) (packComponents .binary32 .positive
    (BitVec.ofNat 8 exponent) (BitVec.ofNat 23 mantissa))
  have hnat : (BitVec.ofNat 8 exponent).toNat = exponent := by
    rw [BitVec.toNat_ofNat]
    omega
  have hones : BitVec.ofNat 8 exponent ≠ -1#8 := by
    intro heq
    have hlast := congrArg BitVec.toNat heq
    rw [hnat] at hlast
    change exponent = 255 at hlast
    omega
  rw [unpackExponent_packComponents, if_pos hones, unpackSign_packComponents, patternOfBits,
    unpackExponent_packComponents, unpackMantissa_packComponents, hnat, BitVec.toNat_ofNat] at hparts
  exact hparts

/-- The pattern of one. -/
theorem ofNat_one : BinaryFormat.single.ofNat 1 = 127 * 2 ^ 23 := by decide

/-- No pattern beyond that of one belongs to a number that is at most one. -/
theorem FromZeroToOne.parts_pack {x : UnpackedFloat} (h : FromZeroToOne x) :
    ∃ pattern ≤ BinaryFormat.single.ofNat 1,
      BinaryFormat.single.parts (pack .binary32 x).toNat = .finite false pattern := by
  rw [ofNat_one]
  cases h with
  | zero => exact ⟨0, Nat.zero_le _, parts_packComponents 0 0 (by omega)⟩
  | @finite m k hpos hle =>
    have hbiased : (-(k : Int) + Format.binary32.exponentBias +
        Format.binary32.mantissaBitsWithoutImplicit).toNat = 150 - k := by
      change (-(k : Int) + (127 : Nat) + (23 : Nat)).toNat = 150 - k
      omega
    have hsmall : ¬ 2 ^ Format.binary32.exponentBits ≤ 150 - k + 1 := by
      change ¬ 2 ^ 8 ≤ 150 - k + 1
      omega
    have hmod := Nat.mod_lt m (Nat.two_pow_pos 23)
    unfold pack
    simp only [hbiased]
    rw [if_neg hsmall]
    split
    · next hfull =>
      -- a full significand that is at most one has twenty-three places behind the point, or more
      have hlog : m.log2 = 23 := by
        change m.log2 + 1 = 24 at hfull
        omega
      have hbits := (Nat.log2_eq_iff (by omega)).1 hlog
      have hplaces : 23 ≤ k := by
        by_contra hfew
        have hpow : 2 ^ k < 2 ^ 23 := Nat.pow_lt_pow_right (by decide) (by omega)
        omega
      refine ⟨_, ?_, parts_packComponents (150 - k) m (by omega)⟩
      by_cases hone : k = 23
      · rw [hone] at hle ⊢
        omega
      · omega
    · exact ⟨_, by omega, parts_packComponents 0 m (by omega)⟩

end ModelDivision

/-! ## Single precision -/

namespace Single

open ModelDivision

/-- **A number divided by one that is at least as large lies between zero and one.** -/
theorem parts_div {x y : Float32} {p q : Nat} (hx : parts x = .finite false p)
    (hy : parts y = .finite false q) (hle : p ≤ q) (hpos : 0 < q) :
    ∃ pattern ≤ BinaryFormat.single.ofNat 1, parts (x / y) = .finite false pattern := by
  have hunpack (z : Float32) : unpack .binary32 z.toBits.toBitVec = (parts z).unpacked .single :=
    unpack_eq (S := .binary32) z.toBits.toBitVec
  have hquotient : (x / y).toBits.toBitVec = pack .binary32 (UnpackedFloat.div .binary32
      ((parts x).unpacked .single) ((parts y).unpacked .single)) := by
    rw [← hunpack, ← hunpack]
    rfl
  have hparts : parts (x / y) = BinaryFormat.single.parts (pack .binary32 (UnpackedFloat.div .binary32
      ((parts x).unpacked .single) ((parts y).unpacked .single))).toNat := by
    rw [← hquotient]
    rfl
  rw [hparts, hx, hy]
  apply FromZeroToOne.parts_pack
  -- the divisor is not zero; a dividend of zero gives zero, and all else is divided by significands
  rcases FloatParts.unpacked_finite .single false q with ⟨rfl, -⟩ | ⟨-, hm₂, hv⟩
  · exact absurd hpos (Nat.lt_irrefl 0)
  rcases FloatParts.unpacked_finite .single false p with ⟨-, hu⟩ | ⟨-, hm₁, hu⟩
  · rw [hu, hv]
    exact .zero
  · rw [hu, hv]
    have hmagnitude := BinaryFormat.single.magnitude_mono hle
    unfold BinaryFormat.magnitude at hmagnitude
    rw [Nat.shiftLeft_eq, Nat.shiftLeft_eq] at hmagnitude
    obtain ⟨m, k, accuracy, hone, hcore⟩ :=
      divCore_atMostOne hm₁ hm₂ hmagnitude BinaryFormat.single.unitBits
    simp only [UnpackedFloat.div, hcore]
    exact hone.roundWithAccuracy

end Single

end FieldDiagram
