import FieldDiagram.Proofs.Decimal.Bits
/-!
# Whole numbers as machine numbers

A whole number is rounded when it becomes a machine number, but what comes out is again a whole
number, and a finite one unless it was enormous. A machine number that is a whole number already is the
one nearest to that number, so nothing is lost on the way to the whole number and back.
-/

namespace FieldDiagram

/-! ## Rounding

Where a quotient is rounded in its binade, and how far that can take it. -/

theorem div_le_roundHalfEven (num den : Nat) : num / den ≤ roundHalfEven num den := by
  rw [roundHalfEven]
  split
  · exact Nat.le_refl _
  · split <;> omega

theorem roundHalfEven_le (num den : Nat) : roundHalfEven num den ≤ num / den + 1 := by
  rw [roundHalfEven]
  split
  · omega
  · split <;> omega

namespace BinaryFormat

theorem binade_eq (f : BinaryFormat) : f.binade = 2 ^ f.fractionBits := by
  rw [binade, Nat.one_shiftLeft]

theorem one_eq (f : BinaryFormat) : f.one = 2 ^ f.unitBits := by
  rw [one, Nat.one_shiftLeft]

theorem ofRatio_le_infinity (f : BinaryFormat) (num den : Nat) : f.ofRatio num den ≤ f.infinity :=
  Nat.min_le_right _ _

theorem ofDecimal_le_infinity (f : BinaryFormat) (d : Decimal) : f.ofDecimal d ≤ f.infinity := by
  rw [ofDecimal]
  split
  · exact Nat.zero_le _
  split
  · split
    · exact Nat.le_refl _
    · exact f.ofRatio_le_infinity _ _
  · split
    · exact Nat.zero_le _
    · exact f.ofRatio_le_infinity _ _

/-- In the binade of a quotient that is large enough, rounding gives a full significand, or the first one
of the next binade. -/
theorem roundHalfEven_binade (f : BinaryFormat) {num den : Nat} (hzero : num / den ≠ 0)
    (h : f.fractionBits ≤ (num / den).log2) :
    f.binade ≤ roundHalfEven num (den <<< ((num / den).log2 - f.fractionBits)) ∧
      roundHalfEven num (den <<< ((num / den).log2 - f.fractionBits)) ≤ 2 * f.binade := by
  rw [Nat.shiftLeft_eq, binade_eq]
  have hpow := Nat.two_pow_pos ((num / den).log2 - f.fractionBits)
  have hlow : 2 ^ f.fractionBits * 2 ^ ((num / den).log2 - f.fractionBits) ≤ num / den := by
    rw [← Nat.pow_add, Nat.add_sub_cancel' h]
    exact Nat.log2_self_le hzero
  have hhigh : num / den < 2 * 2 ^ f.fractionBits * 2 ^ ((num / den).log2 - f.fractionBits) := by
    rw [Nat.mul_assoc, ← Nat.pow_add, Nat.add_sub_cancel' h, Nat.mul_comm, ← Nat.pow_succ]
    exact Nat.lt_log2_self
  have hle := roundHalfEven_le num (den * 2 ^ ((num / den).log2 - f.fractionBits))
  have hge := div_le_roundHalfEven num (den * 2 ^ ((num / den).log2 - f.fractionBits))
  rw [← Nat.div_div_eq_div_mul] at hle hge
  have hquotient := (Nat.le_div_iff_mul_le hpow).2 hlow
  have hquotient' := (Nat.div_lt_iff_lt_mul hpow).2 hhigh
  omega

/-- A quotient that fills no significand is not shifted, and it is below the first binade. -/
theorem div_lt_binade (f : BinaryFormat) {num den : Nat}
    (h : ¬ (num / den ≠ 0 ∧ f.fractionBits ≤ (num / den).log2)) :
    num / den < f.binade ∧ (num / den).log2 - f.fractionBits = 0 := by
  by_cases hzero : num / den = 0
  · rw [hzero]
    exact ⟨f.binade_pos, by simp⟩
  · have hlog : (num / den).log2 < f.fractionBits := by
      by_contra hle
      exact h ⟨hzero, by omega⟩
    rw [binade_eq]
    exact ⟨(Nat.log2_lt hzero).1 hlog, by omega⟩

/-- Rounding never gives more than the first significand of the next binade. -/
theorem roundHalfEven_le_binade (f : BinaryFormat) (num den : Nat) :
    roundHalfEven num (den <<< ((num / den).log2 - f.fractionBits)) ≤ 2 * f.binade := by
  by_cases hlarge : num / den ≠ 0 ∧ f.fractionBits ≤ (num / den).log2
  · exact (f.roundHalfEven_binade hlarge.1 hlarge.2).2
  · obtain ⟨hsmall, hshift⟩ := f.div_lt_binade hlarge
    have hround := roundHalfEven_le num den
    rw [hshift, Nat.shiftLeft_zero]
    omega

/-- Up to the start of the second binade a pattern counts its own units. -/
theorem magnitude_of_le (f : BinaryFormat) {pattern : Nat} (h : pattern ≤ f.binade) :
    f.magnitude pattern = pattern := by
  rcases Nat.lt_or_eq_of_le h with hlt | rfl
  · exact f.magnitude_of_lt hlt
  · have hpos := f.binade_pos
    have hfirst := f.magnitude_normal 0 (Nat.le_refl f.binade) (by omega)
    rwa [Nat.zero_mul, Nat.add_zero, Nat.shiftLeft_zero] at hfirst

/-- What is rounded in a binade is the value of the nearest pattern. -/
theorem magnitude_ofRatio (f : BinaryFormat) {num den : Nat}
    (hfinite : f.ofRatio num den < f.infinity) :
    f.magnitude (f.ofRatio num den) =
      roundHalfEven num (den <<< ((num / den).log2 - f.fractionBits)) *
        2 ^ ((num / den).log2 - f.fractionBits) := by
  have hpattern : f.ofRatio num den =
      roundHalfEven num (den <<< ((num / den).log2 - f.fractionBits)) +
        ((num / den).log2 - f.fractionBits) * f.binade := by
    rw [ofRatio] at hfinite ⊢
    omega
  have hpos := f.binade_pos
  rw [hpattern]
  by_cases hlarge : num / den ≠ 0 ∧ f.fractionBits ≤ (num / den).log2
  · obtain ⟨hlow, hhigh⟩ := f.roundHalfEven_binade hlarge.1 hlarge.2
    generalize roundHalfEven num (den <<< ((num / den).log2 - f.fractionBits)) = r at *
    rcases Nat.lt_or_eq_of_le hhigh with hlt | rfl
    · rw [f.magnitude_normal _ hlow hlt, Nat.shiftLeft_eq]
    · -- rounded up to the end of the binade, it is the first pattern of the next one
      have hnext : 2 * f.binade + ((num / den).log2 - f.fractionBits) * f.binade =
          f.binade + ((num / den).log2 - f.fractionBits + 1) * f.binade := by
        rw [Nat.add_mul ((num / den).log2 - f.fractionBits) 1]
        omega
      rw [hnext, f.magnitude_normal _ (Nat.le_refl _) (by omega), Nat.shiftLeft_eq, Nat.pow_succ,
        Nat.mul_comm 2 f.binade, Nat.mul_assoc, Nat.mul_comm 2]
  · -- below the binades there are units and nothing else
    obtain ⟨hsmall, hshift⟩ := f.div_lt_binade hlarge
    have hround := roundHalfEven_le num den
    rw [hshift, Nat.shiftLeft_zero, Nat.zero_mul, Nat.add_zero, Nat.pow_zero, Nat.mul_one,
      f.magnitude_of_le (by omega)]

/-- The nearest pattern of a number is not much beyond its binade. -/
theorem ofRatio_le (f : BinaryFormat) (num : Nat) :
    f.ofRatio num 1 ≤ (num.log2 - f.fractionBits + 2) * f.binade := by
  have hround := f.roundHalfEven_le_binade num 1
  rw [Nat.div_one] at hround
  rw [ofRatio, Nat.div_one, Nat.add_mul]
  omega

/-! ## Whole numbers

A whole number that is too long for a significand is rounded at a place in front of the point, so it stays
whole. -/

/-- A whole number in units is so many ones. -/
theorem ofNat_eq (f : BinaryFormat) (n : Nat) : f.ofNat n = f.ofRatio (n * f.one) 1 := by
  rw [ofNat, ofDecimal]
  split
  · next hzero =>
    rw [show n = 0 from hzero, Nat.zero_mul]
    simp [ofRatio, roundHalfEven]
  · simp

/-- A whole number rounded is a whole number. -/
theorem isWhole_ofNat (f : BinaryFormat) {n : Nat} (h : f.ofNat n < f.infinity) :
    f.isWhole (f.ofNat n) = true := by
  rw [ofNat_eq] at h ⊢
  refine decide_eq_true (Nat.mod_eq_zero_of_dvd ?_)
  rw [f.magnitude_ofRatio h, Nat.div_one]
  generalize (n * f.one).log2 - f.fractionBits = s
  rw [Nat.one_shiftLeft, one_eq]
  -- either the last digit that is kept is worth whole ones, or no digit is rounded off
  rcases Nat.le_total f.unitBits s with hle | hle
  · exact Nat.dvd_mul_left_of_dvd (Nat.pow_dvd_pow 2 hle) _
  · have hexact : n * 2 ^ f.unitBits = n * 2 ^ (f.unitBits - s) * 2 ^ s := by
      rw [Nat.mul_assoc, ← Nat.pow_add, Nat.sub_add_cancel hle]
    rw [hexact, roundHalfEven_mul _ (Nat.two_pow_pos s), ← hexact]
    exact Nat.dvd_mul_left _ _

theorem log2_mul_one_le (f : BinaryFormat) {n k : Nat} (h : n ≤ 2 ^ k) :
    (n * f.one).log2 ≤ k + f.unitBits := by
  by_cases hn : n * f.one = 0
  · rw [hn]
    simp
  · have hpow : 2 ^ k < 2 ^ (k + 1) := Nat.pow_lt_pow_right (by decide) (Nat.lt_succ_self k)
    refine Nat.le_of_lt_succ ((Nat.log2_lt hn).2 ?_)
    rw [f.one_eq, Nat.succ_eq_add_one, Nat.add_right_comm, Nat.pow_add]
    exact Nat.mul_lt_mul_of_pos_right (Nat.lt_of_le_of_lt h hpow) (Nat.two_pow_pos _)

/-- A whole number of the format is its own nearest pattern. -/
theorem ofNat_floor (f : BinaryFormat) {pattern : Nat} (h : pattern ≤ f.infinity)
    (hwhole : f.isWhole pattern = true) : f.ofNat (f.floor pattern) = pattern := by
  rw [ofNat_eq, floor, Nat.div_mul_cancel (Nat.dvd_of_mod_eq_zero (of_decide_eq_true hwhole))]
  exact f.ofRatio_magnitude h

end BinaryFormat

/-! ## Double precision -/

namespace Double

/-- No whole number of sixty-four bits is too large. -/
theorem ofNat_lt_infinity {n : Nat} (h : n ≤ 2 ^ 64) :
    BinaryFormat.double.ofNat n < BinaryFormat.double.infinity := by
  have hunit : BinaryFormat.double.unitBits = 1074 := rfl
  have hlog := BinaryFormat.double.log2_mul_one_le h
  have hle := BinaryFormat.double.ofRatio_le (n * BinaryFormat.double.one)
  have hbinade : BinaryFormat.double.binade = 2 ^ 52 := by decide
  have hinf : BinaryFormat.double.infinity = 2047 * 2 ^ 52 := by decide
  have hbits : BinaryFormat.double.fractionBits = 52 := rfl
  rw [BinaryFormat.ofNat_eq, hinf]
  rw [hbinade, hbits] at hle
  omega

/-- No whole number above zero is too small. -/
theorem ofNat_pos {n : Nat} (h : 0 < n) : 0 < BinaryFormat.double.ofNat n := by
  have hunit : BinaryFormat.double.unitBits = 1074 := rfl
  have hbinade : BinaryFormat.double.binade = 2 ^ 52 := by decide
  have hinf : BinaryFormat.double.infinity = 2047 * 2 ^ 52 := by decide
  have hbits : BinaryFormat.double.fractionBits = 52 := rfl
  have hlog : BinaryFormat.double.unitBits ≤ (n * BinaryFormat.double.one).log2 := by
    rw [BinaryFormat.one_eq, Nat.le_log2 (Nat.mul_ne_zero (by omega) (Nat.two_pow_pos _).ne')]
    exact Nat.le_mul_of_pos_left _ h
  rw [BinaryFormat.ofNat_eq, BinaryFormat.ofRatio, Nat.div_one, hbinade, hinf, hbits]
  omega

theorem parts_ofInt {n : Int} (h : n.natAbs ≤ 2 ^ 64) :
    parts (ofInt n) = .finite (n < 0) (BinaryFormat.double.ofNat n.natAbs) := by
  rw [ofInt, parts_ofPattern _ (ofNat_lt_infinity h)]

theorem isFinite_ofInt {n : Int} (h : n.natAbs ≤ 2 ^ 64) : (ofInt n).isFinite = true :=
  (isFinite_iff _).2 ⟨_, _, parts_ofInt h⟩

theorem whole?_ofInt {n : Int} (h : n.natAbs ≤ 2 ^ 64) :
    whole? (ofInt n) =
      let m : Int := BinaryFormat.double.floor (BinaryFormat.double.ofNat n.natAbs)
      some (if n < 0 then -m else m) := by
  rw [whole?, parts_ofInt h]
  dsimp only
  rw [if_pos (BinaryFormat.double.isWhole_ofNat (ofNat_lt_infinity h))]
  simp only [decide_eq_true_eq]

/-- The whole number that a number is gives the number back, up to the sign of zero. -/
theorem whole?_ofInt_of_whole? {x : Float} {n : Int} (h : whole? x = some n) :
    whole? (ofInt n) = some n := by
  rw [whole?] at h
  split at h
  · next negative pattern hparts =>
    obtain ⟨-, hlt⟩ := ofPattern_of_parts hparts
    rw [Option.ite_none_right_eq_some] at h
    obtain ⟨hwhole, hn⟩ := h
    have habs : n.natAbs = BinaryFormat.double.floor pattern := by
      rw [← Option.some.inj hn]
      split
      · rw [Int.natAbs_neg, Int.natAbs_natCast]
      · rw [Int.natAbs_natCast]
    rw [whole?, ofInt, habs, BinaryFormat.double.ofNat_floor (Nat.le_of_lt hlt) hwhole,
      parts_ofPattern _ hlt]
    dsimp only
    rw [if_pos hwhole, ← habs]
    simp only [decide_eq_true_eq]
    congr 1
    omega
  · cases h

/-- A number made whole lies within its bounds, unless there was no number. -/
theorem roundWithin_mem (rounding : Nat → Nat) {lower upper : Int} (hle : lower ≤ upper) {x : Float}
    (hx : parts x ≠ .nan) :
    lower ≤ roundWithin rounding lower upper x ∧ roundWithin rounding lower upper x ≤ upper := by
  rw [roundWithin]
  cases hparts : parts x with
  | nan => exact absurd hparts hx
  | infinite negative =>
    dsimp only
    split <;> omega
  | finite negative pattern =>
    dsimp only
    rw [clampInt]
    omega

end Double

end FieldDiagram
