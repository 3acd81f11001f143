import FieldDiagram.Color.Css
import FieldDiagram.Proofs.Decimal.Order
import FieldDiagram.Proofs.Decimal.Whole
/-!
# Channels there and back

A component of a colour is written as a byte, and a byte that is read becomes a component again. The
byte survives; the component does if it came from a byte, or from a whole number between the bounds of a
byte or beyond them. The opacity is not made a byte: it is only forced between zero and one.

Main statements: `byteOfChannel_channelOfByte`, and `channelOfNumber_integral` for whole numbers.
-/

namespace FieldDiagram

/-! ## Forcing into bounds

Bounds are forced by two comparisons. Where both fail, the number is left alone, and that includes what is
no number. -/

namespace Single

variable {lower upper x : Float32}

theorem clamp_of_lt (h : x < lower) : clamp lower upper x = lower := if_pos h

theorem clamp_of_gt (hlower : ¬ x < lower) (h : upper < x) : clamp lower upper x = upper := by
  rw [clamp, if_neg hlower, if_pos h]

theorem clamp_of_not_lt (hlower : ¬ x < lower) (hupper : ¬ upper < x) : clamp lower upper x = x := by
  rw [clamp, if_neg hlower, if_neg hupper]

/-- What has been forced into bounds stays where it is. -/
theorem clamp_clamp (hlower : clamp lower upper lower = lower) (hupper : clamp lower upper upper = upper)
    (x : Float32) : clamp lower upper (clamp lower upper x) = clamp lower upper x := by
  by_cases hlt : x < lower
  · rw [clamp_of_lt hlt, hlower]
  · by_cases hgt : upper < x
    · rw [clamp_of_gt hlt hgt, hupper]
    · rw [clamp_of_not_lt hlt hgt, clamp_of_not_lt hlt hgt]

/-- A number between the bounds is left alone. -/
theorem clamp_of_mem (hlower : lower ≤ x) (hupper : x ≤ upper) : clamp lower upper x = x := by
  have hnot : ∀ {y z : Float32}, y ≤ z → ¬ z < y := by
    intro y z hle hlt
    obtain ⟨i, hi, j, hj, hij⟩ := le_iff.mp hle
    obtain ⟨j', hj', i', hi', hji⟩ := lt_iff.mp hlt
    obtain rfl := Option.mem_unique hi hi'
    obtain rfl := Option.mem_unique hj hj'
    omega
  exact clamp_of_not_lt (hnot hlower) (hnot hupper)

/-- What is no number is left alone. -/
theorem clamp_of_nan (h : parts x = .nan) : clamp lower upper x = x := by
  have hplace : place? x = none := by rw [place?, h]; rfl
  refine clamp_of_not_lt (fun hlt => ?_) (fun hlt => ?_)
  · obtain ⟨i, hi, -⟩ := lt_iff.mp hlt
    rw [hplace] at hi
    cases hi
  · obtain ⟨-, -, i, hi, -⟩ := lt_iff.mp hlt
    rw [hplace] at hi
    cases hi

/-- What is a number at all has a place among the numbers. -/
theorem exists_place? (h : parts x ≠ .nan) : ∃ i, place? x = some i := by
  rw [place?]
  cases hx : parts x with
  | nan => exact absurd hx h
  | infinite negative => exact ⟨_, rfl⟩
  | finite negative pattern => exact ⟨_, rfl⟩

/-- A number equals itself, unless it is none. -/
theorem beq_self (h : parts x ≠ .nan) : (x == x) = true := by
  obtain ⟨i, hi⟩ := exists_place? h
  exact beq_iff.mpr ⟨i, hi, hi⟩

/-- Of the numbers from zero to a positive one, only a zero has a sign. -/
theorem cases_of_not_lt {upper : Nat} (hinf : upper < BinaryFormat.single.infinity)
    {y : Float32} (hy : place? y = some (upper : Int)) (hnumber : parts x ≠ .nan)
    (hlower : ¬ x < ofRatio 0 1) (hupper : ¬ y < x) :
    x = ofBits BinaryFormat.single.signBit ∨ ∃ pattern ≤ upper, parts x = .finite false pattern := by
  have hzero : place? (ofRatio 0 1) = some 0 := by decide
  rw [lt_iff, hzero] at hlower
  rw [lt_iff, hy] at hupper
  simp only [Option.mem_def, Option.some.injEq, exists_eq_left', not_exists, not_and,
    not_lt] at hlower hupper
  rw [place?] at hlower hupper
  cases hx : parts x with
  | nan => exact absurd hx hnumber
  | infinite negative =>
    -- an infinite number is beyond one of the bounds
    rw [hx, FloatParts.place?] at hlower hupper
    cases negative
    · have := hupper _ rfl
      simp only [Bool.false_eq_true, if_false] at this
      omega
    · have := hlower _ rfl
      simp only [if_true] at this
      omega
  | finite negative pattern =>
    rw [hx, FloatParts.place?] at hlower hupper
    cases negative
    · right
      have hle := hupper _ rfl
      simp only [Bool.false_eq_true, if_false] at hle
      exact ⟨pattern, Int.ofNat_le.mp hle, rfl⟩
    · left
      have hpattern : pattern = 0 := by
        have := hlower _ rfl
        simp only [if_true] at this
        omega
      have hself := ofBits_bitsOf x
      rw [hx, hpattern] at hself
      exact hself.symm

/-- A whole number, or one that is infinite. -/
def isIntegral (x : Float32) : Bool :=
  match parts x with
  | .nan => false
  | .infinite _ => true
  | .finite _ pattern => BinaryFormat.single.isWhole pattern

/-- A whole number that is not negative is the one nearest to what it rounds down to. -/
theorem ofRatio_floor {x : Float32} {pattern : Nat} (hx : parts x = .finite false pattern)
    (hwhole : BinaryFormat.single.isWhole pattern = true) :
    ofRatio (BinaryFormat.single.floor pattern) 1 = x := by
  have hpattern := BinaryFormat.single.ofNat_floor
    (Nat.le_of_lt (BinaryFormat.lt_infinity_of_parts hx)) hwhole
  rw [BinaryFormat.ofNat_eq] at hpattern
  have hself := ofBits_bitsOf x
  rw [hx] at hself
  rw [ofRatio, hpattern]
  exact hself

end Single

/-! ## Bytes

There are few enough bytes to try them all; everything else about channels is reduced to them. -/

theorem byteOfChannel_le (component : Float32) : byteOfChannel component ≤ 255 := by
  rw [byteOfChannel]
  split
  · exact Nat.zero_le _
  · split <;> omega
  · split <;> omega

/-- Every byte on its way through the numbers. -/
theorem byte_facts : ∀ n : Fin 256, byteOfChannel (channelOfByte n) = n ∧
    Color.channelOfNumber (Single.ofRatio n 1) = channelOfByte n ∧
    Single.clamp (Single.ofRatio 0 1) (Single.ofRatio 1 1) (channelOfByte n) = channelOfByte n ∧
    Single.parts (channelOfByte n) ≠ .nan := by
  decide +kernel

variable {n : Nat}

/-- A byte survives being made a component. -/
theorem byteOfChannel_channelOfByte (h : n ≤ 255) : byteOfChannel (channelOfByte n) = n :=
  (byte_facts ⟨n, by omega⟩).1

/-- The component of a byte that is written as a number. -/
theorem channelOfNumber_ofRatio (h : n ≤ 255) :
    Color.channelOfNumber (Single.ofRatio n 1) = channelOfByte n :=
  (byte_facts ⟨n, by omega⟩).2.1

theorem clamp_channelOfByte (h : n ≤ 255) :
    Single.clamp (Single.ofRatio 0 1) (Single.ofRatio 1 1) (channelOfByte n) = channelOfByte n :=
  (byte_facts ⟨n, by omega⟩).2.2.1

theorem channelOfByte_ne_nan (h : n ≤ 255) : Single.parts (channelOfByte n) ≠ .nan :=
  (byte_facts ⟨n, by omega⟩).2.2.2

/-! ## Whole numbers

A whole number below zero becomes the least byte, one beyond the greatest byte becomes that, and one in
between is a byte. Minus zero is the case that equality of bits would get wrong, which is why components are
compared as numbers. -/

namespace Color

set_option maxRecDepth 4000 in
theorem channelOfNumber_negativeZero :
    (channelOfByte (byteOfChannel (channelOfNumber (Single.ofBits BinaryFormat.single.signBit))) ==
      channelOfNumber (Single.ofBits BinaryFormat.single.signBit)) = true := by
  decide

theorem channelOfNumber_of_lt {v : Float32} (h : v < Single.ofRatio 0 1) :
    channelOfNumber v = channelOfByte 0 := by
  have hzero : Single.ofRatio 0 1 / Single.ofRatio 255 1 = channelOfByte 0 := by decide
  rw [channelOfNumber, Single.clamp_of_lt h, hzero]

theorem channelOfNumber_of_gt {v : Float32} (hlower : ¬ v < Single.ofRatio 0 1)
    (h : Single.ofRatio 255 1 < v) : channelOfNumber v = channelOfByte 255 := by
  have hone : Single.ofRatio 255 1 / Single.ofRatio 255 1 = channelOfByte 255 := by decide
  rw [channelOfNumber, Single.clamp_of_gt hlower h, hone]

/-- **A whole number is as good as a byte**: the component it becomes is the component of the byte that
is written for it. -/
theorem channelOfNumber_integral {v : Float32} (hv : Single.isIntegral v = true) :
    (channelOfByte (byteOfChannel (channelOfNumber v)) == channelOfNumber v) = true := by
  have hbyte : ∀ {n : Nat}, n ≤ 255 →
      (channelOfByte (byteOfChannel (channelOfByte n)) == channelOfByte n) = true := by
    intro n h
    rw [byteOfChannel_channelOfByte h]
    exact Single.beq_self (channelOfByte_ne_nan h)
  -- beyond the bounds the channel is that of a bound, and between them that of the byte
  by_cases hlt : v < Single.ofRatio 0 1
  · rw [channelOfNumber_of_lt hlt]
    exact hbyte (by omega)
  by_cases hgt : Single.ofRatio 255 1 < v
  · rw [channelOfNumber_of_gt hlt hgt]
    exact hbyte (by omega)
  have hlarge : Single.place? (Single.ofRatio 255 1) =
      some (BinaryFormat.single.ofNat 255 : Int) := by decide
  have hfloor : BinaryFormat.single.floor (BinaryFormat.single.ofNat 255) = 255 := by decide
  have hnumber : Single.parts v ≠ .nan := by
    intro hnan
    rw [Single.isIntegral, hnan] at hv
    cases hv
  rcases Single.cases_of_not_lt (by decide) hlarge hnumber hlt hgt with rfl | ⟨pattern, hle, hx⟩
  · exact channelOfNumber_negativeZero
  · rw [Single.isIntegral, hx] at hv
    have hsmall := BinaryFormat.single.floor_mono hle
    rw [hfloor] at hsmall
    rw [← Single.ofRatio_floor hx hv, channelOfNumber_ofRatio hsmall]
    exact hbyte hsmall

end Color

end FieldDiagram
