import FieldDiagram.Proofs.Decimal.Order
import FieldDiagram.Proofs.Json.Spelled
/-!
# What becomes of a written number

A number is written with the fewest digits whose nearest value it is, and it is read by scaling, which is
not always the nearest value. So a number need not come back as it was: about one in four, taken at
random, comes back as a neighbour of itself. `Double.reread` is what comes back.

| what | where |
|---|---|
| every finite number can be read back, the largest ones too | `isSome_pattern?_dataToken` |
| it comes back as it was if it is written with few digits | `Double.HasFewDigits.reread_eq` |
| it comes back within one part in `2 ^ 50`, or next to nothing becomes next to nothing | `Double.dist_reread` |

The first row is not a matter of course. What is read can be larger than what was written, and a number
that becomes infinite on the way is refused; that it never happens needs a look at the four largest
numbers one by one, and for the others a bound on all roundings together.
-/

namespace FieldDiagram

namespace Json

/-! ## What is spelled

A decimal number is written in one of four forms, and all of them spell the number itself, most of them
digit by digit. The two statements differ where a point and a zero are put at the end. -/

/-- A decimal number is spelled in a data file as it is, or as so many tenths. -/
theorem decimal_dataToken (negative : Bool) (d : Decimal) : (dataToken negative d).decimal = d ∨
    ∃ zeros : Nat, zeros < 16 ∧ d.exponent = zeros ∧
      (dataToken negative d).decimal = ⟨d.coefficient * 10 ^ (zeros + 1), -1⟩ := by
  have hlength := List.length_pos_iff.2 (digits_ne_nil d.coefficient)
  obtain ⟨c, e⟩ := d
  -- the forms in order: a zero behind the point, a point among the digits, zeros before them, an exponent
  refine dataToken_cases (motive := fun t => t.decimal = ⟨c, e⟩ ∨ ∃ zeros : Nat, zeros < 16 ∧
    e = zeros ∧ t.decimal = ⟨c * 10 ^ (zeros + 1), -1⟩) negative ⟨c, e⟩ ?_ ?_ ?_ ?_
  · rintro zeros rfl hsmall
    have hdigits : (digits c ++ List.replicate zeros '0') ++ ['0'] =
        digits c ++ List.replicate (zeros + 1) '0' := by
      rw [List.replicate_succ', List.append_assoc]
    refine Or.inr ⟨zeros, hsmall, rfl, ?_⟩
    rw [NumberToken.decimal, Decimal.ofParts, hdigits, ofDigits_append_zeros, ofDigits_digits]
    rfl
  · intro places hexp hlt
    left
    rw [NumberToken.decimal, Decimal.ofParts, List.take_append_drop, ofDigits_digits, List.length_drop]
    congr 1
    dsimp only at hexp hlt hlength ⊢
    rw [Option.getD_none]
    omega
  · intro places hexp hle
    left
    have hdigits := ofDigits_zeros_append (places + 1 - (digits c).length + 1) (digits c)
    rw [List.replicate_succ, List.cons_append, ofDigits_digits] at hdigits
    rw [NumberToken.decimal, Decimal.ofParts, List.singleton_append, hdigits, List.length_append,
      List.length_replicate]
    congr 1
    dsimp only at hexp hle hlength ⊢
    rw [Option.getD_none]
    omega
  · left
    rw [NumberToken.decimal, Decimal.ofParts, List.take_append_drop, ofDigits_digits, List.length_drop]
    congr 1
    dsimp only at hlength ⊢
    rw [Option.getD_some]
    omega

theorem value_decimal_dataToken (negative : Bool) (d : Decimal) :
    (dataToken negative d).decimal.value = d.value := by
  rcases decimal_dataToken negative d with h | ⟨zeros, -, hexponent, h⟩
  · rw [h]
  · obtain ⟨c, e⟩ := d
    obtain rfl : e = zeros := hexponent
    rw [h, Decimal.value, Decimal.value, zpow_neg_one, zpow_natCast, pow_succ]
    push_cast
    field_simp

/-! ## How large written numbers are

The power of ten that a number is written with is that of its first digit, so the value bounds it on both
sides. -/

/-- The digits of a number are no more than it needs. -/
theorem ten_pow_length_digits_le {n : Nat} (h : 0 < n) : 10 ^ ((digits n).length - 1) ≤ n := by
  fun_induction digits n with
  | case1 n hsmall => exact h
  | case2 n hlarge ih =>
    have hhead := ih (by omega)
    have hlength := List.length_pos_iff.2 (digits_ne_nil (n / 10))
    have hpow : 10 ^ ((digits (n / 10)).length + 1 - 1) =
        10 * 10 ^ ((digits (n / 10)).length - 1) := by
      rw [← pow_succ']
      congr 1
      omega
    rw [List.length_append, List.length_singleton, hpow]
    omega

/-- The power of ten of a written number is at most that of its first digit. -/
theorem ten_pow_exponent_dataToken_le (negative : Bool) {d : Decimal}
    (hzero : d.coefficient = 0 → d.exponent = 0) {n : Nat} (hn : n ≠ 0)
    (h : (dataToken negative d).exponent = some (n : Int)) : (10 : ℚ) ^ n ≤ d.value := by
  revert h
  refine dataToken_cases (motive := fun t => t.exponent = some (n : Int) → (10 : ℚ) ^ n ≤ d.value)
    negative d ?_ ?_ ?_ ?_
  · exact fun zeros _ _ h => nomatch h
  · exact fun places _ _ h => nomatch h
  · exact fun places _ _ h => nomatch h
  · intro h
    have hscale : (n : Int) = ((digits d.coefficient).length - 1 : Nat) + d.exponent := by
      rw [← Option.some.inj h, add_comm]
    rcases Nat.eq_zero_or_pos d.coefficient with hnothing | hpos
    · have hone : (digits 0).length = 1 := by simp [digits]
      rw [hzero hnothing, hnothing, hone] at hscale
      omega
    · have hdigits : (10 : ℚ) ^ ((digits d.coefficient).length - 1) ≤ d.coefficient := by
        exact_mod_cast ten_pow_length_digits_le hpos
      rw [← zpow_natCast, hscale, zpow_add₀ (by norm_num), zpow_natCast, Decimal.value]
      exact mul_le_mul_of_nonneg_right hdigits (by positivity)

/-- The value of a written number is below the next power of ten. -/
theorem value_lt_of_exponent_dataToken (negative : Bool) {d : Decimal} {e : Int}
    (h : (dataToken negative d).exponent = some e) : d.value < 10 ^ (e + 1) := by
  revert h
  refine dataToken_cases (motive := fun t => t.exponent = some e → d.value < 10 ^ (e + 1))
    negative d ?_ ?_ ?_ ?_
  · exact fun zeros _ _ h => nomatch h
  · exact fun places _ _ h => nomatch h
  · exact fun places _ _ h => nomatch h
  · intro h
    have hlength := List.length_pos_iff.2 (digits_ne_nil d.coefficient)
    have hscale : e + 1 = (digits d.coefficient).length + d.exponent := by
      have hexponent := Option.some.inj h
      omega
    have hdigits : (d.coefficient : ℚ) < 10 ^ (digits d.coefficient).length := by
      have hlt := ofDigits_lt fun c hc => isDigit_of_mem_digits (n := d.coefficient) hc
      rw [ofDigits_digits] at hlt
      exact_mod_cast hlt
    rw [hscale, zpow_add₀ (by norm_num), zpow_natCast, Decimal.value]
    exact mul_lt_mul_of_pos_right hdigits (by positivity)

theorem exponent_shortest {pattern : Nat} (h : pattern < BinaryFormat.double.infinity)
    (hzero : (BinaryFormat.double.shortest .toEven pattern).coefficient = 0) :
    (BinaryFormat.double.shortest .toEven pattern).exponent = 0 := by
  have hback := BinaryFormat.double.ofDecimal_shortest .toEven (Nat.le_of_lt h) (by decide)
  rw [BinaryFormat.ofDecimal, if_pos hzero] at hback
  rw [← hback, BinaryFormat.shortest, if_pos (BinaryFormat.magnitude_of_lt _ (BinaryFormat.binade_pos _))]

theorem nearest_shortest {pattern : Nat} (h : pattern < BinaryFormat.double.infinity) :
    BinaryFormat.double.nearest (BinaryFormat.double.shortest .toEven pattern).value = pattern := by
  rw [← BinaryFormat.ofDecimal_eq_nearest]
  exact BinaryFormat.double.ofDecimal_shortest .toEven (Nat.le_of_lt h) (by decide)

/-! ## The largest numbers

What is read may be larger than what was written, by up to four roundings. Below the four largest finite
numbers there is room for that, and those four are tried. -/

/-- No finite number is beyond the last power of two. -/
theorem value_le_of_lt_infinity {pattern : Nat} (h : pattern < BinaryFormat.double.infinity) :
    BinaryFormat.double.value pattern ≤ 2 ^ 1024 := by
  have hmono := BinaryFormat.double.magnitude_mono (Nat.le_sub_one_of_lt h)
  have hlast : BinaryFormat.double.magnitude (BinaryFormat.double.infinity - 1) ≤ 2 ^ 1024 * 2 ^ 1074 := by
    decide +kernel
  rw [BinaryFormat.value, Double.one_eq, div_le_iff₀ (by positivity)]
  exact_mod_cast hmono.trans hlast

/-- All but the last four finite numbers leave room for the roundings of a reader. -/
theorem value_le_of_add_lt_infinity {pattern : Nat} (h : pattern + 4 < BinaryFormat.double.infinity) :
    BinaryFormat.double.value pattern ≤ Double.scaleLimit := by
  have hmono := BinaryFormat.double.magnitude_mono (show pattern ≤ BinaryFormat.double.infinity - 5 by omega)
  have hlast : BinaryFormat.double.magnitude (BinaryFormat.double.infinity - 5) + 10 * 2 ^ 970 * 2 ^ 1074 ≤
      2 ^ 1024 * 2 ^ 1074 := by
    decide +kernel
  have hnat := (Nat.add_le_add_right hmono (10 * 2 ^ 970 * 2 ^ 1074)).trans hlast
  rw [BinaryFormat.value, Double.scaleLimit, Double.one_eq, div_le_iff₀ (by positivity), sub_mul,
    le_sub_iff_add_le]
  exact_mod_cast hnat

theorem le_one_of_lastPlace_eq_zero {v : ℚ} (hv : 0 ≤ v) (h : BinaryFormat.double.lastPlace v = 0) :
    v ≤ 1 := by
  have hsmall := Double.two_mul_le_tiny hv h
  have hone := Double.tiny_le_one
  linarith

/-- A number whose nearest value is finite has at most three hundred and nine digits. -/
theorem lt_of_nearest_lt_infinity {v : ℚ} (hv : 0 ≤ v)
    (h : BinaryFormat.double.nearest v < BinaryFormat.double.infinity) : v < 10 ^ 309 := by
  have hnat : 2 * 2 ^ 1024 < 10 ^ 309 := by decide +kernel
  have hlarge : (2 : ℚ) * 2 ^ 1024 < 10 ^ 309 := by exact_mod_cast hnat
  by_cases hplace : BinaryFormat.double.lastPlace v = 0
  · exact (le_one_of_lastPlace_eq_zero hv hplace).trans_lt (one_lt_pow₀ (by norm_num) (by decide))
  · have hdouble := Double.le_two_mul_of_near (by decide) (BinaryFormat.Near.nearest hv h hplace) hv
    have hvalue := value_le_of_lt_infinity h
    exact (hdouble.trans (mul_le_mul_of_nonneg_left hvalue two_pos.le)).trans_lt hlarge

/-- What is kept of a large number that is written is all of it. -/
theorem kept_dataToken (negative : Bool) {d : Decimal} (hcoefficient : d.coefficient < wordSize)
    (hexponent : 16 ≤ d.exponent) : (dataToken negative d).kept = d := by
  have hdecimal : (dataToken negative d).decimal = d := by
    rcases decimal_dataToken negative d with h | ⟨zeros, hzeros, hsmall, -⟩
    · exact h
    · omega
  rw [NumberToken.kept_eq_decimal (by rwa [hdecimal]), hdecimal]

/-- No written number comes near the limit of powers of ten. -/
theorem exponent_dataToken_le (negative : Bool) {d : Decimal} (hzero : d.coefficient = 0 → d.exponent = 0)
    (hfinite : BinaryFormat.double.nearest d.value < BinaryFormat.double.infinity) :
    (dataToken negative d).exponent.getD 0 ≤ exponentLimit := by
  cases hexponent : (dataToken negative d).exponent with
  | none => exact Int.natCast_nonneg _
  | some e =>
    rw [Option.getD_some]
    by_contra hlarge
    obtain ⟨n, rfl⟩ := Int.eq_ofNat_of_zero_le (show 0 ≤ e by omega)
    have hlimit : exponentLimit = 2147483647 := rfl
    have hpow : (10 : ℚ) ^ 309 ≤ 10 ^ n := pow_le_pow_right₀ (by norm_num) (by omega)
    have hvalue := ten_pow_exponent_dataToken_le negative hzero (by omega) hexponent
    exact absurd (lt_of_nearest_lt_infinity d.value_nonneg hfinite) (not_lt.2 (hpow.trans hvalue))

/-- The four largest finite numbers are written two units of their seventeenth digit apart. -/
theorem shortest_last : ∀ k : Fin 4,
    BinaryFormat.double.shortest .toEven (BinaryFormat.double.infinity - 4 + k) =
      ⟨17976931348623151 + 2 * k, 292⟩ := by
  decide +kernel

/-- They can be read: none of them becomes infinite by the roundings on the way. -/
theorem scaled?_last : ∀ k : Fin 4, (Double.scaled? ⟨17976931348623151 + 2 * k, 292⟩).isSome = true := by
  decide +kernel

/-- **Every finite number that is written can be read.** -/
theorem isSome_pattern?_dataToken (negative : Bool) {pattern : Nat}
    (h : pattern < BinaryFormat.double.infinity) :
    (dataToken negative (BinaryFormat.double.shortest .toEven pattern)).pattern?.isSome = true := by
  have hnearest := nearest_shortest h
  have hnonneg := (BinaryFormat.double.shortest .toEven pattern).value_nonneg
  have hspelled := value_decimal_dataToken negative (BinaryFormat.double.shortest .toEven pattern)
  have hwell := wellFormed_dataToken negative (exponent_shortest h)
  have hexponent := exponent_dataToken_le negative (exponent_shortest h) (by rwa [hnearest])
  rcases Nat.lt_or_ge (pattern + 4) BinaryFormat.double.infinity with hroom | hlast
  · by_cases hplace :
        BinaryFormat.double.lastPlace (BinaryFormat.double.shortest .toEven pattern).value = 0
    · -- the spelled number is so small that its own errors need no room
      have hself := BinaryFormat.Near.self (f := BinaryFormat.double) 1 hnonneg
      rw [← hspelled] at hself
      refine NumberToken.isSome_pattern? hwell hexponent hself (Double.le_scaleLimit_of_le ?_)
      rw [hspelled]
      exact (le_one_of_lastPlace_eq_zero hnonneg hplace).trans (one_le_pow₀ one_le_two)
    · have hnear := BinaryFormat.Near.nearest hnonneg (by rwa [hnearest]) hplace
      rw [hnearest, ← hspelled] at hnear
      exact NumberToken.isSome_pattern? hwell hexponent hnear.symm (value_le_of_add_lt_infinity hroom)
  · obtain ⟨k, rfl⟩ : ∃ k : Fin 4, pattern = BinaryFormat.double.infinity - 4 + k :=
      ⟨⟨pattern - (BinaryFormat.double.infinity - 4), by omega⟩, by dsimp only; omega⟩
    have hword : 17976931348623151 + 2 * (k : Nat) < wordSize := by
      unfold wordSize
      omega
    rw [shortest_last k] at hexponent ⊢
    apply NumberToken.isSome_pattern?_of_scaled? hexponent
    rw [kept_dataToken negative hword (show (16 : Int) ≤ 292 by decide)]
    exact scaled?_last k

/-! ## Short numbers

What is read of a short token is the nearest value, and the nearest value of the written digits is the
number itself. So all that remains is to see from the number whether its token is short. -/

/-- **A number with few digits is written as a short token.** The digits are counted with a zero behind the
point, as they may be written. -/
theorem isShort_dataToken (negative : Bool) {d : Decimal}
    (hcoefficient : d.coefficient * 10 ^ (d.exponent.toNat + 1) ≤ 2 ^ 53) (hexponent : d.exponent.natAbs ≤ 22) :
    (dataToken negative d).IsShort := by
  have hplain : d.coefficient ≤ 2 ^ 53 :=
    (Nat.le_mul_of_pos_right _ (Nat.pow_pos (by decide))).trans hcoefficient
  -- there are sixteen digits at most, so a written exponent is little more than that of the number
  have hlength : (digits d.coefficient).length - 1 < 16 := by
    rcases Nat.eq_zero_or_pos d.coefficient with hzero | hpos
    · have hone : (digits 0).length = 1 := by simp [digits]
      rw [hzero, hone]
      decide
    · have hpow := (ten_pow_length_digits_le hpos).trans hplain
      by_contra hlong
      have hlarge := Nat.pow_le_pow_right (show 0 < 10 by decide) (Nat.not_lt.1 hlong)
      omega
  have hwritten : ((dataToken negative d).exponent.getD 0).natAbs ≤ exponentLimit := by
    have hlimit : exponentLimit = 2147483647 := rfl
    refine dataToken_cases (motive := fun t => (t.exponent.getD 0).natAbs ≤ exponentLimit) negative d
      ?_ ?_ ?_ ?_
    · exact fun zeros _ _ => Nat.zero_le _
    · exact fun places _ _ => Nat.zero_le _
    · exact fun places _ _ => Nat.zero_le _
    · rw [Option.getD_some]
      omega
  rcases decimal_dataToken negative d with h | ⟨zeros, -, hzeros, h⟩
  · exact ⟨by rwa [h], by rwa [h], hwritten⟩
  · have hone : (-1 : Int).natAbs ≤ 22 := by decide
    rw [hzeros, Int.toNat_natCast] at hcoefficient
    exact ⟨by rwa [h], by rwa [h], hwritten⟩

/-! ## What comes back

The digits that are written stand for a number one rounding away from the number itself, and reading them
takes four roundings at most. So what comes back is five roundings away. -/

/-- A written number that is next to nothing is the nearest value of one that is. -/
theorem value_le_of_shortest_le {pattern : Nat} (h : pattern < BinaryFormat.double.infinity)
    (hsmall : (BinaryFormat.double.shortest .toEven pattern).value ≤ 2 * Double.tiny) :
    BinaryFormat.double.value pattern ≤ 4 * Double.tiny := by
  have hnearest := nearest_shortest h
  have hpos := Double.tiny_pos
  have hleast : 1 ≤ 2 ^ 1021 * (4 * Double.tiny) :=
    Double.tiny_bounds.1.trans (mul_le_mul_of_nonneg_left (by linarith) (by positivity))
  have hbound := BinaryFormat.double.value_nearest_le
    (BinaryFormat.double.shortest .toEven pattern).value_nonneg (by rwa [hnearest])
    (b := 4 * Double.tiny) (by linarith) (Double.two_mul_binade_le hleast)
  rwa [hnearest] at hbound

theorem near_of_pattern?_dataToken {negative : Bool} {pattern pattern' : Nat}
    (h : pattern < BinaryFormat.double.infinity)
    (hread : (dataToken negative (BinaryFormat.double.shortest .toEven pattern)).pattern? = some pattern') :
    BinaryFormat.double.Near 5 (BinaryFormat.double.value pattern') (BinaryFormat.double.value pattern) ∨
      BinaryFormat.double.value pattern' ≤ 4 * Double.tiny ∧
        BinaryFormat.double.value pattern ≤ 4 * Double.tiny := by
  have hnearest := nearest_shortest h
  have hspelled := value_decimal_dataToken negative (BinaryFormat.double.shortest .toEven pattern)
  have hnonneg := (BinaryFormat.double.shortest .toEven pattern).value_nonneg
  have htiny := Double.tiny_pos
  rcases Nat.lt_or_ge exponentLimit
    ((dataToken negative (BinaryFormat.double.shortest .toEven pattern)).exponent.getD 0).natAbs with
    hbeyond | hwithin
  · -- only a number that is next to nothing has so large a power of ten
    right
    have hlimit : exponentLimit = 2147483647 := rfl
    have hle := exponent_dataToken_le negative (exponent_shortest h) (by rwa [hnearest])
    have hzero : pattern' = 0 := by
      rw [NumberToken.pattern?, if_pos hbeyond, if_pos (Or.inr (by omega))] at hread
      exact (Option.some.inj hread).symm
    have hsmall : (BinaryFormat.double.shortest .toEven pattern).value ≤ 2 * Double.tiny := by
      cases hexponent : (dataToken negative (BinaryFormat.double.shortest .toEven pattern)).exponent with
      | none =>
        rw [hexponent] at hbeyond
        exact absurd hbeyond (Nat.not_lt_zero _)
      | some e =>
        rw [hexponent, Option.getD_some] at hbeyond hle
        have hvalue := value_lt_of_exponent_dataToken negative hexponent
        have hpow : (10 : ℚ) ^ (e + 1) ≤ 10 ^ (-309 : Int) := zpow_le_zpow_right₀ (by norm_num) (by omega)
        have hlast : (10 : ℚ) ^ (-309 : Int) ≤ Double.tiny := by
          have hnat : 2 ^ 950 ≤ 10 ^ 309 := by decide +kernel
          rw [Double.tiny, zpow_neg, ← one_div]
          apply one_div_le_one_div_of_le (by positivity)
          exact_mod_cast hnat
        linarith
    rw [hzero, BinaryFormat.value_zero]
    exact ⟨by linarith, value_le_of_shortest_le h hsmall⟩
  have hread := NumberToken.near_of_pattern? (wellFormed_dataToken negative (exponent_shortest h)) hwithin hread
  rw [hspelled] at hread
  rcases hread with hnear | ⟨hvalue, hsmall⟩
  · by_cases hplace :
        BinaryFormat.double.lastPlace (BinaryFormat.double.shortest .toEven pattern).value = 0
    · have hsmall := Double.two_mul_le_tiny hnonneg hplace
      have hdouble := Double.le_two_mul_of_near (by decide) hnear.symm (BinaryFormat.double.value_nonneg _)
      exact Or.inr ⟨by linarith, value_le_of_shortest_le h (by linarith)⟩
    · have hwritten := BinaryFormat.Near.nearest hnonneg (by rwa [hnearest]) hplace
      rw [hnearest] at hwritten
      exact Or.inl (hnear.trans hwritten.symm)
  · exact Or.inr ⟨by linarith, value_le_of_shortest_le h hsmall⟩

end Json

namespace Double

/-- What a number is read as from its written form. Numbers that are not finite have none. -/
def reread (x : Float) : Float :=
  match parts x with
  | .finite negative pattern =>
    (Json.dataToken negative (BinaryFormat.double.shortest .toEven pattern)).pattern?.elim x (ofPattern negative)
  | _ => x

section Finite

variable {x : Float} {negative : Bool} {pattern : Nat} (h : parts x = .finite negative pattern)

include h

/-- A finite number is read back as a finite one with its sign. -/
theorem exists_reread : ∃ pattern',
    (Json.dataToken negative (BinaryFormat.double.shortest .toEven pattern)).pattern? = some pattern' ∧
      parts (reread x) = .finite negative pattern' ∧ reread x = ofPattern negative pattern' := by
  obtain ⟨-, hlt⟩ := ofPattern_of_parts h
  obtain ⟨pattern', hpattern⟩ :=
    Option.isSome_iff_exists.1 (Json.isSome_pattern?_dataToken negative hlt)
  have hreread : reread x = ofPattern negative pattern' := by
    rw [reread, h]
    dsimp only
    rw [hpattern, Option.elim_some]
  refine ⟨pattern', hpattern, ?_, hreread⟩
  rw [hreread, parts_ofPattern _ (Json.NumberToken.pattern_lt_infinity hpattern)]

/-- A number that is written as a short token is read back as it was. -/
theorem reread_eq_self
    (hshort : (Json.dataToken negative (BinaryFormat.double.shortest .toEven pattern)).IsShort) :
    reread x = x := by
  obtain ⟨hx, hlt⟩ := ofPattern_of_parts h
  obtain ⟨pattern', hpattern, -, hreread⟩ := exists_reread h
  rw [Json.NumberToken.pattern?_of_isShort hshort, Json.value_decimal_dataToken, Json.nearest_shortest hlt]
    at hpattern
  rw [hreread, ← Option.some.inj hpattern, hx]

end Finite

/-- Whether the digits that a number is written with are few: with zeros and a point behind them, as they may
be written, a significand holds them, and it holds their power of ten as well. Fifteen digits are few, unless
the power of ten is large. -/
def HasFewDigits (x : Float) : Prop :=
  ∃ negative pattern, parts x = .finite negative pattern ∧
    (BinaryFormat.double.shortest .toEven pattern).coefficient *
      10 ^ ((BinaryFormat.double.shortest .toEven pattern).exponent.toNat + 1) ≤ 2 ^ 53 ∧
    (BinaryFormat.double.shortest .toEven pattern).exponent.natAbs ≤ 22

/-- **A number with few digits is read back as it was.** -/
theorem HasFewDigits.reread_eq {x : Float} (h : HasFewDigits x) : reread x = x := by
  obtain ⟨negative, pattern, hparts, hcoefficient, hexponent⟩ := h
  exact reread_eq_self hparts (Json.isShort_dataToken negative hcoefficient hexponent)

/-- Whether a whole number is read back can be seen from its digits. -/
theorem reread_ofInt {n : Int} (h : n.natAbs ≤ 2 ^ 64)
    (hshort : (Json.dataToken (n < 0)
      (BinaryFormat.double.shortest .toEven (BinaryFormat.double.ofNat n.natAbs))).IsShort) :
    reread (ofInt n) = ofInt n :=
  reread_eq_self (parts_ofInt h) hshort

theorem reread_ofInt_zero : reread (ofInt 0) = ofInt 0 :=
  reread_ofInt (by decide) (by decide +kernel)

/-- **A number is read back as one near it**, or both are next to nothing. -/
theorem dist_reread {x : Float} {v : ℚ} (h : value? x = some v) : ∃ w, value? (reread x) = some w ∧
    (2 ^ 50 * |w - v| ≤ |v| ∨ |w| ≤ 1 / 2 ^ 900 ∧ |v| ≤ 1 / 2 ^ 900) := by
  cases hparts : parts x with
  | nan => rw [value?, hparts] at h; cases h
  | infinite negative => rw [value?, hparts] at h; cases h
  | finite negative pattern =>
    obtain ⟨pattern', hpattern, hback, -⟩ := exists_reread hparts
    obtain ⟨-, hlt⟩ := ofPattern_of_parts hparts
    have hv := value?_of_parts hparts
    rw [h] at hv
    refine ⟨_, value?_of_parts hback, ?_⟩
    rw [Option.some.inj hv, abs_signed_sub, abs_signed _ (BinaryFormat.double.value_nonneg _),
      abs_signed _ (BinaryFormat.double.value_nonneg _)]
    have hnear := Json.near_of_pattern?_dataToken hlt hpattern
    rcases hnear with hnear | ⟨hread, hwritten⟩
    · exact Or.inl (dist_le_of_near (by decide) hnear (BinaryFormat.double.value_nonneg _)
        (BinaryFormat.double.value_nonneg _))
    · exact Or.inr ⟨hread.trans four_mul_tiny_le, hwritten.trans four_mul_tiny_le⟩

end Double

end FieldDiagram
