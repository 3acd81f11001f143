import FieldDiagram.Json.Value
import FieldDiagram.Proofs.Decimal.Scaled
import FieldDiagram.Proofs.Json.Numeral
/-!
# What a number is read as

A token spells a decimal number (`NumberToken.value`), and a reader makes a machine number of it by
keeping as many digits as fit a word and scaling them. How far the two are apart is told here.

| token | read as | where |
|---|---|---|
| few digits, and a small power of ten | the nearest value | `pattern?_of_isShort` |
| up to the fifth largest finite number | some machine number | `isSome_pattern?` |
| whatever is read at all | a number within four roundings, or both are next to nothing | `near_of_pattern?` |

The four roundings are the digits that are not kept, those of the coefficient and the power of ten, and
that of the result. A token is *well formed* in the last two rows, which says that it consists of digits:
the tokens of a text are, and nothing bounds how many they are.
-/

namespace FieldDiagram

/-! ## Digits

Digits are a number in the radix ten: those behind others are added, those in front are shifted by as many
places. -/

theorem ofDigits_append (ds es : List Char) :
    ofDigits (ds ++ es) = ofDigits ds * 10 ^ es.length + ofDigits es := by
  induction es using List.reverseRecOn with
  | nil => simp
  | append_singleton es e ih =>
    rw [← List.append_assoc, ofDigits_concat, ofDigits_concat, ih, List.length_append,
      List.length_singleton, Nat.pow_succ]
    ring

theorem digitValue_lt_ten {c : Char} (h : c.isDigit = true) : digitValue c < 10 := by
  rw [Char.isDigit, Bool.and_eq_true, decide_eq_true_iff, decide_eq_true_iff] at h
  have hupper : c.val.toNat ≤ 57 := h.2
  have hzero : '0'.toNat = 48 := by decide
  unfold digitValue
  change c.val.toNat - _ < 10
  omega

theorem ofDigits_lt {ds : List Char} (h : ∀ d ∈ ds, d.isDigit = true) : ofDigits ds < 10 ^ ds.length := by
  induction ds using List.reverseRecOn with
  | nil => simp
  | append_singleton ds d ih =>
    have hds := ih fun c hc => h c (List.mem_append_left _ hc)
    have hd := digitValue_lt_ten (h d (by simp))
    rw [ofDigits_concat, List.length_append, List.length_singleton, Nat.pow_succ]
    omega

namespace Json

namespace NumberToken

/-! ## Values of tokens

A token stands for an exact number, which is what the results of reading are compared with. -/

/-- The decimal number that a token spells, without its sign. -/
def decimal (t : NumberToken) : Decimal := .ofParts t.whole t.fraction (t.exponent.getD 0)

/-- The number that a token spells. -/
def value (t : NumberToken) : ℚ := if t.negative then -t.decimal.value else t.decimal.value

theorem abs_value (t : NumberToken) : |t.value| = t.decimal.value :=
  Double.abs_signed t.negative t.decimal.value_nonneg

/-- A token without point and power of ten spells the number of its digits. -/
theorem value_decimal_of_digits {t : NumberToken} (hfraction : t.fraction = [])
    (hexponent : t.exponent = none) : t.decimal.value = ofDigits t.whole := by
  rw [decimal, hfraction, hexponent, Decimal.ofParts, Decimal.value]
  simp

/-! ## Kept digits

A word is filled digit by digit, in front of the point and then behind it. If all digits fit, the kept
number is the spelled one. If not, at least nineteen of them fit, so what is not kept is far less than one
rounding; and it does not matter that digits behind the point may still be taken after digits in front
of it were left. -/

/-- What is taken stands in front of what is left, and what is left did not fit. -/
theorem exists_takeDigits (n : Nat) (ds : List Char) :
    ∃ taken, ds = taken ++ (takeDigits n ds).2 ∧
      (takeDigits n ds).1 = n * 10 ^ taken.length + ofDigits taken ∧
      ∀ d rest, (takeDigits n ds).2 = d :: rest → wordSize ≤ 10 * (takeDigits n ds).1 + digitValue d := by
  induction ds generalizing n with
  | nil => exact ⟨[], rfl, by simp [takeDigits], fun d rest h => nomatch h⟩
  | cons d ds ih =>
    rw [takeDigits]
    split
    · obtain ⟨taken, hds, hn, hleft⟩ := ih (10 * n + digitValue d)
      refine ⟨d :: taken, congrArg (d :: ·) hds, ?_, hleft⟩
      rw [hn, ← List.singleton_append, ofDigits_append, List.length_append, List.length_singleton, pow_add]
      have hone : ofDigits [d] = digitValue d := by simp [ofDigits]
      rw [hone]
      ring
    · next hfull =>
      refine ⟨[], rfl, by simp, fun d' rest h => ?_⟩
      obtain ⟨rfl, -⟩ := List.cons.inj h
      exact Nat.not_lt.1 hfull

theorem takeDigits_lt {n : Nat} (h : n < wordSize) (ds : List Char) : (takeDigits n ds).1 < wordSize := by
  induction ds generalizing n with
  | nil => exact h
  | cons d ds ih =>
    rw [takeDigits]
    split
    · next hfits => exact ih hfits
    · exact h

/-- Digits that fit are all taken. -/
theorem takeDigits_of_lt {n : Nat} {ds : List Char} (h : n * 10 ^ ds.length + ofDigits ds < wordSize) :
    takeDigits n ds = (n * 10 ^ ds.length + ofDigits ds, []) := by
  obtain ⟨taken, hds, hn, hleft⟩ := exists_takeDigits n ds
  rcases hrest : (takeDigits n ds).2 with _ | ⟨d, rest⟩
  · rw [hrest, List.append_nil] at hds
    rw [← hds] at hn
    exact Prod.ext hn hrest
  · -- a digit that did not fit makes the whole of them too large
    exfalso
    have hfull := hleft d rest hrest
    have hvalue : n * 10 ^ ds.length + ofDigits ds =
        (10 * (takeDigits n ds).1 + digitValue d) * 10 ^ rest.length + ofDigits rest := by
      have hone : ofDigits (taken ++ d :: rest) =
          (10 * ofDigits taken + digitValue d) * 10 ^ rest.length + ofDigits rest := by
        rw [List.append_cons, ofDigits_append, ofDigits_concat]
      rw [hrest] at hds
      rw [hn]
      conv_lhs => rw [hds, hone]
      rw [List.length_append, List.length_cons]
      ring
    have hgrow := Nat.le_mul_of_pos_right (10 * (takeDigits n ds).1 + digitValue d)
      (Nat.pow_pos (n := rest.length) (show 0 < 10 by decide))
    omega

theorem kept_coefficient_lt (t : NumberToken) : t.kept.coefficient < wordSize :=
  takeDigits_lt (takeDigits_lt (by decide) _) _

/-- **A number of few digits is kept as it is spelled.** -/
theorem kept_eq_decimal {t : NumberToken} (h : t.decimal.coefficient < wordSize) : t.kept = t.decimal := by
  have hcoefficient : ofDigits t.whole * 10 ^ t.fraction.length + ofDigits t.fraction < wordSize := by
    rwa [← ofDigits_append]
  have hwhole : takeDigits 0 t.whole = (ofDigits t.whole, []) := by
    have hgrow := Nat.le_mul_of_pos_right (ofDigits t.whole)
      (Nat.pow_pos (n := t.fraction.length) (show 0 < 10 by decide))
    have hfits : 0 * 10 ^ t.whole.length + ofDigits t.whole < wordSize := by
      rw [Nat.zero_mul]
      omega
    have hall := takeDigits_of_lt hfits
    rwa [Nat.zero_mul, Nat.zero_add] at hall
  rw [kept, hwhole]
  dsimp only
  rw [takeDigits_of_lt hcoefficient, ← ofDigits_append, decimal, Decimal.ofParts]
  simp

/-- Numbers that differ by less than one rounding of either. -/
theorem near_of_dist {x v b : Nat} (hxv : x ≤ v + b) (hvx : v ≤ x + b) (hx : 2 ^ 53 * b ≤ x)
    (hv : 2 ^ 53 * b ≤ v) : BinaryFormat.double.Near 1 (x : ℚ) v := by
  have hxv' : (x : ℚ) ≤ v + b := by exact_mod_cast hxv
  have hvx' : (v : ℚ) ≤ x + b := by exact_mod_cast hvx
  have hx' : (2 : ℚ) ^ 53 * b ≤ x := by exact_mod_cast hx
  have hv' : (2 : ℚ) ^ 53 * b ≤ v := by exact_mod_cast hv
  constructor
  · rw [Double.roundoff_eq, pow_one]
    norm_num at hv' ⊢
    linarith
  · rw [Double.roundoff_eq, pow_one]
    norm_num at hx' ⊢
    linarith

/-- The kept digits of a number against all of them: `n` is kept in front of the point, with the `i` digits
of `w` left there, and the `j` digits of `f` are kept behind it, with the `k` digits of `g` left at the
end. -/
theorem near_kept_digits {n w f g i j k : Nat} (hw : w < 10 ^ i) (hf : f < 10 ^ j) (hg : g < 10 ^ k)
    (hleft : i ≠ 0 → 2 ^ 53 ≤ n) (hdropped : k ≠ 0 → 2 ^ 53 ≤ n * 10 ^ j + f) :
    BinaryFormat.double.Near 1 (((n * 10 ^ j + f) * 10 ^ (i + k) : ℕ) : ℚ)
      ((((n * 10 ^ i + w) * 10 ^ j + f) * 10 ^ k + g : ℕ) : ℚ) := by
  rcases Nat.eq_zero_or_pos i with rfl | hi
  · obtain rfl : w = 0 := by simpa using hw
    rcases Nat.eq_zero_or_pos k with rfl | hk
    · obtain rfl : g = 0 := by simpa using hg
      simpa using BinaryFormat.Near.self (f := BinaryFormat.double) 1 (Nat.cast_nonneg (α := ℚ) (n * 10 ^ j + f))
    · -- only digits at the end are missing, less than one in the last digit that is kept
      have hlarge := Nat.mul_le_mul_right (10 ^ k) (hdropped hk.ne')
      rw [Nat.pow_zero, Nat.mul_one, Nat.add_zero, Nat.zero_add]
      apply near_of_dist (b := 10 ^ k) <;> omega
  · -- all that may be wrong stands behind the digits in front of the point that are kept
    have hlarge := Nat.mul_le_mul_right (10 ^ i * 10 ^ j * 10 ^ k) (hleft hi.ne')
    have hkept : (n * 10 ^ j + f) * 10 ^ (i + k) =
        n * (10 ^ i * 10 ^ j * 10 ^ k) + f * (10 ^ i * 10 ^ k) := by
      rw [pow_add]
      ring
    have hall : ((n * 10 ^ i + w) * 10 ^ j + f) * 10 ^ k + g =
        n * (10 ^ i * 10 ^ j * 10 ^ k) + (w * (10 ^ j * 10 ^ k) + (f * 10 ^ k + g)) := by ring
    have hfraction : f * (10 ^ i * 10 ^ k) ≤ 10 ^ i * 10 ^ j * 10 ^ k := by
      have hmul := Nat.mul_le_mul_right (10 ^ i * 10 ^ k) hf.le
      calc f * (10 ^ i * 10 ^ k) ≤ 10 ^ j * (10 ^ i * 10 ^ k) := hmul
        _ = 10 ^ i * 10 ^ j * 10 ^ k := by ring
    have hrest : w * (10 ^ j * 10 ^ k) + (f * 10 ^ k + g) ≤ 10 ^ i * 10 ^ j * 10 ^ k := by
      have hinner : f * 10 ^ k + g ≤ 10 ^ j * 10 ^ k := by
        have hmul := Nat.mul_le_mul_right (10 ^ k) (Nat.succ_le_of_lt hf)
        rw [Nat.succ_mul] at hmul
        omega
      have hmul := Nat.mul_le_mul_right (10 ^ j * 10 ^ k) (Nat.succ_le_of_lt hw)
      rw [Nat.succ_mul, ← Nat.mul_assoc (10 ^ i)] at hmul
      omega
    rw [hkept, hall]
    apply near_of_dist (b := 10 ^ i * 10 ^ j * 10 ^ k) <;> omega

/-- A word that is full holds far more digits than a significand. -/
theorem le_of_left {n : Nat} {left : List Char} (hdigits : ∀ d ∈ left, d.isDigit = true)
    (hfull : ∀ d rest, left = d :: rest → wordSize ≤ 10 * n + digitValue d) (h : left.length ≠ 0) :
    2 ^ 53 ≤ n := by
  obtain ⟨d, rest, rfl⟩ := List.exists_cons_of_length_pos (Nat.pos_of_ne_zero h)
  have hd := digitValue_lt_ten (hdigits d List.mem_cons_self)
  have hword := hfull d rest rfl
  unfold wordSize at hword
  omega

/-- **What is kept of a number is near it.** -/
theorem near_kept {t : NumberToken} (ht : t.WellFormed) :
    BinaryFormat.double.Near 1 t.kept.value t.decimal.value := by
  obtain ⟨taken, hwhole, hn, hleft⟩ := exists_takeDigits 0 t.whole
  obtain ⟨taken', hfraction, hc, hdropped⟩ := exists_takeDigits (takeDigits 0 t.whole).1 t.fraction
  have hkept : t.kept = ⟨(takeDigits (takeDigits 0 t.whole).1 t.fraction).1,
      t.exponent.getD 0 + (takeDigits 0 t.whole).2.length -
        (t.fraction.length - (takeDigits (takeDigits 0 t.whole).1 t.fraction).2.length : Nat)⟩ := rfl
  generalize (takeDigits 0 t.whole).1 = n at *
  generalize (takeDigits 0 t.whole).2 = left at *
  generalize (takeDigits n t.fraction).1 = c at *
  generalize (takeDigits n t.fraction).2 = dropped at *
  have hwholeDigits := ht.whole
  have hfractionDigits := ht.fraction
  rw [hwhole, List.forall_mem_append] at hwholeDigits
  rw [hfraction, List.forall_mem_append] at hfractionDigits
  -- both numbers in the last place that is written
  have hscale : (0 : ℚ) < 10 ^ (t.exponent.getD 0 - t.fraction.length) := by positivity
  have hkeptValue : t.kept.value = ((n * 10 ^ taken'.length + ofDigits taken') *
      10 ^ (left.length + dropped.length) : ℕ) * 10 ^ (t.exponent.getD 0 - t.fraction.length) := by
    have hplaces : t.exponent.getD 0 + left.length - (t.fraction.length - dropped.length : Nat) =
        (left.length + dropped.length : Nat) + (t.exponent.getD 0 - t.fraction.length) := by
      have hlength := congrArg List.length hfraction
      rw [List.length_append] at hlength
      omega
    rw [hkept, Decimal.value, hplaces, zpow_add₀ (by norm_num), zpow_natCast, hc]
    push_cast
    ring
  have hspelled : t.decimal.value = ((((n * 10 ^ left.length + ofDigits left) * 10 ^ taken'.length +
      ofDigits taken') * 10 ^ dropped.length + ofDigits dropped : ℕ) : ℚ) *
        10 ^ (t.exponent.getD 0 - t.fraction.length) := by
    rw [Nat.zero_mul, Nat.zero_add] at hn
    rw [decimal, Decimal.ofParts, Decimal.value]
    congr 2
    rw [hwhole]
    conv_lhs => rw [hfraction]
    rw [ofDigits_append, ofDigits_append taken, ofDigits_append taken', hn, List.length_append, pow_add]
    ring
  rw [hkeptValue, hspelled]
  have hdigits := near_kept_digits (ofDigits_lt hwholeDigits.2) (ofDigits_lt hfractionDigits.1)
    (ofDigits_lt hfractionDigits.2) (le_of_left hwholeDigits.2 hleft)
    (fun h => hc ▸ le_of_left hfractionDigits.2 hdropped h)
  exact hdigits.mul (.refl _) (Nat.cast_nonneg _) hscale.le (Nat.cast_nonneg _) hscale.le

/-! ## Reading

The power of ten of a token is a word as well, and one that is too large for it is told apart from others
only by its sign. Below that limit reading is scaling. -/

theorem pattern?_eq_scaled? {t : NumberToken} (h : (t.exponent.getD 0).natAbs ≤ exponentLimit) :
    t.pattern? = Double.scaled? t.kept := if_neg (Nat.not_lt.2 h)

theorem kept_coefficient_le (t : NumberToken) : t.kept.coefficient ≤ 2 ^ 64 := t.kept_coefficient_lt.le

/-- What is read is finite. -/
theorem pattern_lt_infinity {t : NumberToken} {pattern : Nat} (h : t.pattern? = some pattern) :
    pattern < BinaryFormat.double.infinity := by
  unfold pattern? at h
  dsimp only at h
  split at h
  · split at h
    · rw [← Option.some.inj h]
      decide
    · cases h
  · exact (Double.scaled?_near t.kept_coefficient_le h).1

/-- Tokens of few digits: as many as a significand holds, with a power of ten that is held, too. The last
condition is about the power of ten as it is written, before the point is moved. -/
structure IsShort (t : NumberToken) : Prop where
  coefficient : t.decimal.coefficient ≤ 2 ^ 53
  exponent : t.decimal.exponent.natAbs ≤ 22
  written : (t.exponent.getD 0).natAbs ≤ exponentLimit

instance (t : NumberToken) : Decidable t.IsShort :=
  decidable_of_iff (_ ∧ _ ∧ _) ⟨fun h => ⟨h.1, h.2.1, h.2.2⟩, fun h => ⟨h.1, h.2, h.3⟩⟩

/-- **Short tokens are read as their nearest values.** -/
theorem pattern?_of_isShort {t : NumberToken} (h : t.IsShort) :
    t.pattern? = some (BinaryFormat.double.nearest t.decimal.value) := by
  have hword : t.decimal.coefficient < wordSize :=
    Nat.lt_of_le_of_lt h.coefficient (by decide)
  rw [pattern?_eq_scaled? h.written, kept_eq_decimal hword, Double.scaled?_eq_nearest h.coefficient h.exponent]

/-- A negative power of ten that is beyond the limit leaves nothing, which can be read. -/
theorem isSome_pattern?_of_scaled? {t : NumberToken} (hexponent : t.exponent.getD 0 ≤ exponentLimit)
    (h : (Double.scaled? t.kept).isSome = true) : t.pattern?.isSome = true := by
  unfold pattern?
  dsimp only
  split
  · rw [if_pos (Or.inr (by omega))]
    rfl
  · exact h

/-- A token is read if it spells a number near one that is not among the last few finite numbers. -/
theorem isSome_pattern? {t : NumberToken} (ht : t.WellFormed) (hexponent : t.exponent.getD 0 ≤ exponentLimit)
    {x : ℚ} (hnear : BinaryFormat.double.Near 1 t.decimal.value x) (hx : x ≤ Double.scaleLimit) :
    t.pattern?.isSome = true :=
  isSome_pattern?_of_scaled? hexponent
    (Double.isSome_scaled? t.kept_coefficient_le ((near_kept ht).trans hnear) hx)

/-- **What a token is read as** is near the number that it spells, or both are next to nothing. -/
theorem near_of_pattern? {t : NumberToken} (ht : t.WellFormed)
    (hexponent : (t.exponent.getD 0).natAbs ≤ exponentLimit) {pattern : Nat} (h : t.pattern? = some pattern) :
    BinaryFormat.double.Near 4 (BinaryFormat.double.value pattern) t.decimal.value ∨
      BinaryFormat.double.value pattern ≤ 2 * Double.tiny ∧ t.decimal.value ≤ 2 * Double.tiny := by
  rw [pattern?_eq_scaled? hexponent] at h
  rcases (Double.scaled?_near t.kept_coefficient_le h).2 with hnear | ⟨hvalue, hkept⟩
  · exact Or.inl (hnear.trans (near_kept ht))
  · right
    have hdouble := Double.le_two_mul_of_near (by decide) (near_kept ht) t.decimal.value_nonneg
    have hpos := Double.tiny_pos
    constructor
    · linarith
    · linarith

end NumberToken

end Json

end FieldDiagram
