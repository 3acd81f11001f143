import FieldDiagram.Proofs.Decimal.Bits
import FieldDiagram.Proofs.Decimal.Whole
import FieldDiagram.Proofs.Json.Numeral
import FieldDiagram.Text.Blank
/-!
# Numbers in texts for people read back

A number as people read it has no power of ten: it is digits, perhaps with a point among them and a
minus sign in front, or it is a word. In small letters it is a numeral, and the numeral has the value it
was written for.

Main statement: `Numeral.bits?_plainText`.
-/

namespace FieldDiagram

/-! ## Characters

Numbers are read out of a list with commas between them and blanks around them, after capital letters have
been made small. None of this does anything to a number, and that has to be known of its characters. -/

/-- Digits and the point: what a number without sign and without a power of ten consists of. -/
def isPointed (c : Char) : Bool := c.isDigit || c = '.'

theorem isPointed_of_isDigit {c : Char} (h : c.isDigit = true) : isPointed c = true := by
  simp [isPointed, h]

theorem toLower_of_isDigit {c : Char} (h : c.isDigit = true) : c.toLower = c := by
  simp only [Char.isDigit, Bool.and_eq_true, decide_eq_true_eq] at h
  have h9 : ('9' : Char).val.toNat = 57 := rfl
  have hA : ('A' : Char).val.toNat = 65 := rfl
  have hle := UInt32.le_iff_toNat_le.mp h.2
  unfold Char.toLower
  rw [dif_neg]
  rintro ⟨hge, -⟩
  have hge' := UInt32.le_iff_toNat_le.mp hge
  omega

theorem toLower_of_isPointed {c : Char} (h : isPointed c = true) : c.toLower = c := by
  rcases Bool.or_eq_true_iff.1 h with hdigit | hpoint
  · exact toLower_of_isDigit hdigit
  · rw [of_decide_eq_true hpoint]
    decide

/-- A digit is no blank, no comma and no sign. -/
theorem isDigit_separates {c : Char} (h : c.isDigit = true) :
    isBlank c = false ∧ c ≠ ',' ∧ c ≠ '-' ∧ c ≠ '+' := by
  refine ⟨?_, ?_, ?_, ?_⟩
  · rw [← Bool.not_eq_true]
    intro hblank
    simp only [Char.isDigit, Bool.and_eq_true, decide_eq_true_eq] at h
    simp only [isBlank, Bool.or_eq_true, Bool.and_eq_true, decide_eq_true_eq] at hblank
    have h0 : ('0' : Char).val.toNat = 48 := rfl
    have h9 : ('9' : Char).val.toNat = 57 := rfl
    have hle := UInt32.le_iff_toNat_le.mp h.2
    have hge := UInt32.le_iff_toNat_le.mp h.1
    change _ ∨ _ at hblank
    have hval : c.toNat = c.val.toNat := rfl
    omega
  all_goals
    rintro rfl
    exact absurd h (by decide)

/-- What can stand in a list of numbers between two commas. -/
def IsPiece (text : List Char) : Prop := ∀ c ∈ text, isBlank c = false ∧ c ≠ ','

theorem isPiece_digits (n : Nat) : IsPiece (digits n) := by
  intro c hc
  have hdigit := isDigit_separates (isDigit_of_mem_digits hc)
  exact ⟨hdigit.1, hdigit.2.1⟩

theorem isPiece_of_isPointed {text : List Char} (h : ∀ c ∈ text, isPointed c = true) : IsPiece text := by
  intro c hc
  rcases Bool.or_eq_true_iff.1 (h c hc) with hdigit | hpoint
  · exact ⟨(isDigit_separates hdigit).1, (isDigit_separates hdigit).2.1⟩
  · rw [of_decide_eq_true hpoint]
    decide

theorem isPiece_withMinus {negative : Bool} {text : List Char} (h : IsPiece text) :
    IsPiece (withMinus negative text) := by
  rw [withMinus]
  split
  · intro c hc
    rcases List.mem_cons.1 hc with rfl | hc
    · decide
    · exact h c hc
  · exact h

theorem map_withMinus (negative : Bool) (text : List Char) :
    (withMinus negative text).map Char.toLower = withMinus negative (text.map Char.toLower) := by
  cases negative <;> rfl

/-! ## Numbers without a power of ten

However large or small a number is, it is written out with zeros: as digits, or as digits with a point among
them. The reader has to know of them only that they begin with a digit and which characters there are. -/

/-- A text that starts with a digit. -/
def StartsWithDigit (text : List Char) : Prop := ∃ d, text.head? = some d ∧ d.isDigit = true

theorem startsWithDigit_digits (n : Nat) : StartsWithDigit (digits n) := by
  obtain ⟨d, ds, hds⟩ := List.exists_cons_of_ne_nil (digits_ne_nil n)
  refine ⟨d, by rw [hds]; rfl, isDigit_of_mem_digits (n := n) ?_⟩
  rw [hds]
  exact List.mem_cons_self

theorem isDigit_of_mem_replicate {k : Nat} {c : Char} (h : c ∈ List.replicate k '0') :
    c.isDigit = true := by
  rw [List.eq_of_mem_replicate h]
  decide

/-- A number without a power of ten and without a needless point is digits, or it is digits, a point and
digits. -/
theorem positional_cases {motive : List Char → Prop} (c : Nat) (e : Int)
    (whole : ∀ zeros : Nat, e = zeros → motive (digits c ++ List.replicate zeros '0'))
    (split : ∀ front back : List Char, front ≠ [] → (∀ d ∈ front, d.isDigit = true) →
      (∀ d ∈ back, d.isDigit = true) → Decimal.ofParts front back 0 = ⟨c, e⟩ →
      motive (front ++ '.' :: back)) :
    motive (positional false (digits c) e) := by
  have hdigits : ∀ d ∈ digits c, d.isDigit = true := fun d => isDigit_of_mem_digits
  cases e with
  | ofNat zeros =>
    rw [positional, if_neg Bool.false_ne_true, List.append_nil]
    exact whole zeros rfl
  | negSucc places =>
    rw [positional, pointed]
    by_cases hlt : places + 1 < (digits c).length
    · -- the point stands among the digits
      rw [if_pos hlt]
      refine split _ _ ?_ (fun d hd => hdigits d (List.mem_of_mem_take hd))
        (fun d hd => hdigits d (List.mem_of_mem_drop hd)) ?_
      · rw [ne_eq, List.take_eq_nil_iff]
        rintro (hnone | hnil)
        · omega
        · exact digits_ne_nil c hnil
      · rw [Decimal.ofParts, List.take_append_drop, ofDigits_digits, List.length_drop]
        congr 1
        omega
    · -- it stands before all of them, with zeros between
      rw [if_neg hlt]
      have hparts := ofDigits_zeros_append (places + 1 - (digits c).length + 1) (digits c)
      rw [List.replicate_succ, List.cons_append, ofDigits_digits] at hparts
      refine split ['0'] (List.replicate (places + 1 - (digits c).length) '0' ++ digits c)
        (List.cons_ne_nil _ _) (by simp) (fun d hd => ?_) ?_
      · exact (List.mem_append.1 hd).elim isDigit_of_mem_replicate (hdigits d)
      · rw [Decimal.ofParts, List.singleton_append, hparts, List.length_append, List.length_replicate]
        congr 1
        omega

theorem positional_spec (c : Nat) (e : Int) :
    StartsWithDigit (positional false (digits c) e) ∧
      ∀ d ∈ positional false (digits c) e, isPointed d = true := by
  refine positional_cases (motive := fun text => StartsWithDigit text ∧
    ∀ d ∈ text, isPointed d = true) c e ?_ ?_
  · intro zeros hzeros
    obtain ⟨d, hd, hdigit⟩ := startsWithDigit_digits c
    refine ⟨⟨d, by rw [List.head?_append, hd, Option.some_or], hdigit⟩, fun d hd => ?_⟩
    exact isPointed_of_isDigit
      ((List.mem_append.1 hd).elim isDigit_of_mem_digits isDigit_of_mem_replicate)
  · intro front back hfront hfrontDigits hbackDigits hparts
    obtain ⟨d, ds, rfl⟩ := List.exists_cons_of_ne_nil hfront
    refine ⟨⟨d, rfl, hfrontDigits d List.mem_cons_self⟩, fun x hx => ?_⟩
    rcases List.mem_append.1 hx with hx | hx
    · exact isPointed_of_isDigit (hfrontDigits x hx)
    · rcases List.mem_cons.1 hx with rfl | hx
      · decide
      · exact isPointed_of_isDigit (hbackDigits x hx)

/-! ## Reading

What is read is the decimal number that was written, so it has the value that it was written for. Zeros that
are written out stand for a power of ten, and the value is the same as long as it is finite. -/

namespace Numeral

theorem splitSign_withMinus {negative : Bool} {text : List Char} (h : StartsWithDigit text) :
    splitSign (withMinus negative text) = (negative, text) := by
  obtain ⟨d, hd, hdigit⟩ := h
  obtain ⟨ds, rfl⟩ : ∃ ds, text = d :: ds := List.head?_eq_some_iff.1 hd
  obtain ⟨-, -, hminus, hplus⟩ := isDigit_separates hdigit
  cases negative with
  | true => rfl
  | false =>
    rw [withMinus, if_neg Bool.false_ne_true, splitSign.eq_3]
    · rintro rest heq
      exact hminus (List.cons.inj heq).1
    · rintro rest heq
      exact hplus (List.cons.inj heq).1

/-- A text that starts with a digit is no word. -/
theorem bits?_withMinus (f : BinaryFormat) (negative : Bool) {text : List Char}
    (h : StartsWithDigit text) :
    bits? f (withMinus negative text) =
      (decimal? text).map fun d => f.withSign negative (f.ofDecimal d) := by
  have hword : ∀ w : List Char, ¬ StartsWithDigit w →
      String.ofList (text.map Char.toLower) ≠ String.ofList w := by
    intro w hw heq
    rw [String.ofList_inj] at heq
    obtain ⟨d, hd, hdigit⟩ := h
    refine hw ⟨d, ?_, hdigit⟩
    rw [← heq, List.head?_map, hd, Option.map_some, toLower_of_isDigit hdigit]
  have hletter : ∀ (c : Char) (w : List Char), c.isDigit = false → ¬ StartsWithDigit (c :: w) := by
    rintro c w hc ⟨d, hd, hdigit⟩
    rw [← Option.some.inj hd, hc] at hdigit
    cases hdigit
  have hinf := hword ['i', 'n', 'f'] (hletter _ _ (by decide))
  have hinfinity := hword ['i', 'n', 'f', 'i', 'n', 'i', 't', 'y'] (hletter _ _ (by decide))
  have hnan := hword ['n', 'a', 'n'] (hletter _ _ (by decide))
  rw [bits?, splitSign_withMinus h]
  dsimp only
  rw [if_neg (not_or.2 ⟨hinf, hinfinity⟩), if_neg hnan]

theorem noDigit_nil : ∀ c, ([] : List Char).head? = some c → c.isDigit = false :=
  fun _ h => nomatch h

theorem decimal?_digits {ds : List Char} (hnonempty : ds ≠ []) (hds : ∀ c ∈ ds, c.isDigit = true) :
    decimal? ds = some (.ofParts ds [] 0) := by
  obtain ⟨htake, hdrop⟩ := takeWhile_isDigit hds noDigit_nil
  rw [List.append_nil] at htake hdrop
  have hsome : ds.isEmpty = false := List.isEmpty_eq_false_iff.2 hnonempty
  simp only [decimal?, htake, hdrop, splitFraction, hsome, Bool.false_and, if_neg Bool.false_ne_true]

theorem decimal?_pointed {front back : List Char} (hnonempty : front ≠ [])
    (hfront : ∀ c ∈ front, c.isDigit = true) (hback : ∀ c ∈ back, c.isDigit = true) :
    decimal? (front ++ '.' :: back) = some (.ofParts front back 0) := by
  have hpoint : ∀ c, ('.' :: back).head? = some c → c.isDigit = false := by
    intro c hc
    rw [← Option.some.inj hc]
    decide
  obtain ⟨htake, hdrop⟩ := takeWhile_isDigit hfront hpoint
  obtain ⟨htakeBack, hdropBack⟩ := takeWhile_isDigit hback noDigit_nil
  rw [List.append_nil] at htakeBack hdropBack
  have hsome : front.isEmpty = false := List.isEmpty_eq_false_iff.2 hnonempty
  simp only [decimal?, htake, hdrop, splitFraction, htakeBack, hdropBack, hsome, Bool.false_and,
    if_neg Bool.false_ne_true]

end Numeral

namespace BinaryFormat

theorem ofDecimal_natCast (f : BinaryFormat) {c : Nat} (hc : c ≠ 0) (e : Nat) :
    f.ofDecimal ⟨c, e⟩ =
      if 1 <<< f.exponentBits < 3 * e then f.infinity else f.ofRatio (c * 10 ^ e * f.one) 1 :=
  if_neg hc

/-- Zeros at the end of a number are as good as a power of ten, unless that is so large that it is not
even written out. -/
theorem ofDecimal_zeros (f : BinaryFormat) (c zeros : Nat)
    (h : f.ofDecimal ⟨c, zeros⟩ < f.infinity) :
    f.ofDecimal ⟨c * 10 ^ zeros, 0⟩ = f.ofDecimal ⟨c, zeros⟩ := by
  have hten : 10 ^ zeros ≠ 0 := Nat.ne_of_gt (Nat.pow_pos (by decide))
  by_cases hc : c = 0
  · rw [hc, Nat.zero_mul]
    rfl
  have hwhole := f.ofDecimal_natCast (Nat.mul_ne_zero hc hten) 0
  rw [Nat.mul_zero, if_neg (Nat.not_lt_zero _), Nat.pow_zero, Nat.mul_one] at hwhole
  rw [f.ofDecimal_natCast hc] at h ⊢
  split at h
  · omega
  · next hsize => rwa [if_neg hsize]

theorem ofDecimal_of_decimal?_positional (f : BinaryFormat) {c : Nat} {e : Int}
    (h : f.ofDecimal ⟨c, e⟩ < f.infinity) :
    (Numeral.decimal? (positional false (digits c) e)).map f.ofDecimal = some (f.ofDecimal ⟨c, e⟩) := by
  refine positional_cases (motive := fun text =>
    (Numeral.decimal? text).map f.ofDecimal = some (f.ofDecimal ⟨c, e⟩)) c e ?_ ?_
  · rintro zeros rfl
    rw [Numeral.decimal?_digits (by simp [digits_ne_nil]) fun d hd =>
      (List.mem_append.1 hd).elim isDigit_of_mem_digits isDigit_of_mem_replicate]
    rw [Option.map_some, Decimal.ofParts, List.append_nil, ofDigits_append_zeros, ofDigits_digits]
    exact congrArg some (f.ofDecimal_zeros c zeros h)
  · intro front back hfront hfrontDigits hbackDigits hparts
    rw [Numeral.decimal?_pointed hfront hfrontDigits hbackDigits, hparts, Option.map_some]

end BinaryFormat

namespace Numeral

/-- A number as people read it, in small letters. -/
theorem lower_plainText (f : BinaryFormat) (bits : Nat) :
    (f.plainText bits).map Char.toLower =
      match f.parts bits with
      | .nan => ['n', 'a', 'n']
      | .infinite negative => withMinus negative ['i', 'n', 'f']
      | .finite negative pattern =>
        let d := f.shortest .up pattern
        withMinus negative (positional false (digits d.coefficient) d.exponent) := by
  rw [BinaryFormat.plainText, BinaryFormat.textWith]
  cases f.parts bits with
  | nan => rfl
  | infinite negative => cases negative <;> rfl
  | finite negative pattern =>
    have hchars := (positional_spec (f.shortest .up pattern).coefficient
      (f.shortest .up pattern).exponent).2
    have hsame : ∀ text : List Char, (∀ c ∈ text, isPointed c = true) → text.map Char.toLower = text :=
      fun text h => (List.map_congr_left fun c hc => toLower_of_isPointed (h c hc)).trans (List.map_id _)
    exact (map_withMinus negative _).trans (congrArg (withMinus negative) (hsame _ hchars))

/-- **A number that was written for people is read back**, in small letters as well. -/
theorem bits?_plainText (f : BinaryFormat) (hunit : 0 < f.unitBits) (bits : Nat) :
    bits? f ((f.plainText bits).map Char.toLower) = some (f.bitsOf (f.parts bits)) := by
  rw [lower_plainText]
  cases hparts : f.parts bits with
  | nan => rfl
  | infinite negative => cases negative <;> rfl
  | finite negative pattern =>
    have hlt := BinaryFormat.lt_infinity_of_parts hparts
    -- the shortest digits have the value of the pattern, however they are laid out
    have hread := f.ofDecimal_shortest .up (Nat.le_of_lt hlt) hunit
    dsimp only
    generalize f.shortest .up pattern = d at hread
    have hvalue := f.ofDecimal_of_decimal?_positional (c := d.coefficient) (e := d.exponent)
      (lt_of_eq_of_lt hread hlt)
    rw [bits?_withMinus f negative (positional_spec _ _).1]
    rw [Option.map_eq_some_iff] at hvalue
    obtain ⟨d', hd', heq⟩ := hvalue
    rw [hd', Option.map_some, heq]
    exact congrArg (fun p => some (f.withSign negative p)) hread

/-- A written number is all there is between two commas. -/
theorem isPiece_plainText (f : BinaryFormat) (bits : Nat) :
    IsPiece ((f.plainText bits).map Char.toLower) := by
  have hnan : IsPiece ['n', 'a', 'n'] := by simp [IsPiece, isBlank]
  have hinf : IsPiece ['i', 'n', 'f'] := by simp [IsPiece, isBlank]
  rw [lower_plainText]
  cases f.parts bits with
  | nan => exact hnan
  | infinite negative => exact isPiece_withMinus hinf
  | finite negative pattern =>
    exact isPiece_withMinus (isPiece_of_isPointed (positional_spec _ _).2)

end Numeral

/-! ## Single precision -/

namespace Single

/-- A number that was written for people is read back. -/
theorem ofNumeral?_plainText (x : Float32) :
    ofNumeral? ((plainText x).map Char.toLower) = some x := by
  have hunit : 0 < BinaryFormat.single.unitBits := by decide
  have hbits := Numeral.bits?_plainText .single hunit x.toBits.toNat
  rw [ofNumeral?, plainText, hbits, Option.map_some]
  exact congrArg some (ofBits_bitsOf x)

/-- The digits of a whole number are read as that number. -/
theorem ofNumeral?_digits (n : Nat) : ofNumeral? (digits n) = some (ofRatio n 1) := by
  have hdecimal := Numeral.decimal?_digits (digits_ne_nil n) fun _ hc => isDigit_of_mem_digits hc
  rw [Decimal.ofParts, List.append_nil, ofDigits_digits] at hdecimal
  have hbits := Numeral.bits?_withMinus .single false (startsWithDigit_digits n)
  have hvalue : BinaryFormat.single.ofDecimal ⟨n, 0 - ([] : List Char).length⟩ =
      BinaryFormat.single.ofRatio (n * BinaryFormat.single.one) 1 := BinaryFormat.ofNat_eq _ n
  have hplain : withMinus false (digits n) = digits n := if_neg Bool.false_ne_true
  have hsign (pattern : Nat) : BinaryFormat.single.withSign false pattern = pattern :=
    if_neg Bool.false_ne_true
  rw [hplain, hdecimal, Option.map_some, hvalue, hsign] at hbits
  rw [ofNumeral?, hbits, Option.map_some, ofRatio]

end Single

end FieldDiagram
