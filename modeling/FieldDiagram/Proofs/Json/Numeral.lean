import FieldDiagram.Json.Token
import FieldDiagram.Decimal.Layout
import Mathlib.Algebra.Group.Nat.Defs
/-!
# Numerals that read back

A number token has one written form, and a reader that meets this form takes the whole of it and gets
the token, whatever follows that is no part of a number: `scanNumber_chars`. The numerals that the
library writes are such forms: `chars_dataToken` for real numbers, and a whole number is its digits.
-/

namespace FieldDiagram

/-! ## Digits

Digits are read up to where they end, and zeros in front of them or behind them change the number as they
should. -/

/-- Of all numbers only zero starts with the digit zero. -/
theorem digits_of_head_zero {n : Nat} (h : (digits n).head? = some '0') : digits n = ['0'] := by
  fun_induction digits n with
  | case1 n hsmall => rw [← Option.some.inj h]
  | case2 n hlarge ih =>
    have hhead : (digits (n / 10)).head? = some '0' := by
      rwa [List.head?_append, List.head?_eq_some_head (digits_ne_nil _), Option.some_or,
        ← List.head?_eq_some_head] at h
    have hzero := congrArg ofDigits (ih hhead)
    rw [ofDigits_digits] at hzero
    have : ofDigits ['0'] = 0 := rfl
    omega

theorem ofDigits_append_zeros (ds : List Char) (k : Nat) :
    ofDigits (ds ++ List.replicate k '0') = ofDigits ds * 10 ^ k := by
  induction k with
  | zero => rw [List.replicate_zero, List.append_nil, Nat.pow_zero, Nat.mul_one]
  | succ k ih =>
    rw [List.replicate_succ', ← List.append_assoc, ofDigits_concat, ih, Nat.pow_succ,
      show digitValue '0' = 0 from rfl, Nat.add_zero, Nat.mul_left_comm, Nat.mul_comm 10]

theorem ofDigits_zeros_append (k : Nat) (ds : List Char) :
    ofDigits (List.replicate k '0' ++ ds) = ofDigits ds := by
  induction k with
  | zero => rfl
  | succ k ih => exact ih

/-- Digits are taken up to where they end. -/
theorem takeWhile_isDigit {ds rest : List Char} (hds : ∀ c ∈ ds, c.isDigit = true)
    (hrest : ∀ c, rest.head? = some c → c.isDigit = false) :
    (ds ++ rest).takeWhile Char.isDigit = ds ∧ (ds ++ rest).dropWhile Char.isDigit = rest := by
  have hstop : rest.takeWhile Char.isDigit = [] ∧ rest.dropWhile Char.isDigit = rest := by
    cases rest with
    | nil => exact ⟨rfl, rfl⟩
    | cons c rest =>
      have hc := hrest c rfl
      exact ⟨List.takeWhile_cons_of_neg (by rw [hc]; decide),
        List.dropWhile_cons_of_neg (by rw [hc]; decide)⟩
  rw [List.takeWhile_append_of_pos hds, List.dropWhile_append_of_pos hds, hstop.1, hstop.2,
    List.append_nil]
  exact ⟨rfl, rfl⟩

namespace Json

/-! ## Tokens

A reader of numbers goes from part to part and looks one character ahead. So the part after each one
matters, and at the end whatever follows the number. -/

namespace NumberToken

/-- The written form of a number. -/
def chars (t : NumberToken) : List Char :=
  withMinus t.negative (t.whole ++ ((if t.fraction = [] then [] else '.' :: t.fraction) ++
    t.exponent.elim [] fun e => 'e' :: signed e))

/-- What a token for a number consists of. -/
structure WellFormed (t : NumberToken) : Prop where
  whole : ∀ c ∈ t.whole, c.isDigit = true
  nonempty : t.whole ≠ []
  zero : t.whole.head? = some '0' → t.whole = ['0']
  fraction : ∀ c ∈ t.fraction, c.isDigit = true

end NumberToken

/-- Whether a text goes on with something that is no part of a number. -/
def EndsNumber (rest : List Char) : Prop :=
  ∀ c, rest.head? = some c → c.isDigit = false ∧ c ≠ '.' ∧ c ≠ 'e' ∧ c ≠ 'E'

theorem scanExponent_signed (e : Option Int) {rest : List Char} (hrest : EndsNumber rest) :
    scanExponent (e.elim [] (fun e => 'e' :: signed e) ++ rest) = .ok (e, rest) := by
  have hdigits : ∀ n : Nat, (digits n ++ rest).takeWhile Char.isDigit = digits n ∧
      (digits n ++ rest).dropWhile Char.isDigit = rest := fun n =>
    takeWhile_isDigit (fun c hc => isDigit_of_mem_digits hc) fun c hc => (hrest c hc).1
  have hsome : ∀ n : Nat, (digits n).isEmpty = false := fun n => by
    rw [List.isEmpty_eq_false_iff]
    exact digits_ne_nil n
  -- without an exponent the rest must not look like one
  cases e with
  | none =>
    rw [Option.elim_none, List.nil_append]
    cases rest with
    | nil => rfl
    | cons c rest =>
      obtain ⟨-, -, hlower, hupper⟩ := hrest c rfl
      unfold scanExponent
      exact if_neg (by simp [hlower, hupper])
  | some e =>
    cases e with
    | ofNat n =>
      obtain ⟨htake, hdrop⟩ := hdigits n
      change scanExponent ('e' :: '+' :: (digits n ++ rest)) = _
      rw [scanExponent, if_pos (Or.inl rfl)]
      dsimp only
      rw [htake, hdrop, hsome, ofDigits_digits]
      rfl
    | negSucc n =>
      obtain ⟨htake, hdrop⟩ := hdigits (n + 1)
      change scanExponent ('e' :: '-' :: (digits (n + 1) ++ rest)) = _
      rw [scanExponent, if_pos (Or.inl rfl)]
      dsimp only
      rw [htake, hdrop, hsome, ofDigits_digits]
      rfl

theorem scanFraction_append {ds rest : List Char} (hds : ∀ c ∈ ds, c.isDigit = true)
    (hrest : ∀ c, rest.head? = some c → c.isDigit = false ∧ c ≠ '.') :
    scanFraction ((if ds = [] then [] else '.' :: ds) ++ rest) = .ok (ds, rest) := by
  by_cases hnil : ds = []
  · rw [if_pos hnil, List.nil_append, hnil]
    cases rest with
    | nil => rfl
    | cons c rest =>
      rw [scanFraction.eq_2]
      intro rest' heq
      exact (hrest c rfl).2 (List.cons.inj heq).1
  · obtain ⟨htake, hdrop⟩ := takeWhile_isDigit hds fun c hc => (hrest c hc).1
    have hsome : ds.isEmpty = false := List.isEmpty_eq_false_iff.2 hnil
    rw [if_neg hnil, List.cons_append, scanFraction, htake, hdrop, hsome]
    rfl

/-- **A written number reads back**, whatever follows that is no part of a number. -/
theorem scanNumber_chars {t : NumberToken} (ht : t.WellFormed) {rest : List Char}
    (hrest : EndsNumber rest) : scanNumber (t.chars ++ rest) = .ok (t, rest) := by
  obtain ⟨negative, whole, fraction, exponent⟩ := t
  obtain ⟨hwhole, hnonempty, hzero, hfraction⟩ := ht
  dsimp only at hwhole hnonempty hzero hfraction
  -- the parts from the last one on: each ends where a character stands that cannot continue it
  generalize hpower : exponent.elim [] (fun e => 'e' :: signed e) ++ rest = power
  have hpowerHead : ∀ c, power.head? = some c → c.isDigit = false ∧ c ≠ '.' := by
    rw [← hpower]
    intro c hc
    cases exponent with
    | none => exact ⟨(hrest c hc).1, (hrest c hc).2.1⟩
    | some e =>
      rw [← Option.some.inj hc]
      decide
  generalize hpoint : (if fraction = [] then [] else '.' :: fraction) ++ power = point
  have hpointHead : ∀ c, point.head? = some c → c.isDigit = false := by
    rw [← hpoint]
    intro c hc
    split at hc
    · exact (hpowerHead c hc).1
    · rw [← Option.some.inj hc]
      decide
  have hunsigned : scanUnsigned negative (whole ++ point) =
      .ok (⟨negative, whole, fraction, exponent⟩, rest) := by
    obtain ⟨htake, hdrop⟩ := takeWhile_isDigit hwhole hpointHead
    have hsome : whole.isEmpty = false := List.isEmpty_eq_false_iff.2 hnonempty
    have hlead : ¬ (whole.head? = some '0' ∧ whole ≠ ['0']) := fun h => h.2 (hzero h.1)
    rw [scanUnsigned, htake, hdrop, hsome, if_neg Bool.false_ne_true, if_neg hlead, ← hpoint,
      scanFraction_append hfraction hpowerHead, ← hpower]
    simp only [bind, Except.bind, scanExponent_signed exponent hrest]
  have hchars : NumberToken.chars ⟨negative, whole, fraction, exponent⟩ ++ rest =
      withMinus negative (whole ++ point) := by
    rw [NumberToken.chars, ← hpoint, ← hpower]
    cases negative <;> simp [withMinus]
  rw [hchars]
  cases negative with
  | true => exact hunsigned
  | false =>
    -- a digit comes first, so no sign is taken off
    obtain ⟨d, ds, rfl⟩ := List.exists_cons_of_ne_nil hnonempty
    have hd : d ≠ '-' := by
      rintro rfl
      exact absurd (hwhole '-' (by simp)) (by decide)
    rw [withMinus, if_neg Bool.false_ne_true, List.cons_append, scanNumber.eq_2]
    · exact hunsigned
    · intro rest' heq
      exact hd (List.cons.inj heq).1

/-! ## Real numbers in data files

The layout of data files puts the point where it reads best, with a zero behind it if there would be
nothing. Each of its forms is a token. -/

/-- The token of a decimal number in a data file. -/
def dataToken (negative : Bool) (d : Decimal) : NumberToken :=
  let ds := digits d.coefficient
  let scale := d.exponent + (ds.length - 1 : Nat)
  if Layout.data.isPositional scale then
    match d.exponent with
    | .ofNat zeros => ⟨negative, ds ++ List.replicate zeros '0', ['0'], none⟩
    | .negSucc places =>
      if places + 1 < ds.length then
        ⟨negative, ds.take (ds.length - (places + 1)), ds.drop (ds.length - (places + 1)), none⟩
      else ⟨negative, ['0'], List.replicate (places + 1 - ds.length) '0' ++ ds, none⟩
  else ⟨negative, ds.take 1, ds.drop 1, some scale⟩

/-- What is true of every way to write a decimal number in a data file. -/
theorem dataToken_cases {motive : NumberToken → Prop} (negative : Bool) (d : Decimal)
    (whole : ∀ zeros : Nat, d.exponent = zeros → zeros < 16 →
      motive ⟨negative, digits d.coefficient ++ List.replicate zeros '0', ['0'], none⟩)
    (pointed : ∀ places : Nat, d.exponent = -(places + 1 : Nat) →
      places + 1 < (digits d.coefficient).length →
      motive ⟨negative, (digits d.coefficient).take ((digits d.coefficient).length - (places + 1)),
        (digits d.coefficient).drop ((digits d.coefficient).length - (places + 1)), none⟩)
    (small : ∀ places : Nat, d.exponent = -(places + 1 : Nat) →
      (digits d.coefficient).length ≤ places + 1 →
      motive ⟨negative, ['0'], List.replicate (places + 1 - (digits d.coefficient).length) '0' ++
        digits d.coefficient, none⟩)
    (scientific : motive ⟨negative, (digits d.coefficient).take 1, (digits d.coefficient).drop 1,
      some (d.exponent + ((digits d.coefficient).length - 1 : Nat))⟩) :
    motive (dataToken negative d) := by
  rw [dataToken]
  split
  · next hscale =>
    have hsmall : d.exponent + ((digits d.coefficient).length - 1 : Nat) < 16 :=
      (of_decide_eq_true hscale).2
    split
    · next zeros hexp =>
      rw [hexp, Int.ofNat_eq_natCast] at hsmall
      exact whole zeros hexp (by omega)
    · next places hexp =>
      have hneg : d.exponent = -(places + 1 : Nat) := by rw [hexp]; rfl
      split
      · next hlt => exact pointed places hneg hlt
      · next hle => exact small places hneg (by omega)
  · exact scientific

/-- The token of a decimal number is what data files hold of it. -/
theorem chars_dataToken (negative : Bool) (d : Decimal) :
    (dataToken negative d).chars = withMinus negative (Layout.data.decimal d) := by
  have hlength := List.length_pos_iff.2 (digits_ne_nil d.coefficient)
  rw [dataToken, Layout.decimal]
  split
  · cases d.exponent with
    | ofNat zeros => simp [NumberToken.chars, positional, Layout.data]
    | negSucc places =>
      simp only [positional, pointed]
      split
      · next hlt =>
        have hsome : (digits d.coefficient).drop
            ((digits d.coefficient).length - (places + 1)) ≠ [] := by
          rw [ne_eq, List.drop_eq_nil_iff]
          omega
        simp [NumberToken.chars, hsome]
      · simp [NumberToken.chars, digits_ne_nil]
  · rw [NumberToken.chars, scientific, List.append_assoc]
    simp only [List.drop_eq_nil_iff, Option.elim_some]

/-- What data files hold of a decimal number is a number, if zero has no exponent. -/
theorem wellFormed_dataToken (negative : Bool) {d : Decimal} (h : d.coefficient = 0 → d.exponent = 0) :
    (dataToken negative d).WellFormed := by
  have hdigits : ∀ c ∈ digits d.coefficient, c.isDigit = true := fun c => isDigit_of_mem_digits
  have hlength := List.length_pos_iff.2 (digits_ne_nil d.coefficient)
  have hlead : (digits d.coefficient).head? = some '0' → d.coefficient = 0 := by
    intro hhead
    have hvalue := congrArg ofDigits (digits_of_head_zero hhead)
    rwa [ofDigits_digits] at hvalue
  have hzeros : ∀ k, ∀ c ∈ List.replicate k '0', c.isDigit = true := by
    intro k c hc
    rw [List.eq_of_mem_replicate hc]
    decide
  have hzero : ∀ c ∈ ['0'], c.isDigit = true := by
    intro c hc
    rw [List.mem_singleton.1 hc]
    decide
  refine dataToken_cases negative d ?_ ?_ ?_ ?_
  · intro zeros hexp hsmall
    refine ⟨?_, ?_, ?_, hzero⟩
    · intro c hc
      exact (List.mem_append.1 hc).elim (hdigits c) (hzeros zeros c)
    · simp [digits_ne_nil]
    · intro hhead
      -- only zero starts with a zero, and zero is written without more of them
      dsimp only at hhead ⊢
      rw [List.head?_append, List.head?_eq_some_head (digits_ne_nil _), Option.some_or,
        ← List.head?_eq_some_head] at hhead
      have hnone : zeros = 0 := by
        have := h (hlead hhead)
        omega
      rw [digits_of_head_zero hhead, hnone]
      rfl
  · intro places hexp hlt
    refine ⟨fun c hc => hdigits c (List.mem_of_mem_take hc), ?_, ?_,
      fun c hc => hdigits c (List.mem_of_mem_drop hc)⟩
    · intro hnil
      have hnone := congrArg List.length hnil
      rw [List.length_take, List.length_nil] at hnone
      omega
    · intro hhead
      dsimp only at hhead
      rw [List.head?_take, if_neg (by omega)] at hhead
      have := h (hlead hhead)
      omega
  · intro places hexp hle
    refine ⟨hzero, List.cons_ne_nil _ _, fun _ => rfl, ?_⟩
    intro c hc
    exact (List.mem_append.1 hc).elim (hzeros _ c) (hdigits c)
  · refine ⟨fun c hc => hdigits c (List.mem_of_mem_take hc), ?_, ?_,
      fun c hc => hdigits c (List.mem_of_mem_drop hc)⟩
    · simp [digits_ne_nil]
    · obtain ⟨c, cs, hcs⟩ := List.exists_cons_of_ne_nil (digits_ne_nil d.coefficient)
      rw [hcs]
      intro hhead
      rw [Option.some.inj hhead]
      rfl

/-- What data files hold of a decimal number shows that it is a real number: it has a fraction or a
power of ten. -/
theorem isReal_dataToken (negative : Bool) (d : Decimal) :
    (dataToken negative d).negative = negative ∧
      ¬ ((dataToken negative d).fraction = [] ∧ (dataToken negative d).exponent = none) := by
  refine dataToken_cases (motive := fun t => t.negative = negative ∧
    ¬ (t.fraction = [] ∧ t.exponent = none)) negative d ?_ ?_ ?_ ?_
  · exact fun zeros hexp hsmall => ⟨rfl, fun h => List.cons_ne_nil _ _ h.1⟩
  · intro places hexp hlt
    refine ⟨rfl, fun h => ?_⟩
    have hnone := congrArg List.length h.1
    rw [List.length_drop, List.length_nil] at hnone
    omega
  · intro places hexp hle
    exact ⟨rfl, fun h => digits_ne_nil _ (List.append_eq_nil_iff.1 h.1).2⟩
  · exact ⟨rfl, fun h => Option.some_ne_none _ h.2⟩

end Json

end FieldDiagram
