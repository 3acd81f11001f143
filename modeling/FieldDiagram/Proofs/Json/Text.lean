import FieldDiagram.Json.Reading
import FieldDiagram.Proofs.Decimal.Bits
import FieldDiagram.Proofs.Json.Written
/-!
# The tokens of a written value

Strings and whole numbers read back as they were written, and a real number reads back as what its digits
make of it (`Number.reread`), which is the number itself or one near it. The text of a value is cut into the
tokens that the value consists of, whatever text follows that is no part of a number: `tokens_chars`. A
number that is not finite has no token of its own and is written as `null`.
-/

namespace FieldDiagram.Json

/-! ## Numbers

A whole number in range is written with its digits and read digit by digit, so it comes back; a real number
always has a point or a power of ten, and is read by scaling. -/

namespace Number

/-- The token of a number, if it is finite. -/
def token? : Number → Option NumberToken
  | integer n => some ⟨n < 0, digits n.natAbs, [], none⟩
  | real x =>
    match Double.parts x with
    | .finite negative pattern =>
      some (dataToken negative (BinaryFormat.double.shortest .toEven pattern))
    | _ => none

/-- Whether a number, if it is a whole one, fits a machine word with or without a sign. -/
def InRange : Number → Prop
  | integer n => -9223372036854775808 ≤ n ∧ n < 18446744073709551616
  | real _ => True

/-- What a number is read as from its token. -/
def reread : Number → Number
  | integer n => integer n
  | real x => real (Double.reread x)

theorem chars_eq (n : Number) : n.chars = n.token?.elim "null".toList NumberToken.chars := by
  cases n with
  | integer n => simp [chars, token?, NumberToken.chars]
  | real x =>
    rw [chars, realChars, token?]
    cases Double.parts x with
    | finite negative pattern => exact (chars_dataToken _ _).symm
    | _ => rfl

theorem wellFormed_of_token? {n : Number} {t : NumberToken} (h : n.token? = some t) :
    t.WellFormed := by
  cases n with
  | integer n =>
    rw [← Option.some.inj h]
    exact ⟨fun c => isDigit_of_mem_digits, digits_ne_nil _, digits_of_head_zero, by simp⟩
  | real x =>
    rw [token?] at h
    split at h
    · next negative pattern hparts =>
      rw [← Option.some.inj h]
      exact wellFormed_dataToken negative (exponent_shortest (Double.ofPattern_of_parts hparts).2)
    · cases h

/-- **What a number is read as**: a whole number is itself, and a real number what its digits make of it. -/
theorem ofToken?_of_token? {n : Number} (hrange : n.InRange) {t : NumberToken}
    (h : n.token? = some t) : ofToken? t = some n.reread := by
  cases n with
  | integer n =>
    obtain ⟨hlower, hupper⟩ := hrange
    rw [← Option.some.inj h, ofToken?, wordSize]
    simp only [ofDigits_digits]
    by_cases hneg : n < 0
    · rw [if_neg (by simp [hneg]), if_pos (by simp [hneg]; omega)]
      congr
      omega
    · rw [if_pos (by simp [hneg]; omega)]
      congr
      omega
  | real x =>
    -- no digits of a real are read as a whole number, as they are written with a point or an exponent
    rw [token?] at h
    split at h
    · next negative pattern hparts =>
      obtain ⟨hsign, hreal⟩ := isReal_dataToken negative (BinaryFormat.double.shortest .toEven pattern)
      obtain ⟨pattern', hpattern, -, hreread⟩ := Double.exists_reread hparts
      rw [Option.some.inj h] at hpattern hsign hreal
      rw [ofToken?, if_neg (fun hc => hreal ⟨hc.1, hc.2.1⟩),
        if_neg (fun hc => hreal ⟨hc.1, hc.2.1⟩), hpattern, Option.map_some, hsign, reread, hreread]
    · cases h

theorem isSome_token?_real (x : Float) : (real x).token?.isSome = x.isFinite := by
  rw [Bool.eq_iff_iff, Double.isFinite_iff, token?]
  cases Double.parts x <;> simp

end Number

/-! ## Strings

Every character is escaped or written as it is, and the reader undoes the one and the other by the first
character that it sees. -/

theorem scanString_escape {escape rest : List Char} {u : StringUnit}
    (h : scanEscape escape = .ok (u, rest)) :
    scanString ('\\' :: escape) =
      (⟨u :: (scanString rest).1.units, (scanString rest).1.fault⟩, (scanString rest).2) := by
  rw [scanString]
  split
  · next hfound =>
    rw [h] at hfound
    cases hfound
  · next hfound =>
    rw [h] at hfound
    cases hfound
    rfl

theorem scanString_plain {c : Char} (hquote : c ≠ '"') (hescape : c ≠ '\\')
    (hcontrol : ¬ c.toNat < 0x20) (rest : List Char) :
    scanString (c :: rest) =
      (⟨.char c :: (scanString rest).1.units, (scanString rest).1.fault⟩, (scanString rest).2) := by
  rw [scanString.eq_4]
  · exact if_neg hcontrol
  · exact hquote
  · exact hescape

/-- A control character reads back from its number. -/
theorem scanEscape_control {c : Char} (h : c.toNat < 0x20) (rest : List Char) :
    scanEscape ('u' :: (hexQuad c.toNat ++ rest)) = .ok (.char c, rest) := by
  have hback : ∀ n < 0x20, hexNumber? (hexQuad n) = some n := by decide
  have hcode := hback c.toNat h
  rw [hexQuad] at hcode ⊢
  simp only [List.cons_append, List.nil_append, scanEscape, hcode]
  rw [StringUnit.ofCode, if_neg (by omega), Char.ofNat_toNat]

theorem scanString_escapeChar (c : Char) (rest : List Char) :
    scanString (escapeChar c ++ rest) =
      (⟨.char c :: (scanString rest).1.units, (scanString rest).1.fault⟩, (scanString rest).2) := by
  fun_cases escapeChar c with
  | case8 c hquote hescape hb hf hn hr ht hcontrol =>
    exact scanString_escape (scanEscape_control hcontrol rest)
  | case9 c hquote hescape hb hf hn hr ht hplain =>
    exact scanString_plain hquote hescape hplain rest
  | _ => exact scanString_escape rfl

/-- **A written string reads back.** -/
theorem scanString_append (cs rest : List Char) :
    scanString (cs.flatMap escapeChar ++ '"' :: rest) = (⟨cs.map .char, none⟩, rest) := by
  induction cs with
  | nil => rw [List.flatMap_nil, List.nil_append, scanString, List.map_nil]
  | cons c cs ih =>
    rw [List.flatMap_cons, List.append_assoc, scanString_escapeChar, ih]
    rfl

/-- The token of a string. -/
def StringToken.ofText (s : String) : StringToken := ⟨s.toList.map .char, none⟩

/-- A string reads back from its token. -/
theorem StringToken.text_ofText (s : String) : (ofText s).text = .ok s := by
  have hjoin : ∀ cs : List Char, joinUnits none (cs.map .char) = .ok cs := by
    intro cs
    induction cs with
    | nil => rfl
    | cons c cs ih =>
      rw [List.map_cons, joinUnits, ih]
      rfl
  rw [text, ofText, hjoin, Except.map, String.ofList_toList]

/-! ## Single tokens

The first character decides which token it is. Of all tokens only numbers need to know what follows them. -/

theorem tokens_cons {c : Char} (hc : isSpace c = false) (rest : List Char) :
    tokens (c :: rest) = (scanToken c rest).1 :: tokens (scanToken c rest).2 := by
  rw [tokens, hc, if_neg Bool.false_ne_true]

@[simp] theorem tokens_openArray (rest : List Char) : tokens ('[' :: rest) = .openArray :: tokens rest :=
  tokens_cons (by decide) rest

@[simp] theorem tokens_closeArray (rest : List Char) :
    tokens (']' :: rest) = .closeArray :: tokens rest :=
  tokens_cons (by decide) rest

@[simp] theorem tokens_openObject (rest : List Char) :
    tokens ('\x7b' :: rest) = .openObject :: tokens rest :=
  tokens_cons (by decide) rest

@[simp] theorem tokens_closeObject (rest : List Char) :
    tokens ('\x7d' :: rest) = .closeObject :: tokens rest :=
  tokens_cons (by decide) rest

@[simp] theorem tokens_comma (rest : List Char) : tokens (',' :: rest) = .comma :: tokens rest :=
  tokens_cons (by decide) rest

@[simp] theorem tokens_colon (rest : List Char) : tokens (':' :: rest) = .colon :: tokens rest :=
  tokens_cons (by decide) rest

@[simp] theorem tokens_stringChars (s : String) (rest : List Char) :
    tokens (stringChars s ++ rest) = .string (.ofText s) :: tokens rest := by
  rw [stringChars, List.cons_append, List.cons_append, tokens_cons (by decide), List.append_assoc,
    List.singleton_append]
  simp only [scanToken, scanString_append]
  rfl

/-- A written number starts with its sign or with a digit. -/
theorem NumberToken.chars_eq_cons {t : NumberToken} (ht : t.WellFormed) :
    ∃ c cs, t.chars = c :: cs ∧ (c = '-' ∨ c.isDigit = true) := by
  obtain ⟨d, ds, hwhole⟩ := List.exists_cons_of_ne_nil ht.nonempty
  have hd := ht.whole d (by rw [hwhole]; exact List.mem_cons_self)
  rw [chars, hwhole]
  cases t.negative with
  | true => exact ⟨_, _, rfl, Or.inl rfl⟩
  | false => exact ⟨_, _, rfl, Or.inr hd⟩

theorem scanToken_of_number {c : Char} (hc : c = '-' ∨ c.isDigit = true) {rest after : List Char}
    {t : NumberToken} (h : scanNumber (c :: rest) = .ok (t, after)) :
    isSpace c = false ∧ scanToken c rest = (.number t, after) := by
  have hspace : isSpace c = false := by
    rw [Bool.eq_false_iff]
    intro hspace
    rw [isSpace] at hspace
    simp only [Bool.or_eq_true, decide_eq_true_eq] at hspace
    rcases hspace with ((rfl | rfl) | rfl) | rfl <;> exact absurd hc (by decide)
  refine ⟨hspace, ?_⟩
  unfold scanToken
  split
  all_goals first
    | exact absurd hc (by decide)
    | rw [if_pos hc, h]

theorem tokens_number {n : Number} {t : NumberToken} (ht : n.token? = some t) {rest : List Char}
    (hrest : EndsNumber rest) : tokens (n.chars ++ rest) = .number t :: tokens rest := by
  have hwell := Number.wellFormed_of_token? ht
  obtain ⟨c, cs, hchars, hc⟩ := NumberToken.chars_eq_cons hwell
  have hscan := scanNumber_chars hwell hrest
  rw [hchars, List.cons_append] at hscan
  obtain ⟨hspace, htoken⟩ := scanToken_of_number hc hscan
  rw [Number.chars_eq, ht, Option.elim_some, hchars, List.cons_append, tokens_cons hspace, htoken]

theorem tokens_null (rest : List Char) : tokens ("null".toList ++ rest) = .null :: tokens rest := by
  rw [show "null".toList = ['n', 'u', 'l', 'l'] from rfl, List.cons_append, tokens_cons (by decide)]
  simp [scanToken, scanWord]

theorem tokens_boolean (b : Bool) (rest : List Char) :
    tokens ((Value.boolean b).chars ++ rest) = .boolean b :: tokens rest := by
  cases b with
  | true =>
    rw [Value.chars, show "true".toList = ['t', 'r', 'u', 'e'] from rfl, List.cons_append,
      tokens_cons (by decide)]
    simp [scanToken, scanWord]
  | false =>
    rw [Value.chars, show "false".toList = ['f', 'a', 'l', 's', 'e'] from rfl, List.cons_append,
      tokens_cons (by decide)]
    simp [scanToken, scanWord]

/-! ## Values

By induction over the value, with its items and members. What follows an item is a comma or the end of the
array, neither of which could be a part of a number. -/

mutual

/-- The tokens of a value. -/
def Value.tokens : Value → List Token
  | .null => [.null]
  | .boolean b => [.boolean b]
  | .number n => [n.token?.elim .null .number]
  | .string s => [.string (.ofText s)]
  | .array [] => [.openArray, .closeArray]
  | .array (x :: xs) => .openArray :: x.tokens ++ itemTokens xs ++ [.closeArray]
  | .object [] => [.openObject, .closeObject]
  | .object ((k, v) :: ms) =>
    .openObject :: .string (.ofText k) :: .colon :: v.tokens ++ memberTokens ms ++ [.closeObject]

/-- The tokens of items after the first. -/
def itemTokens : List Value → List Token
  | [] => []
  | x :: xs => .comma :: x.tokens ++ itemTokens xs

/-- The tokens of members after the first. -/
def memberTokens : List (String × Value) → List Token
  | [] => []
  | (k, v) :: ms => .comma :: .string (.ofText k) :: .colon :: v.tokens ++ memberTokens ms

end

theorem endsNumber_nil : EndsNumber [] := fun c hc => by cases hc

theorem endsNumber_cons {c : Char} (h : c.isDigit = false ∧ c ≠ '.' ∧ c ≠ 'e' ∧ c ≠ 'E')
    (rest : List Char) : EndsNumber (c :: rest) := by
  intro d hd
  rwa [← Option.some.inj hd]

theorem endsNumber_itemChars (xs : List Value) (rest : List Char) :
    EndsNumber (itemChars xs ++ ']' :: rest) := by
  cases xs with
  | nil => exact endsNumber_cons (by decide) rest
  | cons x xs => exact endsNumber_cons (by decide) _

theorem endsNumber_memberChars (ms : List (String × Value)) (rest : List Char) :
    EndsNumber (memberChars ms ++ '\x7d' :: rest) := by
  cases ms with
  | nil => exact endsNumber_cons (by decide) rest
  | cons m ms => exact endsNumber_cons (by decide) _

mutual

/-- **The text of a value is cut into its tokens**, whatever follows that is no part of a number. -/
theorem tokens_chars {rest : List Char} (hrest : EndsNumber rest) :
    ∀ v : Value, tokens (v.chars ++ rest) = v.tokens ++ tokens rest
  | .null => tokens_null rest
  | .boolean b => tokens_boolean b rest
  | .number n => by
    rw [Value.chars, Value.tokens]
    rcases ht : n.token? with _ | t
    · rw [Number.chars_eq, ht]
      exact tokens_null rest
    · exact tokens_number ht hrest
  | .string s => tokens_stringChars s rest
  | .array [] => by simp [Value.chars, Value.tokens]
  | .array (x :: xs) => by
    have hx := tokens_chars (endsNumber_itemChars xs rest) x
    have hxs := tokens_itemChars rest xs
    simp [Value.chars, Value.tokens, hx, hxs]
  | .object [] => by simp [Value.chars, Value.tokens]
  | .object ((k, v) :: ms) => by
    have hv := tokens_chars (endsNumber_memberChars ms rest) v
    have hms := tokens_memberChars rest ms
    simp [Value.chars, Value.tokens, hv, hms]

theorem tokens_itemChars (rest : List Char) :
    ∀ xs : List Value, tokens (itemChars xs ++ ']' :: rest) =
      itemTokens xs ++ .closeArray :: tokens rest
  | [] => tokens_closeArray rest
  | x :: xs => by
    have hx := tokens_chars (endsNumber_itemChars xs rest) x
    have hxs := tokens_itemChars rest xs
    simp [itemChars, itemTokens, hx, hxs]

theorem tokens_memberChars (rest : List Char) :
    ∀ ms : List (String × Value), tokens (memberChars ms ++ '\x7d' :: rest) =
      memberTokens ms ++ .closeObject :: tokens rest
  | [] => tokens_closeObject rest
  | (k, v) :: ms => by
    have hv := tokens_chars (endsNumber_memberChars ms rest) v
    have hms := tokens_memberChars rest ms
    simp [memberChars, memberTokens, hv, hms]

end

end FieldDiagram.Json
