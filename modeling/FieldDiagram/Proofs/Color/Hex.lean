import FieldDiagram.Color.Css
/-!
# Colours with a number sign

What may follow `#` in a colour, and which colour it is. A channel is one digit or two, for all of them
alike. The first of two may also be a plus sign, which counts as a zero: `#+f+f+f` is read as a colour,
although a plus sign is no digit.

Main statement: `parse_numberSign`.
-/

namespace FieldDiagram

/-! ## Digits

Texts are made small before they are read, so everything is said of characters of either case and carried
over. Outside ASCII there are no digits, and small letters are left alone, so it is enough to try ASCII. -/

/-- The hexadecimal digits, in either case. -/
def isHexDigit (c : Char) : Bool :=
  c.isDigit || ('a' ≤ c && c ≤ 'f') || ('A' ≤ c && c ≤ 'F')

/-- What a character counts for in a hexadecimal number; all but the digits count as zero. -/
def hexDigitValue (c : Char) : Nat := (hexValue? c).getD 0

theorem hexValue?_eq (c : Char) :
    hexValue? c = if isHexDigit c then some (hexDigitValue c) else none := by
  unfold hexDigitValue isHexDigit hexValue?
  split
  · next hdigit => simp [hdigit]
  · next hdigit =>
    split
    · next hsmall => simp [hsmall]
    · next hsmall =>
      split
      · next hcapital => simp [hcapital]
      · next hcapital => simp_all

theorem isHexDigit_plus : isHexDigit '+' = false := by decide

theorem hexDigitValue_plus : hexDigitValue '+' = 0 := by decide

/-- Hexadecimal digits are in ASCII. -/
theorem toNat_lt_of_isHexDigit {c : Char} (h : isHexDigit c) : c.toNat < 128 := by
  simp only [isHexDigit, Char.isDigit, Bool.or_eq_true, Bool.and_eq_true, decide_eq_true_eq,
    UInt32.le_iff_toNat_le, Char.le_def] at h
  have h9 : ('9' : Char).val.toNat = 57 := rfl
  have hf : ('f' : Char).val.toNat = 102 := rfl
  have hF : ('F' : Char).val.toNat = 70 := rfl
  change c.val.toNat < 128
  omega

/-- Only characters of ASCII have a small letter. -/
theorem toLower_of_not_ascii {c : Char} (h : ¬ c.toNat < 128) : c.toLower = c := by
  unfold Char.toLower
  rw [dif_neg]
  rintro ⟨-, hle⟩
  have hZ : ('Z' : Char).val.toNat = 90 := rfl
  have hle' := UInt32.le_iff_toNat_le.mp hle
  change ¬ c.val.toNat < 128 at h
  omega

/-- What holds of the characters of ASCII, one after the other, and of all others. -/
theorem ascii_induction {P : Char → Prop} (hascii : ∀ n : Fin 128, P (Char.ofNat n))
    (hother : ∀ c, ¬ c.toNat < 128 → P c) (c : Char) : P c := by
  by_cases hc : c.toNat < 128
  · have hone := hascii ⟨c.toNat, hc⟩
    rwa [Char.ofNat_toNat] at hone
  · exact hother c hc

theorem hexDigitValue_lt (c : Char) : hexDigitValue c < 16 := by
  refine ascii_induction (P := fun c => hexDigitValue c < 16) (by decide) (fun c hc => ?_) c
  have hno : ¬ isHexDigit c := fun h => hc (toNat_lt_of_isHexDigit h)
  rw [hexDigitValue, hexValue?_eq, if_neg hno]
  exact Nat.zero_lt_succ 15

/-- What holds of every character of ASCII and its small letter, and of every character and itself. -/
theorem toLower_induction {P : Char → Char → Prop} (hself : ∀ c, P c c)
    (hascii : ∀ n : Fin 128, P (Char.ofNat n).toLower (Char.ofNat n)) (c : Char) : P c.toLower c := by
  refine ascii_induction (P := fun c => P c.toLower c) hascii (fun c hc => ?_) c
  rw [toLower_of_not_ascii hc]
  exact hself c

/-- The value of a digit does not depend on its case. -/
theorem hexValue?_toLower (c : Char) : hexValue? c.toLower = hexValue? c :=
  toLower_induction (P := fun d c => hexValue? d = hexValue? c) (fun _ => rfl) (by decide) c

theorem isHexDigit_toLower (c : Char) : isHexDigit c.toLower = isHexDigit c :=
  toLower_induction (P := fun d c => isHexDigit d = isHexDigit c) (fun _ => rfl) (by decide) c

theorem hexDigitValue_toLower (c : Char) : hexDigitValue c.toLower = hexDigitValue c :=
  congrArg (·.getD 0) (hexValue?_toLower c)

theorem toLower_eq_plus_iff (c : Char) : c.toLower = '+' ↔ c = '+' :=
  toLower_induction (P := fun d c => d = '+' ↔ c = '+') (fun _ => Iff.rfl) (by decide) c

/-! ## Pairs

Channels of two characters are read two by two. -/

section Pairs

variable {α β : Type}

/-- The first two of a list, the next two, and so on; an odd one at the end is left out. -/
def pairs : List α → List (α × α)
  | [] => []
  | [_] => []
  | x :: y :: rest => (x, y) :: pairs rest

theorem forall_mem_iff_pairs (P : α → Prop) {xs : List α} (heven : xs.length % 2 = 0) :
    (∀ x ∈ xs, P x) ↔ ∀ p ∈ pairs xs, P p.1 ∧ P p.2 := by
  fun_induction pairs xs with
  | case1 => simp
  | case2 x => simp at heven
  | case3 x y rest ih =>
    have hrest : rest.length % 2 = 0 := by
      simp only [List.length_cons] at heven
      omega
    simp only [List.forall_mem_cons, ih hrest, and_assoc]

theorem pairs_map (f : α → β) (xs : List α) : pairs (xs.map f) = (pairs xs).map (Prod.map f f) := by
  fun_induction pairs xs with
  | case1 => rfl
  | case2 x => rfl
  | case3 x y rest ih => simp [pairs, ih]

theorem length_pairs (xs : List α) : (pairs xs).length = xs.length / 2 := by
  fun_induction pairs xs with
  | case1 => simp
  | case2 x => simp
  | case3 x y rest ih =>
    simp only [List.length_cons, ih]
    omega

/-- Reading every element of a list succeeds if every element can be read. -/
theorem mapM_ite {p : α → Prop} [DecidablePred p] {Q : Prop} [Decidable Q] (f : α → β) {xs : List α}
    (hQ : Q ↔ ∀ x ∈ xs, p x) :
    (xs.mapM fun x => if p x then some (f x) else none) = if Q then some (xs.map f) else none := by
  have hevery : ∀ ys : List α, (∀ x ∈ ys, p x) →
      (ys.mapM fun x => if p x then some (f x) else none) = some (ys.map f) := by
    intro ys h
    induction ys with
    | nil => rfl
    | cons y ys ih =>
      rw [List.mapM_cons, if_pos (h y List.mem_cons_self),
        ih fun x hx => h x (List.mem_cons_of_mem y hx)]
      rfl
  have hfails : ∀ ys : List α, (¬ ∀ x ∈ ys, p x) →
      (ys.mapM fun x => if p x then some (f x) else none) = none := by
    intro ys h
    induction ys with
    | nil => exact absurd (List.forall_mem_nil p) h
    | cons y ys ih =>
      rw [List.mapM_cons]
      by_cases hy : p y
      · rw [if_pos hy, ih fun hys => h (List.forall_mem_cons.mpr ⟨hy, hys⟩)]
        rfl
      · rw [if_neg hy]
        rfl
  -- one failure is enough for none, and success has to be checked all along
  split
  · next h => exact hevery xs (hQ.mp h)
  · next h => exact hfails xs (mt hQ.mpr h)

end Pairs

namespace Color

/-! ## What may follow the sign

The specification: which characters may stand there and which bytes they are. A plus sign is a part of it,
as the reader of numbers accepts one in front of a digit. -/

/-- What stands for a channel of two characters: two digits, or a plus sign and a digit. -/
def IsHexPair (p : Char × Char) : Prop := (isHexDigit p.1 ∨ p.1 = '+') ∧ isHexDigit p.2

instance : DecidablePred IsHexPair := fun _ => inferInstanceAs (Decidable (_ ∧ _))

/-- Three or four digits, or three or four pairs. -/
def IsHexNotation (hex : List Char) : Prop :=
  ((hex.length = 3 ∨ hex.length = 4) ∧ ∀ c ∈ hex, isHexDigit c) ∨
    ((hex.length = 6 ∨ hex.length = 8) ∧ ∀ p ∈ pairs hex, IsHexPair p)

instance : DecidablePred IsHexNotation := fun hex => decidable_of_iff
  (((hex.length = 3 ∨ hex.length = 4) ∧ hex.all isHexDigit) ∨
    ((hex.length = 6 ∨ hex.length = 8) ∧ (pairs hex).all (decide <| IsHexPair ·)))
  (by simp only [List.all_eq_true, decide_eq_true_eq, IsHexNotation])

/-- Three, four, six or eight digits and nothing else. -/
def IsHexDigits (hex : List Char) : Prop :=
  (hex.length = 3 ∨ hex.length = 4 ∨ hex.length = 6 ∨ hex.length = 8) ∧ ∀ c ∈ hex, isHexDigit c

instance : DecidablePred IsHexDigits := fun hex => decidable_of_iff
  ((hex.length = 3 ∨ hex.length = 4 ∨ hex.length = 6 ∨ hex.length = 8) ∧ hex.all isHexDigit)
  (by simp only [List.all_eq_true, IsHexDigits])

/-- The bytes of the channels. A single digit stands for itself twice. -/
def hexBytes (hex : List Char) : List Nat :=
  if hex.length ≤ 4 then hex.map fun c => 17 * hexDigitValue c
  else (pairs hex).map fun p => 16 * hexDigitValue p.1 + hexDigitValue p.2

/-- The colour of three or four bytes; without the fourth it is opaque. -/
def ofChannels (bytes : List Nat) : Color :=
  ⟨channelOfByte (bytes.getD 0 0), channelOfByte (bytes.getD 1 0), channelOfByte (bytes.getD 2 0),
    bytes[3]?.elim (Single.ofRatio 1 1) channelOfByte⟩

/-- A text consists of digits if it can be read as a colour and has no plus sign. -/
theorem isHexDigits_iff (hex : List Char) : IsHexDigits hex ↔ IsHexNotation hex ∧ '+' ∉ hex := by
  constructor
  · rintro ⟨hlength, hdigits⟩
    have hplus : '+' ∉ hex := fun hmem => by
      have hdigit := hdigits _ hmem
      rw [isHexDigit_plus] at hdigit
      exact Bool.false_ne_true hdigit
    refine ⟨?_, hplus⟩
    by_cases hfew : hex.length = 3 ∨ hex.length = 4
    · exact Or.inl ⟨hfew, hdigits⟩
    · have hmany : hex.length = 6 ∨ hex.length = 8 := by omega
      -- the length is even, so every digit is in a pair
      have hboth := (forall_mem_iff_pairs (fun c => isHexDigit c) (by omega)).mp hdigits
      exact Or.inr ⟨hmany, fun p hp => ⟨Or.inl (hboth p hp).1, (hboth p hp).2⟩⟩
  · rintro ⟨⟨hfew, hdigits⟩ | ⟨hmany, hpairs⟩, hplus⟩
    · exact ⟨by omega, hdigits⟩
    · have heven : hex.length % 2 = 0 := by omega
      have hsigns : ∀ p ∈ pairs hex, p.1 ≠ '+' ∧ p.2 ≠ '+' :=
        (forall_mem_iff_pairs (· ≠ '+') heven).mp fun c hc heq => hplus (heq ▸ hc)
      refine ⟨by omega, (forall_mem_iff_pairs (fun c => isHexDigit c) heven).mpr fun p hp => ?_⟩
      exact ⟨(hpairs p hp).1.resolve_right (hsigns p hp).1, (hpairs p hp).2⟩

/-- Whatever can be read as a colour is in ASCII. -/
theorem IsHexNotation.ascii {hex : List Char} (h : IsHexNotation hex) : ∀ c ∈ hex, c.toNat < 128 := by
  rcases h with ⟨-, hdigits⟩ | ⟨hmany, hpairs⟩
  · exact fun c hc => toNat_lt_of_isHexDigit (hdigits c hc)
  · rw [forall_mem_iff_pairs (fun c : Char => c.toNat < 128) (by omega)]
    intro p hp
    obtain ⟨hdigit | hplus, hlast⟩ := hpairs p hp
    · exact ⟨toNat_lt_of_isHexDigit hdigit, toNat_lt_of_isHexDigit hlast⟩
    · exact ⟨by rw [hplus]; decide, toNat_lt_of_isHexDigit hlast⟩

/-- There are no parentheses in hexadecimal notation. -/
theorem IsHexNotation.no_paren {hex : List Char} (h : IsHexNotation hex) : '(' ∉ hex := by
  have hparen : isHexDigit '(' = false := by decide
  intro hmem
  rcases h with ⟨-, hdigits⟩ | ⟨hmany, hpairs⟩
  · have hdigit := hdigits _ hmem
    rw [hparen] at hdigit
    exact Bool.false_ne_true hdigit
  · have hall : ∀ c ∈ hex, c ≠ '(' := by
      rw [forall_mem_iff_pairs (· ≠ '(') (by omega)]
      intro p hp
      obtain ⟨hfirst, hlast⟩ := hpairs p hp
      constructor
      · rintro heq
        rw [heq, hparen] at hfirst
        rcases hfirst with hdigit | hplus
        · exact Bool.false_ne_true hdigit
        · exact absurd hplus (by decide)
      · rintro heq
        rw [heq, hparen] at hlast
        exact Bool.false_ne_true hlast
    exact hall _ hmem rfl

/-- Capital letters are as good as small ones. -/
theorem isHexNotation_toLower (hex : List Char) :
    IsHexNotation (hex.map Char.toLower) ↔ IsHexNotation hex := by
  simp only [IsHexNotation, IsHexPair, List.length_map, pairs_map, List.forall_mem_map, Prod.map,
    isHexDigit_toLower, toLower_eq_plus_iff]

theorem hexBytes_toLower (hex : List Char) : hexBytes (hex.map Char.toLower) = hexBytes hex := by
  simp only [hexBytes, List.length_map, pairs_map, List.map_map, Function.comp_def, Prod.map,
    hexDigitValue_toLower]

/-! ## Reading the channels

The program cuts slices out of the text, by positions that depend on its length, and reads each of them as a
number. Lengths other than the four have no slices. -/

theorem hexField?_singleton (c : Char) :
    hexField? [c] = if isHexDigit c then some (hexDigitValue c) else none := by
  have hread : hexField? [c] = (hexValue? c).map (16 * 0 + ·) := by
    unfold hexField?
    simp [hexNumber?]
  rw [hread, hexValue?_eq]
  split <;> simp

theorem hexField?_pair (c d : Char) :
    hexField? [c, d] =
      if IsHexPair (c, d) then some (16 * hexDigitValue c + hexDigitValue d) else none := by
  by_cases hplus : c = '+'
  · -- the sign is dropped and the digit is read alone
    subst hplus
    have hread : hexField? ['+', d] = (hexValue? d).map (16 * 0 + ·) := by
      simp [hexField?, hexNumber?]
    rw [hread, hexValue?_eq, hexDigitValue_plus]
    simp only [IsHexPair, or_true, true_and]
    split <;> rfl
  · -- without a sign in front both characters have to be digits
    have hread : hexField? [c, d] =
        (hexValue? c).bind fun n => (hexValue? d).map (16 * n + ·) := by
      unfold hexField?
      split
      · next heq => simp at heq
      · next heq => simp_all
      · simp [hexNumber?]
    rw [hread, hexValue?_eq, hexValue?_eq]
    simp only [IsHexPair, hplus, or_false]
    by_cases hc : isHexDigit c <;> by_cases hd : isHexDigit d <;> simp [hc, hd]

/-- Three or four characters are read one by one. -/
theorem channels_of_few {hex : List Char} (hfew : hex.length = 3 ∨ hex.length = 4) :
    ((hexSlices? hex.length).bind fun slices => slices.mapM (hexChannel? hex)) =
      if IsHexNotation hex then some (hexBytes hex) else none := by
  have hone : ((hexSlices? hex.length).bind fun slices => slices.mapM (hexChannel? hex)) =
      hex.mapM fun c => (hexField? [c]).map (· * 17) := by
    match hex, hfew with
    | [_, _, _], _ => rfl
    | [_, _, _, _], _ => rfl
  have hdigit (c : Char) : (hexField? [c]).map (· * 17) =
      if isHexDigit c then some (17 * hexDigitValue c) else none := by
    rw [hexField?_singleton, Nat.mul_comm]
    split <;> rfl
  have haccepted : IsHexNotation hex ↔ ∀ c ∈ hex, isHexDigit c := by
    unfold IsHexNotation
    constructor
    · rintro (⟨-, h⟩ | ⟨hmany, -⟩)
      · exact h
      · omega
    · exact fun h => Or.inl ⟨hfew, h⟩
  rw [hone, hexBytes, if_pos (show hex.length ≤ 4 by omega)]
  simp only [hdigit]
  exact mapM_ite _ haccepted

/-- Six or eight characters are read two by two. -/
theorem channels_of_many {hex : List Char} (hmany : hex.length = 6 ∨ hex.length = 8) :
    ((hexSlices? hex.length).bind fun slices => slices.mapM (hexChannel? hex)) =
      if IsHexNotation hex then some (hexBytes hex) else none := by
  have htwo : ((hexSlices? hex.length).bind fun slices => slices.mapM (hexChannel? hex)) =
      (pairs hex).mapM fun p => (hexField? [p.1, p.2]).map id := by
    match hex, hmany with
    | [_, _, _, _, _, _], _ => rfl
    | [_, _, _, _, _, _, _, _], _ => rfl
  have haccepted : IsHexNotation hex ↔ ∀ p ∈ pairs hex, IsHexPair p := by
    unfold IsHexNotation
    constructor
    · rintro (⟨hfew, -⟩ | ⟨-, h⟩)
      · omega
      · exact h
    · exact fun h => Or.inr ⟨hmany, h⟩
  rw [htwo, hexBytes, if_neg (show ¬ hex.length ≤ 4 by omega)]
  simp only [hexField?_pair, Option.map_id, id]
  exact mapM_ite _ haccepted

theorem hexSlices?_eq_none {n : Nat} (hfew : ¬ (n = 3 ∨ n = 4)) (hmany : ¬ (n = 6 ∨ n = 8)) :
    hexSlices? n = none := by
  unfold hexSlices?
  split <;> first | omega | rfl

theorem channels_eq (hex : List Char) :
    ((hexSlices? hex.length).bind fun slices => slices.mapM (hexChannel? hex)) =
      if IsHexNotation hex then some (hexBytes hex) else none := by
  by_cases hfew : hex.length = 3 ∨ hex.length = 4
  · exact channels_of_few hfew
  · by_cases hmany : hex.length = 6 ∨ hex.length = 8
    · exact channels_of_many hmany
    · have hnone : ¬ IsHexNotation hex := by
        rintro (⟨h, -⟩ | ⟨h, -⟩) <;> contradiction
      rw [hexSlices?_eq_none hfew hmany, if_neg hnone]
      rfl

/-- There are three channels or four. -/
theorem IsHexNotation.length_hexBytes {hex : List Char} (h : IsHexNotation hex) :
    (hexBytes hex).length = 3 ∨ (hexBytes hex).length = 4 := by
  unfold hexBytes
  split
  · next hfew =>
    rw [List.length_map]
    rcases h with ⟨h, -⟩ | ⟨h, -⟩ <;> omega
  · next hmany =>
    rw [List.length_map, length_pairs]
    rcases h with ⟨h, -⟩ | ⟨h, -⟩ <;> omega

/-- The channels are bytes. -/
theorem hexBytes_le (hex : List Char) : ∀ byte ∈ hexBytes hex, byte ≤ 255 := by
  intro byte hbyte
  unfold hexBytes at hbyte
  split at hbyte
  · obtain ⟨c, -, rfl⟩ := List.mem_map.mp hbyte
    have hlt := hexDigitValue_lt c
    omega
  · obtain ⟨p, -, rfl⟩ := List.mem_map.mp hbyte
    have hfirst := hexDigitValue_lt p.1
    have hsecond := hexDigitValue_lt p.2
    omega

theorem channelOfByte_255 : channelOfByte 255 = Single.ofRatio 1 1 := by decide

/-- Three bytes are the channels of an opaque colour, four those of any colour. -/
theorem ofChannels_eq : ∀ bytes : List Nat, bytes.length = 3 ∨ bytes.length = 4 →
    (match bytes with
      | [r, g, b] => some (opaqueOfBytes r g b)
      | [r, g, b, a] => some (ofBytes r g b (channelOfByte a))
      | _ => none) = some (ofChannels bytes)
  | [r, g, b], _ => by
    change some (ofBytes r g b (channelOfByte 255)) = some (ofBytes r g b (Single.ofRatio 1 1))
    rw [channelOfByte_255]
  | [r, g, b, a], _ => rfl

/-- Characters are the channels of a colour exactly if they are in hexadecimal notation. -/
theorem ofHexDigits?_eq (hex : List Char) :
    ofHexDigits? hex = if IsHexNotation hex then some (ofChannels (hexBytes hex)) else none := by
  have hchannels := channels_eq hex
  have hread : ofHexDigits? hex = if hex.all (·.toNat < 128) then
      ((hexSlices? hex.length).bind fun slices => slices.mapM (hexChannel? hex)).bind fun bytes =>
        match bytes with
        | [r, g, b] => some (opaqueOfBytes r g b)
        | [r, g, b, a] => some (ofBytes r g b (channelOfByte a))
        | _ => none
      else none := by
    rw [Option.bind_assoc]
    rfl
  rw [hread, hchannels]
  -- the test for ASCII rejects nothing that the channels would accept
  by_cases haccepted : IsHexNotation hex
  · have hascii : hex.all (·.toNat < 128) :=
      List.all_eq_true.mpr fun c hc => decide_eq_true (haccepted.ascii c hc)
    rw [if_pos hascii, if_pos haccepted, if_pos haccepted]
    exact ofChannels_eq (hexBytes hex) haccepted.length_hexBytes
  · rw [if_neg haccepted, if_neg haccepted, Option.bind_none, ite_self]

/-! ## Reading the colour

What remains is to come from the text to the characters after the sign, and to say which error there is. -/

/-- **A colour with a number sign.** A text that, trimmed, begins with `#` is a colour exactly if the
characters after it are in hexadecimal notation; the colour then has the channels they stand for, and is
opaque if there are three of them. Otherwise the error has the trimmed text in small letters. The
notation without plus signs is three, four, six or eight digits. -/
theorem parse_numberSign {text : String} {hex : List Char} (htext : trim text.toList = '#' :: hex) :
    parse text =
        (if IsHexNotation hex then .ok (ofChannels (hexBytes hex))
        else .error (.invalidHex ((trim text.toList).map Char.toLower))) ∧
      (IsHexDigits hex ↔ IsHexNotation hex ∧ '+' ∉ hex) := by
  refine ⟨?_, isHexDigits_iff hex⟩
  have hsmall : (trim text.toList).map Char.toLower = '#' :: hex.map Char.toLower := by
    rw [htext]
    rfl
  rw [parse, hsmall, ofPlainText, ofHexDigits?_eq, hexBytes_toLower]
  simp only [isHexNotation_toLower]
  split <;> rfl

/-- Two characters for a channel, with a capital letter and a plus sign, and one character that is no
digit. -/
theorem parse_numberSign_forms :
    parse " #0a+2FF\n" = .ok (ofChannels [10, 2, 255]) ∧
      parse "#+1F" = .error (.invalidHex "#+1f".toList) := by
  constructor
  · have htext : trim " #0a+2FF\n".toList = '#' :: "0a+2FF".toList := by decide
    have hbytes : hexBytes "0a+2FF".toList = [10, 2, 255] := by decide
    have hread := (parse_numberSign htext).1
    rwa [if_pos (by decide), hbytes] at hread
  · have htext : trim "#+1F".toList = '#' :: "+1F".toList := by decide
    have hread := (parse_numberSign htext).1
    have hsmall : (trim "#+1F".toList).map Char.toLower = "#+1f".toList := by decide
    rwa [if_neg (by decide), hsmall] at hread

/-- A plus sign is no digit, and yet a text with one is read as a colour: it is not the digits alone
that are accepted. -/
theorem not_only_hexDigits : ¬ ∀ (text : String) (hex : List Char),
    trim text.toList = '#' :: hex → ((∃ c, parse text = .ok c) ↔ IsHexDigits hex) := by
  intro h
  have hread : parse "#+f+f+f" = .ok (ofChannels (hexBytes "+f+f+f".toList)) := by
    have hsmall : (trim "#+f+f+f".toList).map Char.toLower = '#' :: "+f+f+f".toList := by
      decide
    have haccepted : IsHexNotation "+f+f+f".toList := by decide
    rw [parse, hsmall, ofPlainText, ofHexDigits?_eq, if_pos haccepted]
    rfl
  have hdigits := (h "#+f+f+f" "+f+f+f".toList (by decide)).mp ⟨_, hread⟩
  exact absurd hdigits (by decide)

end Color

end FieldDiagram
