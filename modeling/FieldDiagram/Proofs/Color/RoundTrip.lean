import FieldDiagram.Proofs.Color.Channel
import FieldDiagram.Proofs.Color.Hex
import FieldDiagram.Proofs.Decimal.Plain
/-!
# Colours there and back

A colour that is written and read again has its channels rounded to bytes and its opacity forced between
zero and one; after that it stays as it is. Most colours that one meets have such components to begin
with and are read back as they were.

Main statement: `parse_text`.
-/

namespace FieldDiagram

/-! ## Texts without blanks

Reading trims what it reads, and splits it at commas. Written colours have neither blanks at their ends nor
commas within numbers, so both leave them alone. -/

theorem trimEnd_eq_self {text : List Char} (h : ∀ c, text.getLast? = some c → isBlank c = false) :
    trimEnd text = text := by
  have hdrop : text.reverse.dropWhile isBlank = text.reverse := by
    cases hrev : text.reverse with
    | nil => rfl
    | cons c rest =>
      have hc := h c (by rw [← List.head?_reverse, hrev]; rfl)
      exact List.dropWhile_cons_of_neg (by rw [hc]; decide)
  rw [trimEnd, hdrop, List.reverse_reverse]

/-- A text that neither begins nor ends with a blank is left alone. -/
theorem trim_eq_self {text : List Char} (hfirst : ∀ c, text.head? = some c → isBlank c = false)
    (hlast : ∀ c, text.getLast? = some c → isBlank c = false) : trim text = text := by
  have hdrop : text.dropWhile isBlank = text := by
    cases text with
    | nil => rfl
    | cons c rest => exact List.dropWhile_cons_of_neg (by rw [hfirst c rfl]; decide)
  rw [trim, hdrop, trimEnd_eq_self hlast]

theorem trim_of_isPiece {text : List Char} (h : IsPiece text) : trim text = text :=
  trim_eq_self (fun c hc => (h c (List.mem_of_head? hc)).1)
    fun c hc => (h c (List.mem_of_getLast? hc)).1

/-- A comma ends a piece. -/
theorem piecesAt_append {piece : List Char} (h : ∀ c ∈ piece, c ≠ ',') (rest : List Char) :
    piecesAt ',' (piece ++ ',' :: rest) = piece :: piecesAt ',' rest :=
  List.splitOnP_append_cons_of_forall_mem (fun c hc => decide_eq_false (h c hc)) ',' rfl rest

theorem piecesAt_of_forall {piece : List Char} (h : ∀ c ∈ piece, c ≠ ',') :
    piecesAt ',' piece = [piece] :=
  List.splitOnP_eq_singleton fun c hc => decide_eq_false (h c hc)

namespace Color

/-! ## Reading functions

A function is a name, an opening parenthesis, numbers with commas between them, and a closing one. Reading
one is cut into the part that finds the numbers and the part that does something with them; only the first
looks at the text. -/

/-- A text as it is looked at: trimmed and in small letters. -/
def lowered (text : String) : List Char := (trim text.toList).map Char.toLower

/-- What stands between the parentheses of a function, as numbers. -/
def argumentsOf? (text : List Char) : Option (List Float32) := do
  let inner ← dropClosing? ((text.dropWhile (· ≠ '(')).drop 1)
  (piecesAt ',' inner).mapM fun piece => Single.ofNumeral? (trim piece)

theorem ofFunctionText?_eq (text : List Char) :
    ofFunctionText? text =
      (argumentsOf? text).bind (ofFunction? (trim (text.takeWhile (· ≠ '(')))) := by
  rw [ofFunctionText?, argumentsOf?]
  cases dropClosing? ((text.dropWhile (· ≠ '(')).drop 1) <;> rfl

/-- The parts of a text in function form. -/
theorem function_parts {name : List Char} (hname : '(' ∉ name) (inner : List Char) :
    (name ++ '(' :: (inner ++ [')'])).takeWhile (· ≠ '(') = name ∧
      dropClosing? (((name ++ '(' :: (inner ++ [')'])).dropWhile (· ≠ '(')).drop 1) = some inner := by
  have hpos : ∀ c ∈ name, decide (c ≠ '(') = true :=
    fun c hc => decide_eq_true fun heq => hname (heq ▸ hc)
  have hstop : ∀ rest : List Char, ('(' :: rest).takeWhile (· ≠ '(') = [] ∧
      ('(' :: rest).dropWhile (· ≠ '(') = '(' :: rest := fun rest => ⟨rfl, rfl⟩
  rw [List.takeWhile_append_of_pos hpos, List.dropWhile_append_of_pos hpos, (hstop _).1, (hstop _).2,
    List.append_nil, List.drop_one, List.tail_cons, dropClosing?, List.reverse_append]
  refine ⟨rfl, ?_⟩
  change some inner.reverse.reverse = some inner
  rw [List.reverse_reverse]

/-- The numbers of a function with four arguments, as they are written. -/
theorem argumentsOf?_written {name r g b a : List Char} (hname : '(' ∉ name) (hr : IsPiece r)
    (hg : IsPiece g) (hb : IsPiece b) (ha : IsPiece a) {vr vg vb va : Float32}
    (hvr : Single.ofNumeral? r = some vr) (hvg : Single.ofNumeral? g = some vg)
    (hvb : Single.ofNumeral? b = some vb) (hva : Single.ofNumeral? a = some va) :
    argumentsOf? (name ++ '(' :: ((r ++ ',' :: ((' ' :: g) ++ ',' :: ((' ' :: b) ++ ',' ::
      (' ' :: a)))) ++ [')'])) = some [vr, vg, vb, va] := by
  have hspace : ∀ {piece : List Char}, IsPiece piece → ∀ c ∈ ' ' :: piece, c ≠ ',' := by
    intro piece hpiece c hc
    rcases List.mem_cons.1 hc with rfl | hc
    · decide
    · exact (hpiece c hc).2
  have htrim : ∀ {piece : List Char}, IsPiece piece → trim (' ' :: piece) = piece := by
    intro piece hpiece
    rw [trim_cons_blank (by decide), trim_of_isPiece hpiece]
  rw [argumentsOf?, (function_parts hname _).2]
  simp only [bind, Option.bind_some]
  rw [piecesAt_append fun c hc => (hr c hc).2, piecesAt_append (hspace hg),
    piecesAt_append (hspace hb), piecesAt_of_forall (hspace ha)]
  simp only [List.mapM_cons, List.mapM_nil, trim_of_isPiece hr, htrim hg, htrim hb, htrim ha, hvr, hvg,
    hvb, hva]
  rfl

/-! ## Reading what was written

The text of a colour is such a function with four numbers. Its numerals come back as the numbers they were
written for: the channels are bytes, and the opacity is written with enough digits. -/

/-- What a written colour is read as: its channels are bytes, its opacity lies between zero and one. -/
def reread (c : Color) : Color :=
  ⟨channelOfByte (byteOfChannel c.r), channelOfByte (byteOfChannel c.g),
    channelOfByte (byteOfChannel c.b), Single.clamp (Single.ofRatio 0 1) (Single.ofRatio 1 1) c.a⟩

theorem map_toLower_digits (n : Nat) : (digits n).map Char.toLower = digits n :=
  (List.map_congr_left fun _ hc => toLower_of_isDigit (isDigit_of_mem_digits hc)).trans (List.map_id _)

/-- The form of a written colour. -/
def functionForm (r g b a : List Char) : List Char :=
  ['r', 'g', 'b', 'a'] ++
    '(' :: ((r ++ ',' :: ((' ' :: g) ++ ',' :: ((' ' :: b) ++ ',' :: (' ' :: a)))) ++ [')'])

theorem functionForm_eq (r g b a : List Char) :
    "rgba(".toList ++ r ++ ", ".toList ++ g ++ ", ".toList ++ b ++ ", ".toList ++ a ++ [')'] =
      functionForm r g b a := by
  simp [functionForm]

theorem chars_eq (c : Color) : c.chars = functionForm (digits (byteOfChannel c.r))
    (digits (byteOfChannel c.g)) (digits (byteOfChannel c.b)) (Single.plainText c.a) :=
  functionForm_eq _ _ _ _

theorem trim_functionForm (r g b a : List Char) :
    trim (functionForm r g b a) = functionForm r g b a := by
  refine trim_eq_self (fun c hc => ?_) (fun c hc => ?_)
  · rw [← Option.some.inj (hc : some 'r' = some c)]
    decide
  · rw [← functionForm_eq, List.getLast?_append] at hc
    rw [← Option.some.inj (hc : some ')' = some c)]
    decide

theorem map_functionForm (r g b a : List Char) :
    (functionForm r g b a).map Char.toLower = functionForm (r.map Char.toLower)
      (g.map Char.toLower) (b.map Char.toLower) (a.map Char.toLower) := by
  have hopen : "rgba(".toList.map Char.toLower = "rgba(".toList := by decide
  have hcomma : ", ".toList.map Char.toLower = ", ".toList := by decide
  have hclose : [')'].map Char.toLower = [')'] := by decide
  rw [← functionForm_eq, ← functionForm_eq]
  simp only [List.map_append, hopen, hcomma, hclose]

/-- A written colour as it is looked at. -/
theorem lowered_text (c : Color) :
    lowered c.text = functionForm (digits (byteOfChannel c.r)) (digits (byteOfChannel c.g))
      (digits (byteOfChannel c.b)) ((Single.plainText c.a).map Char.toLower) := by
  rw [lowered, text, String.toList_ofList, chars_eq, trim_functionForm, map_functionForm,
    map_toLower_digits, map_toLower_digits, map_toLower_digits]

/-- A text with a parenthesis is read as a function, if no number sign comes first. -/
theorem ofPlainText_function {text : List Char} (hfirst : ∃ c, text.head? = some c ∧ c ≠ '#')
    (hopen : '(' ∈ text) :
    ofPlainText text = (ofFunctionText? text).elim (.error (.invalidFunction text)) .ok := by
  obtain ⟨c, hc, hne⟩ := hfirst
  obtain ⟨rest, rfl⟩ := List.head?_eq_some_iff.1 hc
  have hcontains : (c :: rest).contains '(' = true := List.contains_iff_mem.2 hopen
  rw [ofPlainText.eq_3 _ (List.cons_ne_nil _ _) fun hex heq => hne (List.cons.inj heq).1, if_pos hcontains]

theorem ofFunction?_rgba (r g b a : Float32) :
    ofFunction? ['r', 'g', 'b', 'a'] [r, g, b, a] =
      some ⟨channelOfNumber r, channelOfNumber g, channelOfNumber b,
        Single.clamp (Single.ofRatio 0 1) (Single.ofRatio 1 1) a⟩ :=
  rfl

/-- A colour that is written is read as what is left of it. -/
theorem parse_written (c : Color) : parse c.text = .ok c.reread := by
  have hname : '(' ∉ ['r', 'g', 'b', 'a'] := by decide
  have hopen : '(' ∈ lowered c.text := by
    rw [lowered_text]
    exact List.mem_append_right _ List.mem_cons_self
  have hfirst : ∃ d, (lowered c.text).head? = some d ∧ d ≠ '#' := by
    rw [lowered_text]
    exact ⟨'r', rfl, by decide⟩
  have htake : trim ((lowered c.text).takeWhile (· ≠ '(')) = ['r', 'g', 'b', 'a'] := by
    rw [lowered_text, functionForm, (function_parts hname _).1]
    decide
  have harguments : argumentsOf? (lowered c.text) = some [Single.ofRatio (byteOfChannel c.r) 1,
      Single.ofRatio (byteOfChannel c.g) 1, Single.ofRatio (byteOfChannel c.b) 1, c.a] := by
    rw [lowered_text]
    exact argumentsOf?_written hname (isPiece_digits _) (isPiece_digits _) (isPiece_digits _)
      (Numeral.isPiece_plainText .single _) (Single.ofNumeral?_digits _) (Single.ofNumeral?_digits _)
      (Single.ofNumeral?_digits _) (Single.ofNumeral?_plainText c.a)
  change ofPlainText (lowered c.text) = _
  rw [ofPlainText_function hfirst hopen, ofFunctionText?_eq, htake, harguments, Option.bind_some,
    ofFunction?_rgba, channelOfNumber_ofRatio (byteOfChannel_le _),
    channelOfNumber_ofRatio (byteOfChannel_le _), channelOfNumber_ofRatio (byteOfChannel_le _),
    Option.elim_some, reread]

/-! ## What is left of a colour

Channels become bytes on the way and the opacity is forced into its bounds. Both are idempotent, so a second
round changes nothing. -/

theorem clamp_unit (x : Float32) :
    Single.clamp (Single.ofRatio 0 1) (Single.ofRatio 1 1)
      (Single.clamp (Single.ofRatio 0 1) (Single.ofRatio 1 1) x) =
    Single.clamp (Single.ofRatio 0 1) (Single.ofRatio 1 1) x :=
  Single.clamp_clamp (by decide) (by decide) x

/-- What is left of a colour is left of it once more. -/
theorem reread_reread (c : Color) : c.reread.reread = c.reread := by
  simp only [reread, byteOfChannel_channelOfByte (byteOfChannel_le _), clamp_unit]

/-- Colours of bytes are left alone. -/
theorem reread_ofBytes {r g b : Nat} (hr : r ≤ 255) (hg : g ≤ 255) (hb : b ≤ 255) {a : Float32}
    (ha : Single.clamp (Single.ofRatio 0 1) (Single.ofRatio 1 1) a = a) :
    (ofBytes r g b a).reread = ofBytes r g b a := by
  simp only [reread, ofBytes, byteOfChannel_channelOfByte hr, byteOfChannel_channelOfByte hg,
    byteOfChannel_channelOfByte hb, ha]

/-- Colours with eight bit channels and an opacity between zero and one. -/
def OnGrid (c : Color) : Prop :=
  ∃ (r g b : Nat) (a : Float32), r ≤ 255 ∧ g ≤ 255 ∧ b ≤ 255 ∧
    Single.ofRatio 0 1 ≤ a ∧ a ≤ Single.ofRatio 1 1 ∧ c = ofBytes r g b a

theorem OnGrid.reread_eq {c : Color} (h : OnGrid c) : c.reread = c := by
  obtain ⟨r, g, b, a, hr, hg, hb, hlower, hupper, rfl⟩ := h
  exact reread_ofBytes hr hg hb (Single.clamp_of_mem hlower hupper)

/-- Two colours with numerically equal components. -/
def Same (c d : Color) : Prop :=
  (c.r == d.r) = true ∧ (c.g == d.g) = true ∧ (c.b == d.b) = true ∧ (c.a == d.a) = true

theorem same_ofBytes {r g b : Nat} (hr : r ≤ 255) (hg : g ≤ 255) (hb : b ≤ 255) {a : Float32}
    (ha : Single.parts a ≠ .nan) : Same (ofBytes r g b a) (ofBytes r g b a) :=
  ⟨Single.beq_self (channelOfByte_ne_nan hr), Single.beq_self (channelOfByte_ne_nan hg),
    Single.beq_self (channelOfByte_ne_nan hb), Single.beq_self ha⟩

/-! ## Accepted texts

Where a colour comes from tells which components it can have. Hexadecimal digits and names give bytes; a
function gives what its numbers are made into. -/

/-- What a text with hexadecimal digits or a name stands for: bytes throughout. -/
def OfBytes (c : Color) : Prop :=
  ∃ r g b a : Nat, r ≤ 255 ∧ g ≤ 255 ∧ b ≤ 255 ∧ a ≤ 255 ∧ c = ofBytes r g b (channelOfByte a)

theorem OfBytes.reread_eq {c : Color} (h : OfBytes c) : c.reread = c := by
  obtain ⟨r, g, b, a, hr, hg, hb, ha, rfl⟩ := h
  exact reread_ofBytes hr hg hb (clamp_channelOfByte ha)

theorem OfBytes.same {c : Color} (h : OfBytes c) : Same c c := by
  obtain ⟨r, g, b, a, hr, hg, hb, ha, rfl⟩ := h
  exact same_ofBytes hr hg hb (channelOfByte_ne_nan ha)

theorem ofBytes_of_hexDigits {hex : List Char} {c : Color} (h : ofHexDigits? hex = some c) :
    OfBytes c := by
  rw [ofHexDigits?_eq, Option.ite_none_right_eq_some] at h
  obtain ⟨-, hc⟩ := h
  have hget : ∀ i d : Nat, d ≤ 255 → (hexBytes hex).getD i d ≤ 255 := by
    intro i d hd
    rw [List.getD_eq_getElem?_getD]
    cases hi : (hexBytes hex)[i]? with
    | none => exact hd
    | some byte => exact hexBytes_le hex byte (List.mem_of_getElem? hi)
  have halpha : ∀ alpha : Option Nat,
      alpha.elim (Single.ofRatio 1 1) channelOfByte = channelOfByte (alpha.getD 255)
    | none => channelOfByte_255.symm
    | some _ => rfl
  refine ⟨_, _, _, (hexBytes hex).getD 3 255, hget 0 0 (by omega), hget 1 0 (by omega),
    hget 2 0 (by omega), hget 3 255 (by omega), ?_⟩
  rw [← Option.some.inj hc, ofChannels, halpha, List.getD_eq_getElem?_getD (i := 3)]
  rfl

theorem ofBytes_of_name {name : String} {c : Color} (h : ofName? name = some c) : OfBytes c := by
  have hnamed : ∀ entry ∈ named, entry.2.1 ≤ 255 ∧ entry.2.2.1 ≤ 255 ∧ entry.2.2.2 ≤ 255 := by decide
  rw [ofName?] at h
  split at h
  · rw [← Option.some.inj h]
    exact ⟨0, 0, 0, 0, by omega, by omega, by omega, by omega, rfl⟩
  · obtain ⟨⟨r, g, b⟩, hlookup, rfl⟩ := Option.map_eq_some_iff.mp h
    obtain ⟨before, after, hsplit, -⟩ := List.lookup_eq_some_iff.mp hlookup
    have hmem : (name, r, g, b) ∈ named := by
      rw [hsplit]
      exact List.mem_append_right _ List.mem_cons_self
    obtain ⟨hr, hg, hb⟩ := hnamed _ hmem
    exact ⟨r, g, b, 255, hr, hg, hb, by omega, rfl⟩

/-- What a function stands for: three numbers made channels, and an opacity forced between zero and
one. -/
def OfNumbers (arguments : List Float32) (c : Color) : Prop :=
  ∃ r g b a : Float32, arguments.take 3 = [r, g, b] ∧
    c = ⟨channelOfNumber r, channelOfNumber g, channelOfNumber b,
      Single.clamp (Single.ofRatio 0 1) (Single.ofRatio 1 1) a⟩

theorem ofNumbers_of_function {name : List Char} {arguments : List Float32} {c : Color}
    (h : ofFunction? name arguments = some c) : OfNumbers arguments c := by
  have hopaque : Single.ofRatio 1 1 =
      Single.clamp (Single.ofRatio 0 1) (Single.ofRatio 1 1) (Single.ofRatio 1 1) := by decide
  unfold ofFunction? at h
  split at h
  · next r g b _ =>
    refine ⟨r, g, b, Single.ofRatio 1 1, rfl, ?_⟩
    rw [← hopaque]
    exact (Option.some.inj h).symm
  · next r g b a _ => exact ⟨r, g, b, a, rfl, (Option.some.inj h).symm⟩
  · cases h

theorem mem_of_mem_lowered {text : String} {c : Char} (h : c ∈ lowered text) :
    ∃ d ∈ text.toList, d.toLower = c := by
  obtain ⟨d, hd, heq⟩ := List.mem_map.mp h
  refine ⟨d, ?_, heq⟩
  rw [trim, trimEnd, List.mem_reverse] at hd
  exact (List.dropWhile_sublist _).mem (List.mem_reverse.mp ((List.dropWhile_sublist _).mem hd))

/-- An accepted text has bytes for components and no parenthesis, or it is a function of arguments. -/
theorem parse_forms {text : String} {c : Color} (h : parse text = .ok c) :
    OfBytes c ∧ '(' ∉ lowered text ∨ '(' ∈ lowered text ∧
      ∃ name arguments, argumentsOf? (lowered text) = some arguments ∧
        ofFunction? name arguments = some c := by
  change ofPlainText (lowered text) = .ok c at h
  have helim : ∀ {o : Option Color} {e : ParseError},
      o.elim (Except.error e) Except.ok = .ok c → o = some c := by
    intro o e ho
    cases o with
    | none => cases ho
    | some d => exact congrArg some (Except.ok.inj ho)
  -- nothing at all is refused; else the first sign or a parenthesis tells the form, and the rest are names
  rw [ofPlainText.eq_def] at h
  generalize lowered text = plain at h ⊢
  split at h
  · cases h
  · next hex =>
    left
    have hread := helim h
    refine ⟨ofBytes_of_hexDigits hread, ?_⟩
    rw [ofHexDigits?_eq, Option.ite_none_right_eq_some] at hread
    rw [List.mem_cons, not_or]
    exact ⟨by decide, hread.1.no_paren⟩
  · split at h
    · next hopen =>
      right
      have hfunction := helim h
      rw [ofFunctionText?_eq, Option.bind_eq_some_iff] at hfunction
      obtain ⟨arguments, harguments, happly⟩ := hfunction
      exact ⟨List.contains_iff_mem.mp hopen, _, arguments, harguments, happly⟩
    · next hclosed =>
      left
      exact ⟨ofBytes_of_name (helim h), fun hmem => hclosed (List.contains_iff_mem.mpr hmem)⟩

/-- **What an accepted text stands for**: bytes if there is no parenthesis, else what its function does
with its numbers. -/
theorem parse_cases {text : String} {c : Color} (h : parse text = .ok c) :
    OfBytes c ∨ '(' ∈ text.toList ∧
      ∃ arguments, argumentsOf? (lowered text) = some arguments ∧ OfNumbers arguments c := by
  rcases parse_forms h with ⟨hbytes, -⟩ | ⟨hopen, name, arguments, harguments, hfunction⟩
  · exact Or.inl hbytes
  · -- a parenthesis is the small letter of nothing but itself
    obtain ⟨d, hd, hlower⟩ := mem_of_mem_lowered hopen
    have hparen : d.toLower = '(' → d = '(' :=
      toLower_induction (P := fun x y => x = '(' → y = '(') (fun _ => id) (by decide) d
    exact Or.inr ⟨hparen hlower ▸ hd, arguments, harguments, ofNumbers_of_function hfunction⟩

/-! ## What is read back as it was

A colour is kept if its channels were bytes to begin with. Its text is kept in any case, as it shows no more
than the bytes. -/

theorem clamp_of_parse {text : String} {c : Color} (h : parse text = .ok c) :
    Single.clamp (Single.ofRatio 0 1) (Single.ofRatio 1 1) c.a = c.a := by
  rcases parse_cases h with ⟨r, g, b, a, -, -, -, ha, rfl⟩ | ⟨-, _, -, r, g, b, a, -, rfl⟩
  · exact clamp_channelOfByte ha
  · exact clamp_unit a

/-- The text of a colour shows no more of it than is read back, if its opacity is between the bounds. -/
theorem text_reread {c : Color} (h : Single.clamp (Single.ofRatio 0 1) (Single.ofRatio 1 1) c.a = c.a) :
    c.reread.text = c.text := by
  have ha : c.reread.a = c.a := h
  rw [text, text, chars_eq, chars_eq, ha]
  simp only [reread, byteOfChannel_channelOfByte (byteOfChannel_le _)]

/-- The colours of which nothing is lost. -/
inductive Lossless : Color → Prop where
  /-- Those with a hexadecimal text or a name. -/
  | plain {text : String} {c : Color} (h : parse text = .ok c) (hplain : '(' ∉ text.toList) : Lossless c
  /-- Those of a function of whole numbers, with an opacity that is a number. -/
  | integral {text : String} {arguments : List Float32} {c : Color} (h : parse text = .ok c)
      (harguments : argumentsOf? (lowered text) = some arguments)
      (hchannels : ∀ v ∈ arguments.take 3, Single.isIntegral v = true)
      (halpha : Single.parts c.a ≠ .nan) : Lossless c
  /-- Those with eight bit channels and an opacity between zero and one. -/
  | bytes {r g b : Nat} (hr : r ≤ 255) (hg : g ≤ 255) (hb : b ≤ 255) {a : Float32}
      (hlower : Single.ofRatio 0 1 ≤ a) (hupper : a ≤ Single.ofRatio 1 1) : Lossless (ofBytes r g b a)

theorem Lossless.same {c : Color} (h : Lossless c) : Same c.reread c := by
  -- bytes come back as they are, and whole numbers become the components of bytes
  cases h with
  | plain h hplain =>
    rcases parse_cases h with hbytes | ⟨hopen, -⟩
    · rw [hbytes.reread_eq]
      exact hbytes.same
    · exact absurd hopen hplain
  | integral h harguments hchannels halpha =>
    rcases parse_cases h with hbytes | ⟨-, arguments', harguments', r, g, b, a, htake, rfl⟩
    · rw [hbytes.reread_eq]
      exact hbytes.same
    · obtain rfl := Option.some.inj (harguments.symm.trans harguments')
      rw [htake] at hchannels
      refine ⟨channelOfNumber_integral (hchannels r (by simp)),
        channelOfNumber_integral (hchannels g (by simp)),
        channelOfNumber_integral (hchannels b (by simp)), ?_⟩
      rw [reread, clamp_unit]
      exact Single.beq_self halpha
  | bytes hr hg hb hlower hupper =>
    rw [reread_ofBytes hr hg hb (Single.clamp_of_mem hlower hupper)]
    refine same_ofBytes hr hg hb fun hnan => ?_
    obtain ⟨-, -, j, hj, -⟩ := Single.le_iff.mp hlower
    rw [Option.mem_def, Single.place?, hnan] at hj
    cases hj

/-- **A colour written and read again.** Whatever the components of a colour are, its text is accepted.
What is read has the components of the bytes that are written, and the opacity forced between zero and
one, where no number stays none; once more changes nothing. A colour that came from a hexadecimal text
or a name, from a function of whole numbers with an opacity that is a number, or from bytes and an
opacity between zero and one, is read back with the same components. And the text of the colour of any
accepted text is still its text afterwards. -/
theorem parse_text (c : Color) :
    parse c.text = .ok c.reread ∧
      (Single.parts c.a = .nan → c.reread.a = c.a) ∧
      parse c.reread.text = .ok c.reread ∧
      (Lossless c → Same c.reread c) ∧
      ∀ text, parse text = .ok c → c.reread.text = c.text := by
  refine ⟨parse_written c, Single.clamp_of_nan, ?_, Lossless.same, fun text h => ?_⟩
  · rw [parse_written, reread_reread]
  · exact text_reread (clamp_of_parse h)

theorem parse_text_integral :
    let c : Color := ⟨channelOfNumber (Single.ofRatio 300 1), channelOfNumber (Single.ofRatio 0 1),
      channelOfNumber (Single.ofRatio 20 1),
      Single.clamp (Single.ofRatio 0 1) (Single.ofRatio 1 1) (Single.ofRatio 2 1)⟩
    parse " RGBA(300, 0 ,2e1,2)" = .ok c ∧ c.reread.Same c ∧ c.reread.text = c.text := by
  intro c
  have harguments : argumentsOf? (lowered " RGBA(300, 0 ,2e1,2)") = some [Single.ofRatio 300 1,
      Single.ofRatio 0 1, Single.ofRatio 20 1, Single.ofRatio 2 1] := by decide
  have hparse : parse " RGBA(300, 0 ,2e1,2)" = .ok c := by
    have hopen : '(' ∈ lowered " RGBA(300, 0 ,2e1,2)" := by decide
    have hfirst : (lowered " RGBA(300, 0 ,2e1,2)").head? = some 'r' := by decide
    have hname : trim ((lowered " RGBA(300, 0 ,2e1,2)").takeWhile (· ≠ '(')) = ['r', 'g', 'b', 'a'] := by
      decide
    change ofPlainText (lowered _) = _
    rw [ofPlainText_function ⟨'r', hfirst, by decide⟩ hopen, ofFunctionText?_eq, hname, harguments,
      Option.bind_some, ofFunction?_rgba, Option.elim_some]
  have hchannels : ∀ v ∈ [Single.ofRatio 300 1, Single.ofRatio 0 1, Single.ofRatio 20 1],
      Single.isIntegral v = true := by decide
  have halpha : Single.parts c.a ≠ .nan := by decide
  obtain ⟨-, -, -, hsame, htext⟩ := parse_text c
  exact ⟨hparse, hsame (.integral hparse harguments hchannels halpha), htext _ hparse⟩

end Color

end FieldDiagram
