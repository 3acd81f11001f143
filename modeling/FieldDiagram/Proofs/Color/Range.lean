import FieldDiagram.Proofs.Color.RoundTrip
import FieldDiagram.Proofs.Decimal.Quotient
import FieldDiagram.Proofs.Decimal.Reading
/-!
# Components between zero and one

The components of a colour that is read from a text lie between zero and one, whatever numbers stand in
the text: forcing into bounds takes care of those that are negative, large or infinite, and dividing by
the largest byte leads from zero to one. Only the word for no number passes through all of it, so a
function with that word among its arguments is a colour with a component that is none.

Main statement: `parse_inRange`.
-/

namespace FieldDiagram

/-! ## Numbers between zero and one

Being in range is a statement about two comparisons, and both fail for what is no number. So whatever leads
into the range has to ask first whether there is a number. -/

namespace Single

/-- From zero to one. What is no number is not. -/
def InUnit (x : Float32) : Prop := ofRatio 0 1 ≤ x ∧ x ≤ ofRatio 1 1

instance : DecidablePred InUnit := fun _ => inferInstanceAs (Decidable (_ ∧ _))

variable {x y : Float32}

theorem InUnit.parts_ne_nan (h : InUnit x) : parts x ≠ .nan := by
  intro hnan
  obtain ⟨-, -, i, hi, -⟩ := le_iff.mp h.1
  rw [Option.mem_def, place?, hnan] at hi
  cases hi

/-- Numbers are ordered: one is below the other, or at least as large. -/
theorem le_of_not_lt (hx : parts x ≠ .nan) (hy : parts y ≠ .nan) (h : ¬ y < x) : x ≤ y := by
  obtain ⟨i, hi⟩ := exists_place? hx
  obtain ⟨j, hj⟩ := exists_place? hy
  rw [lt_iff] at h
  apply le_iff.mpr
  refine ⟨i, hi, j, hj, ?_⟩
  by_contra hlt
  exact h ⟨j, hj, i, hi, by omega⟩

theorem inUnit_of_parts {pattern : Nat} (hle : pattern ≤ BinaryFormat.single.ofNat 1)
    (h : parts x = .finite false pattern) : InUnit x := by
  have hzero : place? (ofRatio 0 1) = some 0 := by decide
  have hone : place? (ofRatio 1 1) = some (BinaryFormat.single.ofNat 1 : Int) := by decide
  have hplace : place? x = some (pattern : Int) := by
    rw [place?, h, FloatParts.place?]
    rfl
  constructor
  · exact le_iff.mpr ⟨0, hzero, pattern, hplace, by omega⟩
  · exact le_iff.mpr ⟨pattern, hplace, _, hone, by omega⟩

/-- Forced between zero and one, a number is there. -/
theorem inUnit_clamp (h : parts x ≠ .nan) : InUnit (clamp (ofRatio 0 1) (ofRatio 1 1) x) := by
  by_cases hlt : x < ofRatio 0 1
  · rw [clamp_of_lt hlt]
    decide
  by_cases hgt : ofRatio 1 1 < x
  · rw [clamp_of_gt hlt hgt]
    decide
  · rw [clamp_of_not_lt hlt hgt]
    exact ⟨le_of_not_lt (by decide) h hlt, le_of_not_lt h (by decide) hgt⟩

end Single

/-! ## Channels

Each way in which components arise ends in the range, except for the one number that is none. -/

theorem inUnit_byte : ∀ n : Fin 256, Single.InUnit (channelOfByte n) := by decide +kernel

theorem inUnit_channelOfByte {n : Nat} (h : n ≤ 255) : Single.InUnit (channelOfByte n) :=
  inUnit_byte ⟨n, by omega⟩

namespace Color

/-- A channel that is written as a number is a component between zero and one. -/
theorem inUnit_channelOfNumber {v : Float32} (h : Single.parts v ≠ .nan) :
    Single.InUnit (channelOfNumber v) := by
  by_cases hlt : v < Single.ofRatio 0 1
  · rw [channelOfNumber_of_lt hlt]
    exact inUnit_channelOfByte (by omega)
  by_cases hgt : Single.ofRatio 255 1 < v
  · rw [channelOfNumber_of_gt hlt hgt]
    exact inUnit_channelOfByte (by omega)
  have hlarge : Single.parts (Single.ofRatio 255 1) =
      .finite false (BinaryFormat.single.ofNat 255) := by decide
  have hplace : Single.place? (Single.ofRatio 255 1) =
      some (BinaryFormat.single.ofNat 255 : Int) := by decide
  rcases Single.cases_of_not_lt (by decide) hplace h hlt hgt with rfl | ⟨pattern, hle, hv⟩
  · decide
  · rw [channelOfNumber, Single.clamp_of_not_lt hlt hgt]
    obtain ⟨quotient, hone, hparts⟩ := Single.parts_div hv hlarge hle (by decide)
    exact Single.inUnit_of_parts hone hparts

/-- What is no number makes no component. -/
theorem parts_channelOfNumber_of_nan {v : Float32} (h : Single.parts v = .nan) :
    Single.parts (channelOfNumber v) = .nan := by
  have hself := Single.ofBits_bitsOf v
  rw [h] at hself
  rw [← hself]
  decide

/-- The components of a colour. -/
def components (c : Color) : List Float32 := [c.r, c.g, c.b, c.a]

/-- Colours whose components lie between zero and one. -/
def InRange (c : Color) : Prop := ∀ v ∈ c.components, Single.InUnit v

instance : DecidablePred InRange := fun _ => inferInstanceAs (Decidable (∀ v ∈ _, Single.InUnit v))

/-- Colours whose components lie between zero and one as far as they are numbers. -/
def InRangeOrNan (c : Color) : Prop := ∀ v ∈ c.components, Single.InUnit v ∨ Single.parts v = .nan

theorem InRange.orNan {c : Color} (h : c.InRange) : c.InRangeOrNan := fun v hv => .inl (h v hv)

theorem inRange_iff {c : Color} : c.InRange ↔
    Single.InUnit c.r ∧ Single.InUnit c.g ∧ Single.InUnit c.b ∧ Single.InUnit c.a := by
  simp [InRange, components]

theorem OfBytes.inRange {c : Color} (h : OfBytes c) : c.InRange := by
  obtain ⟨r, g, b, a, hr, hg, hb, ha, rfl⟩ := h
  exact inRange_iff.mpr ⟨inUnit_channelOfByte hr, inUnit_channelOfByte hg, inUnit_channelOfByte hb,
    inUnit_channelOfByte ha⟩

/-- A component that is made from a number by forcing it into bounds. -/
theorem component_cases {f : Float32 → Float32} (hnumber : ∀ v, Single.parts v ≠ .nan → Single.InUnit (f v))
    (hnan : ∀ v, Single.parts v = .nan → Single.parts (f v) = .nan) (v : Float32) :
    (Single.InUnit (f v) ↔ Single.parts v ≠ .nan) ∧
      (Single.InUnit (f v) ∨ Single.parts (f v) = .nan) := by
  by_cases h : Single.parts v = .nan
  · refine ⟨⟨fun hunit => absurd (hnan v h) hunit.parts_ne_nan, fun hne => absurd h hne⟩, ?_⟩
    exact .inr (hnan v h)
  · exact ⟨⟨fun _ => h, fun _ => hnumber v h⟩, .inl (hnumber v h)⟩

/-- The colour of a function is in range exactly if all its arguments are numbers. -/
theorem inRange_ofFunction? {name : List Char} {arguments : List Float32} {c : Color}
    (h : ofFunction? name arguments = some c) :
    c.InRangeOrNan ∧ (c.InRange ↔ ∀ v ∈ arguments, Single.parts v ≠ .nan) := by
  have hchannel := component_cases (f := channelOfNumber) (fun _ => inUnit_channelOfNumber)
    fun _ => parts_channelOfNumber_of_nan
  have halpha := component_cases (f := Single.clamp (Single.ofRatio 0 1) (Single.ofRatio 1 1))
    (fun _ => Single.inUnit_clamp) fun v hv => by rwa [Single.clamp_of_nan hv]
  have hopaque : Single.InUnit (Single.ofRatio 1 1) := by decide
  unfold ofFunction? at h
  split at h
  · next r g b _ =>
    obtain rfl := Option.some.inj h
    constructor
    · simp [InRangeOrNan, components, (hchannel _).2, hopaque]
    · simp [inRange_iff, (hchannel _).1, hopaque]
  · next r g b a _ =>
    obtain rfl := Option.some.inj h
    constructor
    · simp [InRangeOrNan, components, (hchannel _).2, (halpha _).2]
    · simp [inRange_iff, (hchannel _).1, (halpha _).1]
  · cases h

end Color

namespace Color

/-! ## Texts

Where the word for no number stands can be seen in the text, between two commas. Its sign and the case of
its letters do not matter. -/

/-- What stands between the parentheses of a text, cut at the commas. -/
def argumentTexts (text : List Char) : List (List Char) :=
  ((dropClosing? ((text.dropWhile (· ≠ '(')).drop 1)).map fun inner =>
    (piecesAt ',' inner).map trim).getD []

/-- Texts with the word for no number among the arguments. -/
def NamesNan (text : String) : Prop := ∃ piece ∈ argumentTexts (lowered text), Numeral.IsNanWord piece

instance : DecidablePred NamesNan := fun text =>
  inferInstanceAs (Decidable (∃ piece ∈ argumentTexts (lowered text), Numeral.IsNanWord piece))

/-- Pieces that are read one after the other are numbers except where the word for none stands. -/
theorem exists_nan_of_mapM {pieces : List (List Char)} {vs : List Float32}
    (h : pieces.mapM (fun piece => Single.ofNumeral? (trim piece)) = some vs) :
    (∃ v ∈ vs, Single.parts v = .nan) ↔ ∃ piece ∈ pieces.map trim, Numeral.IsNanWord piece := by
  induction pieces generalizing vs with
  | nil =>
    obtain rfl := Option.some.inj h
    simp
  | cons piece pieces ih =>
    rw [List.mapM_cons, Option.bind_eq_bind, Option.bind_eq_some_iff] at h
    obtain ⟨v, hv, hrest⟩ := h
    rw [Option.bind_eq_bind, Option.bind_eq_some_iff] at hrest
    obtain ⟨vs', hvs', hcons⟩ := hrest
    obtain rfl := Option.some.inj hcons
    simp only [List.map_cons, List.exists_mem_cons_iff, ih hvs', Single.parts_eq_nan_iff hv]

/-- Arguments are numbers as long as none of them is the word for none. -/
theorem exists_nan_iff {text : List Char} {arguments : List Float32}
    (h : argumentsOf? text = some arguments) :
    (∃ v ∈ arguments, Single.parts v = .nan) ↔ ∃ piece ∈ argumentTexts text, Numeral.IsNanWord piece := by
  unfold argumentsOf? at h
  unfold argumentTexts
  cases hinner : dropClosing? ((text.dropWhile (· ≠ '(')).drop 1) with
  | none =>
    rw [hinner] at h
    cases h
  | some inner =>
    rw [hinner] at h
    exact exists_nan_of_mapM h

/-- A text without parentheses has no arguments. -/
theorem argumentTexts_of_no_paren {text : List Char} (h : '(' ∉ text) : argumentTexts text = [] := by
  have hdrop : text.dropWhile (· ≠ '(') = [] := by
    rw [List.dropWhile_eq_nil_iff]
    intro c hc
    exact decide_eq_true fun heq => h (heq ▸ hc)
  rw [argumentTexts, hdrop]
  rfl

/-- **A colour that is read is in range.** Whatever text is accepted, in hexadecimal digits, as a name
or as a function, each component lies between zero and one or is no number; and all of them lie there
exactly if the word for no number is not among the arguments. -/
theorem parse_inRange {text : String} {c : Color} (h : parse text = .ok c) :
    c.InRangeOrNan ∧ (c.InRange ↔ ¬ NamesNan text) := by
  unfold NamesNan
  rcases parse_forms h with ⟨hbytes, hplain⟩ | ⟨-, name, arguments, harguments, hfunction⟩
  · rw [argumentTexts_of_no_paren hplain]
    exact ⟨hbytes.inRange.orNan, iff_of_true hbytes.inRange (by simp)⟩
  · obtain ⟨hsound, hiff⟩ := inRange_ofFunction? hfunction
    refine ⟨hsound, ?_⟩
    rw [hiff, ← exists_nan_iff harguments, not_exists]
    simp only [not_and, ne_eq]

end Color

end FieldDiagram
