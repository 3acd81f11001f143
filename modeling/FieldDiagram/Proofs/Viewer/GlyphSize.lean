import FieldDiagram.Proofs.Decimal.Nearest
import FieldDiagram.Proofs.Decimal.Reading
import FieldDiagram.Proofs.Viewer.Steady
/-!
# The size of glyphs

A font is any text, and the size of its glyphs comes from its first word that is a numeral with the unit
of pixels, whatever numeral that is. Rounding and bounds make a size that can be drawn out of every
number, also out of infinity. The word for no number gets past both, and then the size is zero.

Main statements: `glyphSize_hasSize`, `nan_has_no_size`.
-/

namespace FieldDiagram

open Scalar (zero one)

/-! ## Values

Rounding works on patterns, and the statement about sizes is one about values. -/

/-- Rounding a pattern is rounding its value. -/
theorem BinaryFormat.round_eq (f : BinaryFormat) (pattern : Nat) :
    (f.round pattern : ℤ) = Int.floor (f.value pattern + 1 / 2) := by
  have hone : (f.one : ℚ) ≠ 0 := Nat.cast_ne_zero.2 f.one_pos.ne'
  have hsum : f.value pattern + 1 / 2 =
      ((2 * f.magnitude pattern + f.one : ℕ) : ℚ) / ((2 * f.one : ℕ) : ℚ) := by
    rw [value]
    push_cast
    field_simp
  rw [hsum, Rat.floor_natCast_div_natCast, round, roundHalfUp]
  norm_cast

/-- A finite number is rounded to the nearest whole number and forced into bounds. Below the bounds it
makes no difference which way a half goes. -/
theorem Double.roundWithin_of_value? {lower : Int} (hlower : 1 ≤ lower) (upper : Int) {x : Float}
    {q : ℚ} (h : value? x = some q) :
    roundWithin BinaryFormat.double.round lower upper x = max lower (min upper (round q)) := by
  rw [round_eq]
  rw [value?] at h
  rw [roundWithin]
  cases hparts : parts x with
  | nan =>
    rw [hparts] at h
    exact absurd h (Option.some_ne_none q).symm
  | infinite negative =>
    rw [hparts] at h
    exact absurd h (Option.some_ne_none q).symm
  | finite negative pattern =>
    rw [hparts] at h
    obtain rfl := Option.some.inj h
    have hround := BinaryFormat.double.round_eq pattern
    have hvalue := BinaryFormat.double.value_nonneg pattern
    dsimp only
    unfold clampInt
    by_cases hnegative : negative = true
    · -- what is not above zero is below the bounds, rounded in whatever way
      rw [if_pos hnegative, if_pos hnegative]
      have hfloor : Int.floor (-BinaryFormat.double.value pattern + 1 / 2) ≤ 0 := by
        apply Int.le_of_lt_add_one
        rw [Int.floor_lt]
        push_cast
        linarith
      omega
    · rw [if_neg hnegative, if_neg hnegative, hround]

/-! ## Words that are sizes

Which word of a font decides is told by words alone: the first that is a numeral with the unit behind it. -/

/-- A word such as `14px` with a value: a numeral with the unit of pixels. -/
def IsSize (word : List Char) (v : Float) : Prop :=
  ∃ number, word = number ++ ['p', 'x'] ∧ Double.ofNumeral? number = some v

theorem wordSize?_eq_some_iff {word : List Char} {v : Float} :
    wordSize? word = some v ↔ IsSize word v := by
  constructor
  · intro h
    unfold wordSize? at h
    split at h
    · next rest hrest =>
      refine ⟨rest.reverse, ?_, h⟩
      rw [← List.reverse_reverse word, hrest]
      simp
    · exact absurd h (Option.some_ne_none v).symm
  · rintro ⟨number, rfl, hnumber⟩
    rw [wordSize?, List.reverse_append]
    simpa using hnumber

theorem wordSize?_eq_none_iff {word : List Char} :
    wordSize? word = none ↔ ∀ v, ¬ IsSize word v := by
  rw [Option.eq_none_iff_forall_ne_some]
  exact forall_congr' fun v => not_congr wordSize?_eq_some_iff

/-- The first word of a font that is a size, by its numeral and its value. -/
def FirstSize (font : String) (number : List Char) (v : Float) : Prop :=
  ∃ before after, words font.toList = before ++ (number ++ ['p', 'x']) :: after ∧
    Double.ofNumeral? number = some v ∧ ∀ word ∈ before, ∀ u, ¬ IsSize word u

theorem findSome?_wordSize?_iff {font : String} {v : Float} :
    (words font.toList).findSome? wordSize? = some v ↔ ∃ number, FirstSize font number v := by
  rw [List.findSome?_eq_some_iff]
  constructor
  · rintro ⟨before, word, after, hwords, hword, hbefore⟩
    obtain ⟨number, rfl, hnumber⟩ := wordSize?_eq_some_iff.1 hword
    refine ⟨number, before, after, hwords, hnumber, ?_⟩
    intro w hw
    exact wordSize?_eq_none_iff.1 (hbefore w hw)
  · rintro ⟨number, before, after, hwords, hnumber, hbefore⟩
    refine ⟨before, _, after, hwords, wordSize?_eq_some_iff.2 ⟨number, rfl, hnumber⟩, ?_⟩
    intro w hw
    exact wordSize?_eq_none_iff.2 (hbefore w hw)

/-- Where some word is a size, one of them is the first. -/
theorem exists_firstSize {font : String} {word : List Char} {v : Float}
    (hword : word ∈ words font.toList) (h : IsSize word v) : ∃ number u, FirstSize font number u := by
  rcases hfound : (words font.toList).findSome? wordSize? with _ | u
  · rw [List.findSome?_eq_none_iff] at hfound
    exact absurd h (wordSize?_eq_none_iff.1 (hfound word hword) v)
  · obtain ⟨number, hfirst⟩ := findSome?_wordSize?_iff.1 hfound
    exact ⟨number, u, hfirst⟩

theorem glyphSize_of_first {font : String} {number : List Char} {v : Float}
    (h : FirstSize font number v) :
    glyphSize font =
      (Double.roundWithin BinaryFormat.double.round glyphBounds.1 glyphBounds.2 v).toNat := by
  rw [glyphSize, findSome?_wordSize?_iff.2 ⟨number, h⟩]

/-! ## Sizes

The cases of a font: no word that is a size, a finite value, infinity, and the word for no number. The last
one is not forced into the bounds but passes them, and becomes zero where a whole number is made of it. -/

/-- The size of glyphs that a font stands for. -/
structure HasSize (font : String) (size : Nat) : Prop where
  without : (∀ word ∈ words font.toList, ∀ v, ¬ IsSize word v) → size = 10
  finite : ∀ number v q, FirstSize font number v → Double.value? v = some q →
    (size : ℤ) = max 1 (min 512 (round q))
  infinite : ∀ number v negative, FirstSize font number v → Double.parts v = .infinite negative →
    size = if negative then 1 else 512
  nan : ∀ number v, FirstSize font number v → Numeral.IsNanWord number → size = 0
  /-- The size can be drawn except behind the word for no number. -/
  drawable : (1 ≤ size ∧ size ≤ 512) ↔ ¬ ∃ number v, FirstSize font number v ∧ Numeral.IsNanWord number

section Font

variable {font : String} {number : List Char} {v : Float}

theorem glyphSize_without (h : ∀ word ∈ words font.toList, ∀ v, ¬ IsSize word v) :
    glyphSize font = 10 := by
  have hnone : (words font.toList).findSome? wordSize? = none := by
    rw [List.findSome?_eq_none_iff]
    intro word hword
    exact wordSize?_eq_none_iff.2 (h word hword)
  rw [glyphSize, hnone]

theorem FirstSize.parts_eq_nan_iff (h : FirstSize font number v) :
    Double.parts v = .nan ↔ Numeral.IsNanWord number := by
  obtain ⟨-, -, -, hnumber, -⟩ := h
  exact Double.parts_eq_nan_iff hnumber

/-- What is no number passes both rounding and bounds. -/
theorem glyphSize_of_nan (h : FirstSize font number v) (hword : Numeral.IsNanWord number) :
    glyphSize font = 0 := by
  rw [glyphSize_of_first h, Double.roundWithin, h.parts_eq_nan_iff.2 hword]
  rfl

theorem glyphSize_mem (h : FirstSize font number v) (hword : ¬ Numeral.IsNanWord number) :
    1 ≤ glyphSize font ∧ glyphSize font ≤ 512 := by
  have hmem := Double.roundWithin_mem BinaryFormat.double.round
    (by decide : glyphBounds.1 ≤ glyphBounds.2) (mt h.parts_eq_nan_iff.1 hword)
  rw [glyphSize_of_first h]
  unfold glyphBounds at hmem ⊢
  omega

end Font

theorem glyphSize_drawable_iff (font : String) :
    (1 ≤ glyphSize font ∧ glyphSize font ≤ 512) ↔
      ¬ ∃ number v, FirstSize font number v ∧ Numeral.IsNanWord number := by
  constructor
  · rintro ⟨hpos, -⟩ ⟨number, v, hfirst, hword⟩
    rw [glyphSize_of_nan hfirst hword] at hpos
    omega
  · intro hno
    by_cases hsome : ∃ number v, FirstSize font number v
    · obtain ⟨number, v, hfirst⟩ := hsome
      apply glyphSize_mem hfirst
      intro hword
      exact hno ⟨number, v, hfirst, hword⟩
    · have hten : glyphSize font = 10 := by
        apply glyphSize_without
        intro word hword v hsize
        obtain ⟨number, u, hfirst⟩ := exists_firstSize hword hsize
        exact hsome ⟨number, u, hfirst⟩
      omega

/-! ## Texts in a window

Fonts come into a window through commands that draw texts, each with the size of its font. -/

/-- The font of a command that draws a text. -/
def DrawCommand.font? {α ι : Type} : DrawCommand α ι → Option String
  | text _ _ _ font _ _ _ => some font
  | _ => none

/-- A window is asked for a text by a command that draws one, in the size that its font stands for. -/
theorem DrawCommand.size_of_mem_windowCalls {ι : Type} {d : DrawCommand Float ι} {content : String}
    {point : Point Float32} {size : Nat} {rotation : Float32} {color : Color}
    (h : WindowCall.text content point size rotation color ∈ d.windowCalls) :
    ∃ font, d.font? = some font ∧ size = glyphSize font := by
  unfold windowCalls at h
  split at h
  · exact absurd h List.not_mem_nil
  · cases List.mem_singleton.1 h
  · obtain ⟨s, -, hs⟩ := List.mem_flatMap.1 h
    obtain ⟨p, q, r, heq⟩ := Subpath.exists_of_mem_triangles hs
    cases heq
  · obtain ⟨s, -, hs⟩ := List.mem_flatMap.1 h
    obtain ⟨p, q, heq⟩ := Subpath.exists_of_mem_lines hs
    cases heq
  · next font _ _ _ =>
    injection List.mem_singleton.1 h with hcontent hpoint hsize
    exact ⟨font, rfl, hsize⟩
  · cases List.mem_singleton.1 h

/-- **The size of glyphs.** The first word of a font that is a numeral with the unit of pixels decides:
its value is rounded to the nearest whole number and forced between one and five hundred and twelve,
infinity too, and without such a word the size is ten. So a size can be drawn, unless the numeral is the
word for no number: then it is zero. A window is asked for texts in these sizes only, and the font that an
operation sets for its text is the one that counts. -/
theorem glyphSize_hasSize {ι : Type} :
    (∀ font, HasSize font (glyphSize font)) ∧
    (∀ (d : DrawCommand Float ι) content point size rotation color,
      WindowCall.text content point size rotation color ∈ d.windowCalls →
        ∃ font, d.font? = some font ∧ size = glyphSize font) ∧
    ∀ (p : Paint Float) steps content point font angle outlined, ∃ d : DrawCommand Float ι,
      p.draw? steps (.text content point (some font) angle outlined) = some d ∧
        d.font? = some font := by
  refine ⟨?_, ?_, ?_⟩
  · intro font
    refine ⟨glyphSize_without, ?_, ?_, ?_, glyphSize_drawable_iff font⟩
    · intro number v q hfirst hq
      have hround := Double.roundWithin_of_value? (by decide : 1 ≤ glyphBounds.1) glyphBounds.2 hq
      rw [glyphSize_of_first hfirst, hround, glyphBounds]
      omega
    · intro number v negative hfirst hparts
      rw [glyphSize_of_first hfirst, Double.roundWithin, hparts, glyphBounds]
      cases negative <;> rfl
    · intro number v hfirst hword
      exact glyphSize_of_nan hfirst hword
  · intro d content point size rotation color hcall
    exact DrawCommand.size_of_mem_windowCalls hcall
  · intro p steps content point font angle outlined
    exact ⟨_, rfl, rfl⟩

/-- Infinity is drawn in the largest size, and no later word counts. -/
theorem glyphSize_of_infinity : glyphSize "bold infpx 14px" = 512 := by
  obtain ⟨hsizes, -⟩ := glyphSize_hasSize (ι := String)
  have hfirst : FirstSize "bold infpx 14px" ['i', 'n', 'f']
      (Double.ofPattern false BinaryFormat.double.infinity) := by
    refine ⟨["bold".toList], ["14px".toList], by decide, rfl, ?_⟩
    intro word hword u
    rw [List.mem_singleton.1 hword]
    exact wordSize?_eq_none_iff.1 rfl u
  exact (hsizes _).infinite _ _ false hfirst (by decide)

/-- The word for no number makes a text of size zero, also in an overlay. -/
theorem nan_has_no_size :
    let op : Op Float := .text "A" .zero (some "nanpx") zero false
    ∃ d : DrawCommand Float String, (Paint.standard : Paint Float).draw? 1 op = some d ∧
      ∃ content point size rotation color,
        WindowCall.text content point size rotation color ∈ d.windowCalls ∧
          ¬ (1 ≤ size ∧ size ≤ 512) := by
  have hsize : glyphSize "nanpx" = 0 := by decide +kernel
  refine ⟨_, rfl, _, _, _, _, _, List.mem_singleton_self _, ?_⟩
  rw [Option.getD_some, hsize]
  omega

end FieldDiagram
