import FieldDiagram.Proofs.Decimal.Whole
/-!
# What numerals are read as

A numeral in a text for people is read as a number, as infinity at worst, unless it is the word for no
number. That word is the only numeral that is read as no number, in either precision.

Main statements: `Single.parts_eq_nan_iff`, `Double.parts_eq_nan_iff`.
-/

namespace FieldDiagram

namespace Numeral

/-- The word for no number, in letters of any case, with a sign or without. -/
def IsNanWord (text : List Char) : Prop :=
  (splitSign text).2.map Char.toLower = ['n', 'a', 'n']

instance : DecidablePred IsNanWord := fun _ => inferInstanceAs (Decidable (_ = _))

/-- The bits of the word for no number are those of none, and all other numerals have the bits of a sign
and a pattern that is not beyond infinity. -/
theorem bits?_cases {f : BinaryFormat} {text : List Char} {bits : Nat} (h : bits? f text = some bits) :
    ∃ negative,
      (IsNanWord text ∧ bits = f.withSign negative (f.infinity + f.binade / 2)) ∨
        (¬ IsNanWord text ∧ ∃ pattern ≤ f.infinity, bits = f.withSign negative pattern) := by
  unfold bits? at h
  unfold IsNanWord
  generalize splitSign text = signed at h ⊢
  obtain ⟨negative, unsigned⟩ := signed
  dsimp only at h ⊢
  have hword : ∀ word : List Char, String.ofList (unsigned.map Char.toLower) = String.ofList word ↔
      unsigned.map Char.toLower = word := fun word => String.ofList_inj
  refine ⟨negative, ?_⟩
  -- the words for infinity are tried first, then the word for no number, then the digits
  split at h
  · next hinfinite =>
    obtain rfl := Option.some.inj h
    have hno : unsigned.map Char.toLower ≠ ['n', 'a', 'n'] := by
      rcases hinfinite with hshort | hlong
      · rw [(hword ['i', 'n', 'f']).mp hshort]
        decide
      · rw [(hword ['i', 'n', 'f', 'i', 'n', 'i', 't', 'y']).mp hlong]
        decide
    exact Or.inr ⟨hno, f.infinity, Nat.le_refl _, rfl⟩
  · split at h
    · next hnan =>
      obtain rfl := Option.some.inj h
      exact Or.inl ⟨(hword ['n', 'a', 'n']).mp hnan, rfl⟩
    · next hnan =>
      obtain ⟨d, -, rfl⟩ := Option.map_eq_some_iff.mp h
      refine Or.inr ⟨fun heq => hnan ((hword ['n', 'a', 'n']).mpr heq), ?_⟩
      exact ⟨f.ofDecimal d, f.ofDecimal_le_infinity d, rfl⟩

end Numeral

/-- A pattern up to infinity is that of a number. -/
theorem BinaryFormat.parts_withSign_ne_nan (f : BinaryFormat) (negative : Bool) {pattern : Nat}
    (h : pattern ≤ f.infinity) : f.parts (f.withSign negative pattern) ≠ .nan := by
  by_cases hlt : pattern < f.infinity
  · rw [f.parts_withSign negative hlt]
    exact FloatParts.noConfusion
  · obtain rfl : pattern = f.infinity := by omega
    rw [f.parts_withSign_infinity]
    exact FloatParts.noConfusion

/-- Only the word for no number is read as no number. -/
theorem Single.parts_eq_nan_iff {text : List Char} {v : Float32} (h : Single.ofNumeral? text = some v) :
    Single.parts v = .nan ↔ Numeral.IsNanWord text := by
  obtain ⟨bits, hbits, rfl⟩ := Option.map_eq_some_iff.mp h
  obtain ⟨negative, ⟨hword, rfl⟩ | ⟨hword, pattern, hle, rfl⟩⟩ := Numeral.bits?_cases hbits
  · refine iff_of_true ?_ hword
    cases negative <;> decide
  · refine iff_of_false ?_ hword
    rw [Single.parts_ofBits negative hle]
    exact BinaryFormat.single.parts_withSign_ne_nan negative hle

theorem Double.parts_eq_nan_iff {text : List Char} {v : Float} (h : Double.ofNumeral? text = some v) :
    Double.parts v = .nan ↔ Numeral.IsNanWord text := by
  obtain ⟨bits, hbits, rfl⟩ := Option.map_eq_some_iff.mp h
  obtain ⟨negative, ⟨hword, rfl⟩ | ⟨hword, pattern, hle, rfl⟩⟩ := Numeral.bits?_cases hbits
  · refine iff_of_true ?_ hword
    cases negative <;> decide
  · refine iff_of_false ?_ hword
    rw [← ofPattern, parts, toBits_ofPattern negative hle]
    exact BinaryFormat.double.parts_withSign_ne_nan negative hle

end FieldDiagram
