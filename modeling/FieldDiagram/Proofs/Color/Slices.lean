import Mathlib
import FieldDiagram.Proofs.Color.Hex
/-!
# Slices of a colour's text

The channels of a colour with a number sign are cut out of its text at byte positions, and a single digit
is multiplied in a byte. Cutting a text inside of a character or behind its end would be a fault, and so
would a product that no byte can hold. Here the colour is read with both of them checked, and neither
happens on any text: a text with a character outside ASCII is refused before the first cut, and in any
other every byte is a character.

Main statement: `parse_never_faults`.
-/

namespace FieldDiagram.Color

/-! ## Faults

The reader of colours is written down again here with every cut and every product checked, and a fault as a
third kind of result beside a colour and an error. -/

/-- What would stop a reader, instead of a colour or an error. -/
inductive Fault where
  /-- A text is cut where no character begins, or behind its end. -/
  | position
  /-- A number does not fit into a byte. -/
  | overflow
  deriving DecidableEq

/-- The part of a text between two byte positions, if both are positions of the text. -/
def part? (text : String) (bounds : Nat × Nat) : Option String := do
  let start ← text.pos? ⟨bounds.1⟩
  let stop ← text.pos? ⟨bounds.2⟩
  (text.slice? start stop).map String.Slice.copy

/-- Cuts a part out of a text. -/
def cut (text : String) (bounds : Nat × Nat) : Except Fault String :=
  (part? text bounds).elim (.error .position) .ok

/-- Multiplies in a byte. -/
def timesInByte (m n : Nat) : Except Fault Nat := if m * n < 256 then .ok (m * n) else .error .overflow

/-- What a reader makes of a text without a fault. -/
def said {β : Type} (answer : Option β) : OptionT (Except Fault) β := OptionT.mk (.ok answer)

/-! ## Cutting

Positions are counted in bytes. A cut is right exactly if both positions lie between characters, which is
said with the texts before and behind the part. -/

theorem pos?_eq_some_iff {text : String} {offset : String.Pos.Raw} {p : text.Pos} :
    text.pos? offset = some p ↔ p.offset = offset := by
  constructor
  · intro h
    simp only [String.pos?, String.Slice.pos?, Option.map_eq_some_iff,
      Option.dite_none_right_eq_some] at h
    obtain ⟨q, ⟨hvalid, hq⟩, rfl⟩ := h
    rw [← Option.some.inj hq]
    rfl
  · rintro rfl
    have hvalid : String.Pos.Raw.isValidForSlice text.toSlice p.offset = true :=
      String.Pos.Raw.isValidForSlice_eq_true_iff.2 p.isValid.toSlice
    rw [String.pos?, String.Slice.pos?, dif_pos hvalid]
    rfl

theorem slice?_eq_some_iff {text part : String} {start stop : text.Pos} :
    (text.slice? start stop).map String.Slice.copy = some part ↔
      ∃ before behind, start.Splits before (part ++ behind) ∧ stop.Splits (before ++ part) behind := by
  rw [← String.copy_slice_eq_iff_splits, String.slice?]
  split
  · next h => simp [h]
  · next h => simp [h]

/-- A part of a text is what stands between two others, and its positions count the bytes before it and
those up to its end. -/
theorem part?_eq_some_iff {text part : String} {bounds : Nat × Nat} :
    part? text bounds = some part ↔
      ∃ before behind, text = before ++ part ++ behind ∧ before.utf8ByteSize = bounds.1 ∧
        (before ++ part).utf8ByteSize = bounds.2 := by
  simp only [part?, Option.bind_eq_bind, Option.bind_eq_some_iff, pos?_eq_some_iff,
    slice?_eq_some_iff]
  constructor
  · rintro ⟨start, hstart, stop, hstop, before, behind, hbefore, hbehind⟩
    refine ⟨before, behind, hbehind.eq_append, ?_, ?_⟩
    · exact congrArg String.Pos.Raw.byteIdx (hbefore.offset_eq_rawEndPos.symm.trans hstart)
    · exact congrArg String.Pos.Raw.byteIdx (hbehind.offset_eq_rawEndPos.symm.trans hstop)
  · rintro ⟨before, behind, htext, hstart, hstop⟩
    have hbefore := String.Pos.splits_ofEqAppend (htext.trans (String.append_assoc ..))
    have hbehind := String.Pos.splits_ofEqAppend htext
    refine ⟨_, ?_, _, ?_, before, behind, hbefore, hbehind⟩
    · rw [hbefore.offset_eq_rawEndPos, ← hstart]
      rfl
    · rw [hbehind.offset_eq_rawEndPos, ← hstop]
      rfl

/-- Both ends of a part are ends of characters. -/
theorem isValid_of_cut {text part : String} {bounds : Nat × Nat} (h : cut text bounds = .ok part) :
    String.Pos.Raw.IsValid text ⟨bounds.1⟩ ∧ String.Pos.Raw.IsValid text ⟨bounds.2⟩ := by
  rw [cut] at h
  cases hpart : part? text bounds with
  | none =>
    rw [hpart] at h
    cases h
  | some _ =>
    simp only [part?, Option.bind_eq_bind, Option.bind_eq_some_iff, pos?_eq_some_iff] at hpart
    obtain ⟨start, hstart, stop, hstop, -⟩ := hpart
    rw [← hstart, ← hstop]
    exact ⟨start.isValid, stop.isValid⟩

/-- Half of a character is no part of a text. -/
example : cut "é0" (0, 1) = .error .position := by decide

/-! ## Texts in ASCII

Where each character is one byte, no position is inside of one. -/

/-- In ASCII every character is a byte. -/
theorem utf8ByteSize_of_ascii {text : List Char} (hascii : ∀ c ∈ text, c.toNat < 128) :
    (String.ofList text).utf8ByteSize = text.length := by
  rw [String.utf8ByteSize_ofList]
  induction text with
  | nil => rfl
  | cons c text ih =>
    have hone : c.utf8Size = 1 := by
      have hc := hascii c List.mem_cons_self
      rw [Char.utf8Size_eq_one_iff, UInt32.le_iff_toNat_le]
      exact Nat.le_of_lt_succ hc
    rw [String.utf8Len_cons, ih fun d hd => hascii d (List.mem_cons_of_mem c hd), hone,
      List.length_cons]

/-- So positions of characters are positions of bytes there. -/
theorem cut_of_ascii {text : List Char} (hascii : ∀ c ∈ text, c.toNat < 128) {bounds : Nat × Nat}
    (horder : bounds.1 ≤ bounds.2) (hend : bounds.2 ≤ text.length) :
    cut (String.ofList text) bounds = .ok (String.ofList (slice text bounds)) := by
  -- the parts of the text are in ASCII too, so all of them have as many bytes as characters
  have hsize : ∀ ds : List Char, ds ⊆ text → (String.ofList ds).utf8ByteSize = ds.length :=
    fun ds hds => utf8ByteSize_of_ascii fun c hc => hascii c (hds hc)
  have htake : text.take bounds.1 ++ slice text bounds = text.take bounds.2 := by
    rw [slice, ← List.take_add, Nat.add_sub_cancel' horder]
  have hpart : part? (String.ofList text) bounds = some (String.ofList (slice text bounds)) := by
    refine part?_eq_some_iff.2
      ⟨String.ofList (text.take bounds.1), String.ofList (text.drop bounds.2), ?_, ?_, ?_⟩
    · rw [← String.ofList_append, ← String.ofList_append, htake, List.take_append_drop]
    · rw [hsize _ (List.take_subset _ _), List.length_take_of_le (Nat.le_trans horder hend)]
    · rw [← String.ofList_append, htake, hsize _ (List.take_subset _ _), List.length_take_of_le hend]
  rw [cut, hpart, Option.elim_some]

/-! ## Digits

A single digit is multiplied by seventeen to fill a byte. As it stands for at most fifteen, that is the
largest byte and no more. -/

/-- A single digit stands for less than sixteen. -/
theorem hexField?_singleton_lt {c : Char} {n : Nat} (h : hexField? [c] = some n) : n < 16 := by
  rw [hexField?_singleton] at h
  obtain ⟨-, hvalue⟩ := Option.ite_none_right_eq_some.1 h
  rw [← Option.some.inj hvalue]
  exact hexDigitValue_lt c

/-- Two characters stand for a byte. -/
theorem hexField?_lt {ds : List Char} (hlength : ds.length ≤ 2) {n : Nat} (h : hexField? ds = some n) :
    n < 256 := by
  match ds with
  | [] => cases h
  | [c] =>
    have hn := hexField?_singleton_lt h
    omega
  | [c, d] =>
    rw [hexField?_pair] at h
    obtain ⟨-, hvalue⟩ := Option.ite_none_right_eq_some.1 h
    have hc := hexDigitValue_lt c
    have hd := hexDigitValue_lt d
    rw [← Option.some.inj hvalue]
    omega

/-! ## Reading with checks

The same steps in the same order as in the reader without checks: first the question whether all of the text
is in ASCII, and then the channels, left to right. -/

/-- The byte of hexadecimal digits; what does not fit into one is no number. -/
def hexByte? (digits : List Char) : Option Nat := (hexField? digits).filter (· < 256)

/-- The byte of one channel, cut out at byte positions. -/
def hexChannelChecked (text : String) (bounds : Nat × Nat) : OptionT (Except Fault) Nat := do
  let digits ← cut text bounds
  let n ← said (hexByte? digits.toList)
  if bounds.2 - bounds.1 = 1 then timesInByte n 17 else return n

/-- The colour of the digits after `#`. The number of bytes tells where the channels are. -/
def ofHexDigitsChecked (text : String) : OptionT (Except Fault) Color :=
  if text.toList.all (·.toNat < 128) then do
    let slices ← said (hexSlices? text.utf8ByteSize)
    let bytes ← slices.mapM (hexChannelChecked text)
    said <| match bytes with
      | [r, g, b] => some (opaqueOfBytes r g b)
      | [r, g, b, a] => some (ofBytes r g b (channelOfByte a))
      | _ => none
  else said none

/-- Reads a colour. Only the digits after `#` are cut and multiplied. -/
def parseChecked (text : String) : Except Fault (Except ParseError Color) :=
  match (trim text.toList).map Char.toLower with
  | '#' :: hex =>
    (ofHexDigitsChecked (String.ofList hex)).run.map fun color? =>
      color?.elim (.error (.invalidHex ('#' :: hex))) .ok
  | plain => .ok (ofPlainText plain)

/-! ## No fault

Each checked step gives what the step without checks gives, so the two readers agree on every text. -/

theorem said_bind {β γ : Type} (answer : Option β) (f : β → OptionT (Except Fault) γ) :
    said answer >>= f = answer.elim (said none) f := by
  cases answer <;> rfl

theorem liftM_ok {β : Type} (x : β) :
    (liftM (.ok x : Except Fault β) : OptionT (Except Fault) β) = said (some x) := rfl

/-- The channels lie one after the other in the text, of one or two bytes each. -/
theorem bounds_of_hexSlices? {n : Nat} {slices : List (Nat × Nat)} (h : hexSlices? n = some slices) :
    ∀ b ∈ slices, b.1 < b.2 ∧ b.2 ≤ n ∧ b.2 - b.1 ≤ 2 := by
  unfold hexSlices? at h
  split at h
  · obtain rfl := Option.some.inj h
    decide
  · obtain rfl := Option.some.inj h
    decide
  · obtain rfl := Option.some.inj h
    decide
  · obtain rfl := Option.some.inj h
    decide
  · cases h

theorem mapM_eq_said {β γ : Type} {f : β → OptionT (Except Fault) γ} {g : β → Option γ} {xs : List β}
    (h : ∀ x ∈ xs, f x = said (g x)) : xs.mapM f = said (xs.mapM g) := by
  induction xs with
  | nil => rfl
  | cons x xs ih =>
    rw [List.mapM_cons, List.mapM_cons, h x List.mem_cons_self,
      ih fun y hy => h y (List.mem_cons_of_mem x hy), said_bind]
    cases g x with
    | none => rfl
    | some y =>
      rw [Option.elim_some, said_bind]
      cases xs.mapM g <;> rfl

/-- One or two bytes of a text in ASCII are the channel that the characters at these places are. -/
theorem hexChannelChecked_eq {hex : List Char} (hascii : ∀ c ∈ hex, c.toNat < 128) {b : Nat × Nat}
    (horder : b.1 < b.2) (hend : b.2 ≤ hex.length) (htwo : b.2 - b.1 ≤ 2) :
    hexChannelChecked (String.ofList hex) b = said (hexChannel? hex b) := by
  have hlength : (slice hex b).length = b.2 - b.1 := by
    rw [slice, List.length_take, List.length_drop]
    omega
  rw [hexChannelChecked, cut_of_ascii hascii horder.le hend, liftM_ok, said_bind, Option.elim_some,
    String.toList_ofList, said_bind, hexChannel?, hexByte?]
  cases hfield : hexField? (slice hex b) with
  | none => rfl
  | some n =>
    have hbyte : n < 256 := hexField?_lt (hlength.le.trans htwo) hfield
    rw [Option.filter_some, if_pos (decide_eq_true hbyte), Option.map_some, Option.elim_some]
    by_cases hone : b.2 - b.1 = 1
    · -- only a single digit is multiplied, and that stands for less than sixteen
      obtain ⟨c, hc⟩ := List.length_eq_one_iff.1 (hlength.trans hone)
      rw [hc] at hfield
      have hdigit := hexField?_singleton_lt hfield
      have hproduct : timesInByte n 17 = .ok (n * 17) := if_pos (by omega)
      rw [if_pos hone, if_pos hone, hproduct, liftM_ok]
    · rw [if_neg hone, if_neg hone]
      rfl

/-- Checked or not, the digits give the same colour. -/
theorem ofHexDigitsChecked_eq (hex : List Char) :
    ofHexDigitsChecked (String.ofList hex) = said (ofHexDigits? hex) := by
  rw [ofHexDigitsChecked, ofHexDigits?, String.toList_ofList]
  split
  · next hall =>
    have hascii : ∀ c ∈ hex, c.toNat < 128 := by simpa using hall
    rw [utf8ByteSize_of_ascii hascii, said_bind]
    cases hslices : hexSlices? hex.length with
    | none => rfl
    | some slices =>
      have hchannels : slices.mapM (hexChannelChecked (String.ofList hex)) =
          said (slices.mapM (hexChannel? hex)) := by
        refine mapM_eq_said fun b hb => ?_
        obtain ⟨horder, hend, htwo⟩ := bounds_of_hexSlices? hslices b hb
        exact hexChannelChecked_eq hascii horder hend htwo
      rw [Option.elim_some, hchannels, said_bind, Option.bind_eq_bind, Option.bind_some]
      cases slices.mapM (hexChannel? hex) <;> rfl
  · rfl

/-- **No text of a colour leads to a fault.** Read with every cut and every product checked, each text is
the colour or the error that it is without checks. That is because the channels of a text in ASCII are cut
at positions within its bytes at which characters begin or the text ends, so that a channel consists of the
characters at these positions, and because seventeen times what a single character stands for is a byte. A
text with other characters after `#` is refused before it is cut. -/
theorem parse_never_faults :
    (∀ text : String, parseChecked text = .ok (parse text)) ∧
    (∀ hex : List Char, (∀ c ∈ hex, c.toNat < 128) →
      let text := String.ofList hex
      ∀ slices ∈ hexSlices? text.utf8ByteSize, ∀ b ∈ slices,
        (b.1 < b.2 ∧ b.2 ≤ text.utf8ByteSize) ∧
        (String.Pos.Raw.IsValid text ⟨b.1⟩ ∧ String.Pos.Raw.IsValid text ⟨b.2⟩) ∧
        cut text b = .ok (String.ofList (slice hex b))) ∧
    (∀ (c : Char) (n : Nat), hexField? [c] = some n → timesInByte n 17 = .ok (n * 17)) ∧
    ∀ text : String, (∃ c ∈ text.toList, 128 ≤ c.toNat) → ofHexDigitsChecked text = said none := by
  refine ⟨?_, ?_, ?_, ?_⟩
  · intro text
    rw [parseChecked, parse]
    split
    · next hex hsmall =>
      rw [hsmall, ofHexDigitsChecked_eq]
      rfl
    · rfl
  · intro hex hascii text slices hslices b hb
    obtain ⟨horder, hend, -⟩ := bounds_of_hexSlices? hslices b hb
    have hcut : cut text b = .ok (String.ofList (slice hex b)) :=
      cut_of_ascii hascii horder.le (hend.trans (utf8ByteSize_of_ascii hascii).le)
    exact ⟨⟨horder, hend⟩, isValid_of_cut hcut, hcut⟩
  · intro c n hfield
    have hdigit := hexField?_singleton_lt hfield
    exact if_pos (by omega)
  · intro text hother
    rw [ofHexDigitsChecked, if_neg]
    simpa using hother

/-- Three bytes that are two characters, and the last of four channels. -/
theorem parse_never_faults_on_umlaut :
    parseChecked " #Ü0" = .ok (.error (.invalidHex "#Ü0".toList)) ∧
      ofHexDigitsChecked "Ü0" = said none ∧
      (String.Pos.Raw.IsValid "fade" ⟨3⟩ ∧ String.Pos.Raw.IsValid "fade" ⟨4⟩) ∧
      cut "fade" (3, 4) = .ok "e" ∧ timesInByte 14 17 = .ok 238 := by
  obtain ⟨hparse, hslices, hdigit, hother⟩ := parse_never_faults
  obtain ⟨-, hvalid, hcut⟩ :=
    hslices "fade".toList (by simp) [(0, 1), (1, 2), (2, 3), (3, 4)] (by decide) (3, 4) (by decide)
  exact ⟨hparse " #Ü0", hother "Ü0" ⟨'Ü', by decide, by decide⟩, hvalid, hcut, hdigit 'e' 14 (by decide)⟩

end FieldDiagram.Color
