import FieldDiagram.Decimal.Digits
import FieldDiagram.Text.Hex
/-!
# The tokens of a JSON text

A text is cut into tokens up to its end or up to the first place where no token can stand. Numbers and
strings are kept as written: whether a number is in range and whether escaped surrogates pair up is
asked only by a reader that wants the value.
-/

namespace FieldDiagram.Json

/-- Why a text is not JSON: it is wrong somewhere, or it ends too early. -/
inductive Fault where
  | malformed
  | truncated
  deriving DecidableEq, Repr

/-- The fault of a text that goes on with `rest` where something else must stand. -/
def Fault.before {τ : Type} (rest : List τ) : Fault :=
  if rest.isEmpty then .truncated else .malformed

/-- What stands in place of a token: nothing, a word or a number that the end of the text cuts off, or
something that no token starts with. -/
inductive Defect where
  | nothing
  | cutWord
  | cutNumber
  | wrong
  deriving DecidableEq, Repr

namespace Defect

/-- What stands before `rest` where something else must. -/
def before {τ : Type} (rest : List τ) : Defect := if rest.isEmpty then .nothing else .wrong

/-- The fault for a reader that wants the value: all that it could still complete is too short. -/
def whenWanted : Defect → Fault
  | wrong => .malformed
  | _ => .truncated

/-- The fault for a reader that skips the value: it takes a number for wrong as soon as a digit is
missing. -/
def whenSkipped : Defect → Fault
  | wrong => .malformed
  | cutNumber => .malformed
  | _ => .truncated

/-- The fault for a reader that wants a string or an object: no word and no number will do. -/
def whenVariant : Defect → Fault
  | nothing => .truncated
  | _ => .malformed

end Defect

/-- A number as written. The fraction is empty where there is no point. -/
structure NumberToken where
  negative : Bool
  whole : List Char
  fraction : List Char
  exponent : Option Int
  deriving DecidableEq, Repr

/-- A character of a string, or a surrogate written as an escape. -/
inductive StringUnit where
  | char (c : Char)
  | surrogate (code : Nat)
  deriving DecidableEq, Repr

/-- A string up to its closing quote, or up to the fault that stands in its place. -/
structure StringToken where
  units : List StringUnit
  fault : Option Fault
  deriving DecidableEq, Repr

/-- A token, or what stands where none can be read. -/
inductive Token where
  | openArray
  | closeArray
  | openObject
  | closeObject
  | comma
  | colon
  | null
  | boolean (b : Bool)
  | number (n : NumberToken)
  | string (s : StringToken)
  | defect (d : Defect)
  deriving DecidableEq, Repr

/-! ## Strings -/

/-- The number of bytes of a text. -/
def byteCount (text : List Char) : Nat := text.foldl (fun n c => n + c.utf8Size) 0

/-- The unit that four hexadecimal digits stand for. -/
def StringUnit.ofCode (code : Nat) : StringUnit :=
  if 0xD800 ≤ code ∧ code < 0xE000 then .surrogate code else .char (Char.ofNat code)

/-- The character of an escape of one letter. -/
def escaped? : Char → Option Char
  | '"' => some '"'
  | '\\' => some '\\'
  | '/' => some '/'
  | 'b' => some '\x08'
  | 'f' => some '\x0c'
  | 'n' => some '\n'
  | 'r' => some '\r'
  | 't' => some '\t'
  | _ => none

/-- The unit of an escape, from the character after the backslash on, and what follows it. An escape
with a number takes the next four bytes for its digits. -/
def scanEscape : List Char → Except Fault (StringUnit × List Char)
  | [] => .error .truncated
  | 'u' :: rest =>
    match rest with
    | a :: b :: c :: d :: rest =>
      match hexNumber? [a, b, c, d] with
      | some code => .ok (.ofCode code, rest)
      | none => .error .malformed
    | few => .error (if byteCount few < 4 then .truncated else .malformed)
  | c :: rest =>
    match escaped? c with
    | some c => .ok (.char c, rest)
    | none => .error .malformed

/-- An escape is at least one character long. -/
theorem length_scanEscape {text rest : List Char} {u : StringUnit}
    (h : scanEscape text = .ok (u, rest)) : rest.length < text.length := by
  unfold scanEscape at h
  split at h
  · simp at h
  · split at h
    · split at h <;> simp at h
      rw [← h.2]
      simp only [List.length_cons]
      omega
    · simp at h
  · split at h <;> simp at h
    rw [← h.2]
    simp

/-- Reads a string after its opening quote. -/
def scanString (text : List Char) : StringToken × List Char :=
  match text with
  | [] => (⟨[], some .truncated⟩, [])
  | '"' :: rest => (⟨[], none⟩, rest)
  | '\\' :: escape =>
    match _found : scanEscape escape with
    | .error f => (⟨[], some f⟩, [])
    | .ok (unit, rest) =>
      let (s, rest) := scanString rest
      (⟨unit :: s.units, s.fault⟩, rest)
  | c :: rest =>
    if c.toNat < 0x20 then (⟨[], some .malformed⟩, [])
    else
      let (s, rest) := scanString rest
      (⟨.char c :: s.units, s.fault⟩, rest)
termination_by text.length
decreasing_by
  · have := length_scanEscape _found
    simp only [List.length_cons]
    omega
  · simp

theorem length_scanString (text : List Char) : (scanString text).2.length ≤ text.length := by
  fun_induction scanString text with
  | case1 => simp
  | case2 rest => simp
  | case3 => simp
  | case4 escape unit rest found s after eq ih =>
    have := length_scanEscape found
    rw [eq] at ih
    simp only [List.length_cons] at *
    omega
  | case5 => simp
  | case6 c rest _ _ _ s after eq ih =>
    rw [eq] at ih
    simp only [List.length_cons] at *
    omega

/-! ## Numbers -/

/-- Reads the power of ten of a number, if there is one. -/
def scanExponent (text : List Char) : Except Fault (Option Int × List Char) :=
  match text with
  | mark :: rest =>
    if mark = 'e' ∨ mark = 'E' then
      let (negative, rest) := match rest with
        | '-' :: rest => (true, rest)
        | '+' :: rest => (false, rest)
        | rest => (false, rest)
      let ds := rest.takeWhile Char.isDigit
      let after := rest.dropWhile Char.isDigit
      if ds.isEmpty then .error (.before after)
      else .ok (some (if negative then -(ofDigits ds : Int) else ofDigits ds), after)
    else .ok (none, text)
  | [] => .ok (none, [])

/-- Reads the digits after the point of a number, if there is one. -/
def scanFraction : List Char → Except Fault (List Char × List Char)
  | '.' :: rest =>
    let ds := rest.takeWhile Char.isDigit
    let after := rest.dropWhile Char.isDigit
    if ds.isEmpty then .error (.before after) else .ok (ds, after)
  | text => .ok ([], text)

/-- Reads a number without its sign. Zero is the only number that starts with the digit zero. -/
def scanUnsigned (negative : Bool) (text : List Char) : Except Fault (NumberToken × List Char) := do
  let whole := text.takeWhile Char.isDigit
  let after := text.dropWhile Char.isDigit
  if whole.isEmpty then .error (.before after)
  else if whole.head? = some '0' ∧ whole ≠ ['0'] then .error .malformed
  else
    let (fraction, after) ← scanFraction after
    let (exponent, after) ← scanExponent after
    .ok (⟨negative, whole, fraction, exponent⟩, after)

/-- Reads a number. -/
def scanNumber : List Char → Except Fault (NumberToken × List Char)
  | '-' :: rest => scanUnsigned true rest
  | text => scanUnsigned false text

theorem length_dropWhile_le (p : Char → Bool) (text : List Char) :
    (text.dropWhile p).length ≤ text.length := (List.dropWhile_suffix p).length_le

theorem length_scanExponent {text rest : List Char} {e : Option Int}
    (h : scanExponent text = .ok (e, rest)) : rest.length ≤ text.length := by
  unfold scanExponent at h
  split at h
  · next mark rest' =>
    split at h
    · generalize signed : (match rest' with
        | '-' :: rest => (true, rest)
        | '+' :: rest => (false, rest)
        | rest => (false, rest)) = split at h
      have shorter : split.2.length ≤ rest'.length := by
        rw [← signed]
        split <;> simp
      have := length_dropWhile_le Char.isDigit split.2
      dsimp only at h
      split at h <;> simp at h
      rw [← h.2]
      simp only [List.length_cons]
      omega
    · simp at h
      simp [← h.2]
  · simp at h
    simp [← h.2]

theorem length_scanFraction {text rest ds : List Char}
    (h : scanFraction text = .ok (ds, rest)) : rest.length ≤ text.length := by
  unfold scanFraction at h
  split at h
  · next rest' =>
    have := length_dropWhile_le Char.isDigit rest'
    dsimp only at h
    split at h <;> simp at h
    rw [← h.2]
    simp only [List.length_cons]
    omega
  · simp at h
    simp [← h.2]

theorem length_scanUnsigned {negative : Bool} {text rest : List Char} {n : NumberToken}
    (h : scanUnsigned negative text = .ok (n, rest)) : rest.length < text.length := by
  unfold scanUnsigned at h
  have both := congrArg List.length (List.takeWhile_append_dropWhile (p := Char.isDigit) (l := text))
  rw [List.length_append] at both
  dsimp only at h
  split at h
  · simp at h
  · next nonempty =>
    split at h
    · simp at h
    · have digits : 0 < (text.takeWhile Char.isDigit).length := by
        rw [List.length_pos_iff]
        simpa using nonempty
      cases hf : scanFraction (text.dropWhile Char.isDigit) with
      | error f => simp [hf, bind, Except.bind] at h
      | ok fraction =>
        cases he : scanExponent fraction.2 with
        | error f => simp [hf, he, bind, Except.bind] at h
        | ok exponent =>
          simp [hf, he, bind, Except.bind] at h
          have := length_scanFraction hf
          have := length_scanExponent he
          rw [← h.2]
          omega

/-- A number is at least one character long. -/
theorem length_scanNumber {text rest : List Char} {n : NumberToken}
    (h : scanNumber text = .ok (n, rest)) : rest.length < text.length := by
  unfold scanNumber at h
  split at h
  · have := length_scanUnsigned h
    simp only [List.length_cons]
    omega
  · exact length_scanUnsigned h

/-! ## All tokens -/

/-- The blank space of JSON. -/
def isSpace (c : Char) : Bool := c = ' ' || c = '\n' || c = '\t' || c = '\r'

/-- Reads the rest of a word after its first letter. -/
def scanWord (token : Token) (word text : List Char) : Token × List Char :=
  if word.isPrefixOf text then (token, text.drop word.length)
  else if text.isPrefixOf word then (.defect .cutWord, [])
  else (.defect .wrong, [])

/-- Reads the token that starts with a character. Nothing is read after a defect. -/
def scanToken (c : Char) (rest : List Char) : Token × List Char :=
  match c with
  | '[' => (.openArray, rest)
  | ']' => (.closeArray, rest)
  | '\x7b' => (.openObject, rest)
  | '\x7d' => (.closeObject, rest)
  | ',' => (.comma, rest)
  | ':' => (.colon, rest)
  | 'n' => scanWord .null "ull".toList rest
  | 't' => scanWord (.boolean true) "rue".toList rest
  | 'f' => scanWord (.boolean false) "alse".toList rest
  | '"' => let (s, rest) := scanString rest; (.string s, rest)
  | c =>
    if c = '-' ∨ c.isDigit then
      match scanNumber (c :: rest) with
      | .ok (n, after) => (.number n, after)
      | .error .truncated => (.defect .cutNumber, [])
      | .error .malformed => (.defect .wrong, [])
    else (.defect .wrong, [])

theorem length_scanWord (token : Token) (word text : List Char) :
    (scanWord token word text).2.length ≤ text.length := by
  unfold scanWord
  split
  · simp
  · split <;> simp

/-- A token takes no more than there is. -/
theorem length_scanToken (c : Char) (rest : List Char) :
    (scanToken c rest).2.length ≤ rest.length := by
  unfold scanToken
  split
  all_goals first
    | exact Nat.le_refl _
    | exact length_scanWord _ _ _
    | exact length_scanString _
    | skip
  split
  · split
    · next found =>
      have := length_scanNumber found
      simp only [List.length_cons] at this
      exact Nat.le_of_lt_succ this
    · simp
    · simp
  · simp

/-- All tokens of a text, the first defect being the last of them. -/
def tokens (text : List Char) : List Token :=
  match text with
  | [] => []
  | c :: rest =>
    if isSpace c then tokens rest
    else (scanToken c rest).1 :: tokens (scanToken c rest).2
termination_by text.length
decreasing_by
  · simp
  · have := length_scanToken c rest
    simp only [List.length_cons]
    omega

end FieldDiagram.Json
