import FieldDiagram.Decimal.Float
import FieldDiagram.Decimal.Scaled
import FieldDiagram.Json.Token
/-!
# JSON values and how they are written

The values of JSON, with the members of an object in a definite order, and their one written form: no
blank space, numbers in the layout of data files, and escapes only where a string needs them.
-/

namespace FieldDiagram.Json

/-- A number: a whole number that fits a machine word, or else a real one. -/
inductive Number where
  | integer (n : Int)
  | real (x : Float)

/-- A value. The members of an object are in order, and a name may stand more than once. -/
inductive Value where
  | null
  | boolean (b : Bool)
  | number (n : Number)
  | string (s : String)
  | array (items : List Value)
  | object (members : List (String × Value))

/-- A real number as a value. -/
def Value.real (x : Float) : Value := .number (.real x)

/-- A whole number as a value. -/
def Value.integer (n : Int) : Value := .number (.integer n)

/-! ## Numbers -/

/-- The least number that a word of sixty-four bits does not hold. -/
def wordSize : Nat := 18446744073709551616

/-- The largest power of ten that is told apart from larger ones. -/
def exponentLimit : Nat := 2147483647

namespace NumberToken

/-- Takes further digits into a word for as long as they fit, and gives what is left of them. -/
def takeDigits (n : Nat) : List Char → Nat × List Char
  | [] => (n, [])
  | d :: ds =>
    if 10 * n + digitValue d < wordSize then takeDigits (10 * n + digitValue d) ds else (n, d :: ds)

/-- The decimal number that is kept of a token, its sign apart. All its digits go into one word. Digits in
front of the point that do not fit count as zeros, and digits behind it that do not fit are dropped. -/
def kept (t : NumberToken) : Decimal :=
  let (n, zeros) := takeDigits 0 t.whole
  let (coefficient, dropped) := takeDigits n t.fraction
  ⟨coefficient, t.exponent.getD 0 + zeros.length - (t.fraction.length - dropped.length : Nat)⟩

/-- The pattern that a token is read as, `none` if it is too large. -/
def pattern? (t : NumberToken) : Option Nat :=
  let exponent := t.exponent.getD 0
  if exponentLimit < exponent.natAbs then
    if t.kept.coefficient = 0 ∨ exponent < 0 then some 0 else none
  else Double.scaled? t.kept

end NumberToken

namespace Number

/-- The number that a token is read as. A whole number written without point and power of ten stays whole
if it fits a word, with a sign only if it has one; everything else is read by scaling, and `none` is a
number beyond the largest one. -/
def ofToken? (t : NumberToken) : Option Number :=
  let n := ofDigits t.whole
  if t.fraction = [] ∧ t.exponent = none ∧ !t.negative ∧ n < wordSize then some (.integer n)
  else if t.fraction = [] ∧ t.exponent = none ∧ t.negative ∧ 0 < n ∧ n ≤ wordSize / 2 then
    some (.integer (-n))
  else t.pattern?.map fun pattern => .real (Double.ofPattern t.negative pattern)

/-- The number as a machine number, rounded if need be. -/
def toFloat : Number → Float
  | .integer n => Double.ofInt n
  | .real x => x

/-- Writes a real number. What is not finite has no written form and becomes `null`. -/
def realChars (x : Float) : List Char :=
  match Double.parts x with
  | .finite negative pattern => BinaryFormat.double.shortestText .data negative pattern
  | _ => "null".toList

/-- Writes a number. -/
def chars : Number → List Char
  | .integer n => withMinus (n < 0) (digits n.natAbs)
  | .real x => realChars x

end Number

/-! ## Strings -/

/-- A number below sixteen to the fourth with four digits. -/
def hexQuad (n : Nat) : List Char :=
  [hexChar (n / 4096 % 16), hexChar (n / 256 % 16), hexChar (n / 16 % 16), hexChar (n % 16)]

/-- A character inside a written string. -/
def escapeChar (c : Char) : List Char :=
  match c with
  | '"' => ['\\', '"']
  | '\\' => ['\\', '\\']
  | '\x08' => ['\\', 'b']
  | '\x0c' => ['\\', 'f']
  | '\n' => ['\\', 'n']
  | '\r' => ['\\', 'r']
  | '\t' => ['\\', 't']
  | c => if c.toNat < 0x20 then '\\' :: 'u' :: hexQuad c.toNat else [c]

/-- A string with its quotes. -/
def stringChars (s : String) : List Char := '"' :: s.toList.flatMap escapeChar ++ ['"']

/-! ## Values -/

mutual

/-- The written form of a value. -/
def Value.chars : Value → List Char
  | .null => "null".toList
  | .boolean true => "true".toList
  | .boolean false => "false".toList
  | .number n => n.chars
  | .string s => stringChars s
  | .array [] => ['[', ']']
  | .array (x :: xs) => '[' :: x.chars ++ itemChars xs ++ [']']
  | .object [] => ['\x7b', '\x7d']
  | .object ((k, v) :: ms) => '\x7b' :: stringChars k ++ ':' :: v.chars ++ memberChars ms ++ ['\x7d']

/-- Items after the first. -/
def itemChars : List Value → List Char
  | [] => []
  | x :: xs => ',' :: x.chars ++ itemChars xs

/-- Members after the first. -/
def memberChars : List (String × Value) → List Char
  | [] => []
  | (k, v) :: ms => ',' :: stringChars k ++ ':' :: v.chars ++ memberChars ms

end

/-- The written form of a value. -/
def Value.text (v : Value) : String := String.ofList v.chars

/-! ## Canonical objects -/

/-- Puts a member in its place among members ordered by name; a member of the same name gives way. -/
def insertMember {ν : Type} (name : String) (v : ν) : List (String × ν) → List (String × ν)
  | [] => [(name, v)]
  | (k, w) :: ms =>
    if name < k then (name, v) :: (k, w) :: ms
    else if name = k then (name, v) :: ms
    else (k, w) :: insertMember name v ms

/-- The members in the order of their names, with the last of each name. -/
def sortMembers {ν : Type} (ms : List (String × ν)) : List (String × ν) :=
  ms.foldl (fun sorted m => insertMember m.1 m.2 sorted) []

mutual

/-- The value with the members of all its objects sorted. -/
def Value.canonical : Value → Value
  | .array items => .array (canonicalItems items)
  | .object members => .object (sortMembers (canonicalMembers members))
  | v => v

/-- Items with the members of all objects sorted. -/
def canonicalItems : List Value → List Value
  | [] => []
  | x :: xs => x.canonical :: canonicalItems xs

/-- Members with the members of all objects inside them sorted. -/
def canonicalMembers : List (String × Value) → List (String × Value)
  | [] => []
  | (k, v) :: ms => (k, v.canonical) :: canonicalMembers ms

end

end FieldDiagram.Json
