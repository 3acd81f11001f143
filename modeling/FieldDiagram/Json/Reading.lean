import FieldDiagram.Json.Value
/-!
# Reading a JSON text from left to right

A `Reading` is what a text shows to someone who reads it from left to right: a tree of values that may
break off anywhere. Keeping the part before a fault lets a decoder that meets a value of the wrong
shape say so, although the text has a fault further on. What stands where a value breaks off is kept
too, since readers differ in what they make of it.

Two readers of such a tree are here: `Reading.value` wants the whole value, `Reading.firstFault?` only
skips it. Decoders for particular shapes are in `Decode`.
-/

namespace FieldDiagram.Json

/-- How an object ends: closed; with a fault in its last member or where a comma or the closing brace
must stand; or with a fault where the name of a member must stand. -/
inductive Ending where
  | closed
  | fault (f : Fault)
  | unnamed (f : Fault)
  deriving DecidableEq, Repr

/-- The fault that an object ends with, if any. -/
def Ending.fault? : Ending → Option Fault
  | closed => none
  | fault f => some f
  | unnamed f => some f

/-- A value as far as it can be read. An array or object keeps its parts up to where it ends or breaks off. -/
inductive Reading where
  | defect (d : Defect)
  | null
  | boolean (b : Bool)
  | number (n : NumberToken)
  | string (s : StringToken)
  | array (items : List Reading) (ending : Option Fault)
  | object (members : List (StringToken × Reading)) (ending : Ending)

/-! ## From tokens to a reading -/

/-- What is left of some tokens after at least one of them has been read. -/
abbrev Rest (ts : List Token) : Type := { rest : List Token // rest.length < ts.length }

/-- What is left of later tokens is left of all of them. -/
def Rest.within {ts us : List Token} (h : ts.length ≤ us.length) (r : Rest ts) : Rest us :=
  ⟨r.1, Nat.lt_of_lt_of_le r.2 h⟩

/-- One token fewer is left of them after the next one. -/
theorem Rest.length_tail {ts rest : List Token} {t : Token} (r : Rest ts) (h : r.1 = t :: rest) :
    rest.length + 1 < ts.length := by
  have := r.2
  rwa [h] at this

/-- What is left after one more token. -/
def Rest.tail {ts rest : List Token} {t : Token} (r : Rest ts) (h : r.1 = t :: rest) : Rest ts :=
  ⟨rest, Nat.lt_of_succ_lt (r.length_tail h)⟩

mutual

/-- Reads a value, and says what follows it unless the text breaks off inside. -/
def readValue (ts : List Token) : Reading × Except Fault (Rest ts) :=
  match ts with
  | [] => (.defect .nothing, .error .truncated)
  | .null :: rest => (.null, .ok ⟨rest, by simp⟩)
  | .boolean b :: rest => (.boolean b, .ok ⟨rest, by simp⟩)
  | .number n :: rest => (.number n, .ok ⟨rest, by simp⟩)
  | .string s :: rest => (.string s, s.fault.elim (.ok ⟨rest, by simp⟩) .error)
  | .openArray :: .closeArray :: rest =>
    (.array [] none, .ok ⟨rest, by simp only [List.length_cons]; omega⟩)
  | .openArray :: rest =>
    let (items, ending, after) := readItems rest
    (.array items ending, after.map (.within (by simp)))
  | .openObject :: .closeObject :: rest =>
    (.object [] .closed, .ok ⟨rest, by simp only [List.length_cons]; omega⟩)
  | .openObject :: rest =>
    let (members, ending, after) := readMembers rest
    (.object members ending, after.map (.within (by simp)))
  | .defect d :: _ => (.defect d, .error d.whenWanted)
  | _ => (.defect .wrong, .error .malformed)
termination_by 2 * ts.length

/-- Reads the items of an array, from one of them on. -/
def readItems (ts : List Token) :
    List Reading × Option Fault × Except Fault (Rest ts) :=
  match readValue ts with
  | (x, .error f) => ([x], some f, .error f)
  | (x, .ok after) =>
    match next : after.1 with
    | .comma :: more =>
      have := after.length_tail next
      let (items, ending, after) := readItems more
      (x :: items, ending, after.map (.within (by omega)))
    | .closeArray :: _ => ([x], none, .ok (after.tail next))
    | other => ([x], some (.before other), .error (.before other))
termination_by 2 * ts.length + 1

/-- Reads the members of an object, from the name of one of them on. -/
def readMembers (ts : List Token) :
    List (StringToken × Reading) × Ending × Except Fault (Rest ts) :=
  match ts with
  | [] => ([], .unnamed .truncated, .error .truncated)
  | .string name :: .colon :: rest =>
    match readValue rest with
    | (v, .error f) => ([(name, v)], .fault f, .error f)
    | (v, .ok after) =>
      match next : after.1 with
      | .comma :: more =>
        have := after.length_tail next
        let (members, ending, after) := readMembers more
        ((name, v) :: members, ending, after.map (.within (by simp only [List.length_cons]; omega)))
      | .closeObject :: _ =>
        ([(name, v)], .closed,
          .ok ((after.tail next).within (by simp only [List.length_cons]; omega)))
      | other => ([(name, v)], .fault (.before other), .error (.before other))
  -- a name without its colon is kept: a decoder may have something to say about the name first
  | .string name :: rest =>
    let f := name.fault.getD (.before rest)
    ([(name, .defect (.before rest))], .fault f, .error f)
  | _ => ([], .unnamed .malformed, .error .malformed)
termination_by 2 * ts.length + 1

end

/-- Reads the first value of a text and whatever follows it. -/
def read (text : String) : Reading × List Token :=
  match readValue (tokens text.toList) with
  | (reading, .ok rest) => (reading, rest.1)
  | (reading, .error _) => (reading, [])

/-! ## Whole values -/

namespace StringToken

/-- Joins units to characters. A surrogate has to be the first half of a pair and be followed by the
second half; `ending` is what follows the last unit. -/
def joinUnits (ending : Option Fault) : List StringUnit → Except Fault (List Char)
  | [] => ending.elim (.ok []) .error
  | .char c :: rest => (joinUnits ending rest).map (c :: ·)
  | .surrogate high :: rest =>
    if 0xDC00 ≤ high then .error .malformed
    else match rest with
      | .surrogate low :: rest =>
        if 0xDC00 ≤ low then
          (joinUnits ending rest).map
            (Char.ofNat (0x10000 + (high - 0xD800) * 0x400 + (low - 0xDC00)) :: ·)
        else .error .malformed
      -- the string ends inside the pair, so what ended it is to blame
      | [] => .error (ending.getD .malformed)
      | _ => .error .malformed

/-- The string that a token stands for. -/
def text (s : StringToken) : Except Fault String :=
  (joinUnits s.fault s.units).map String.ofList

end StringToken

/-- How many arrays and objects may stand inside each other. -/
def nestingLimit : Nat := 127

mutual

/-- The first fault of a text that is only skipped: numbers out of range, lone surrogates and deep
nesting are none. -/
def Reading.firstFault? : Reading → Option Fault
  | .defect d => some d.whenSkipped
  | .string s => s.fault
  | .array items ending => (itemsFault? items).or ending
  | .object members ending => (membersFault? members).or ending.fault?
  | _ => none

/-- The first fault of the items of an array. -/
def itemsFault? : List Reading → Option Fault
  | [] => none
  | x :: xs => x.firstFault?.or (itemsFault? xs)

/-- The first fault of the members of an object. -/
def membersFault? : List (StringToken × Reading) → Option Fault
  | [] => none
  | (k, v) :: ms => k.fault.or (v.firstFault?.or (membersFault? ms))

end

mutual

/-- The value that was read, if there is no fault in it and `depth` levels of arrays and objects are
enough for it. -/
def Reading.value (depth : Nat) : Reading → Except Fault Value
  | .defect d => .error d.whenWanted
  | .null => .ok .null
  | .boolean b => .ok (.boolean b)
  | .number n => (Number.ofToken? n).elim (.error .malformed) (.ok <| .number ·)
  | .string s => s.text.map .string
  | .array items ending =>
    match depth with
    | 0 => .error .malformed
    | depth + 1 => do
      let items ← itemValues depth items
      ending.elim (.ok (.array items)) .error
  | .object members ending =>
    match depth with
    | 0 => .error .malformed
    | depth + 1 => do
      let members ← memberValues depth members
      ending.fault?.elim (.ok (.object members)) .error

/-- The values of items, in order. -/
def itemValues (depth : Nat) : List Reading → Except Fault (List Value)
  | [] => .ok []
  | x :: xs => do
    let v ← x.value depth
    let vs ← itemValues depth xs
    .ok (v :: vs)

/-- The values of members, in order and with repeated names. -/
def memberValues (depth : Nat) :
    List (StringToken × Reading) → Except Fault (List (String × Value))
  | [] => .ok []
  | (k, x) :: ms => do
    let k ← k.text
    let v ← x.value depth
    let vs ← memberValues depth ms
    .ok ((k, v) :: vs)

end

end FieldDiagram.Json
