/-!
# Blank space around and between words

A colour or a font may be written with any of it; none of it is part of what is written.
-/

namespace FieldDiagram

/-- The characters with the Unicode property *White_Space*. -/
def isBlank (c : Char) : Bool :=
  let n := c.toNat
  (9 ≤ n && n ≤ 13) || n = 0x20 || n = 0x85 || n = 0xA0 || n = 0x1680 ||
    (0x2000 ≤ n && n ≤ 0x200A) || n = 0x2028 || n = 0x2029 || n = 0x202F || n = 0x205F || n = 0x3000

/-- A text without the blank space at its end. -/
def trimEnd (text : List Char) : List Char := (text.reverse.dropWhile isBlank).reverse

/-- A text without the blank space around it. -/
def trim (text : List Char) : List Char := trimEnd (text.dropWhile isBlank)

/-- The words of a text: its longest runs without blank space. -/
def words (text : List Char) : List (List Char) :=
  (text.splitOnP isBlank).filter (· ≠ [])

/-- The pieces of a text between the marks; one more than there are marks. -/
def piecesAt (mark : Char) (text : List Char) : List (List Char) := text.splitOnP (· = mark)

@[simp] theorem trim_nil : trim [] = [] := rfl

/-- A blank in front is dropped. -/
theorem trim_cons_blank {c : Char} (h : isBlank c) (text : List Char) :
    trim (c :: text) = trim text := by
  simp [trim, h]

end FieldDiagram
