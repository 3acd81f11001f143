import FieldDiagram.Decimal.Basic
/-!
# The fewest digits that read back

Of all decimal numbers whose nearest value is a given one, the one that lies on the coarsest decimal
grid, and on that grid the one nearest to the value; a `Tie` says which of two equally near ones. On
each grid only the two neighbours of the value need a look: if any point of the grid reads back, one
of them does.

Main statement: `ofDecimal_shortest`, the result reads back.
-/

namespace FieldDiagram.BinaryFormat

/-- The nearer, else the farther neighbour of a value among the multiples of `10 ^ exponent`, if it
reads back. -/
def neighbour? (f : BinaryFormat) (tie : Tie) (pattern : Nat) (exponent : Int) : Option Decimal :=
  let (num, den) := match exponent with
    | .ofNat e => (f.magnitude pattern, f.one * Nat.pow 10 e)
    | .negSucc e => (f.magnitude pattern * Nat.pow 10 (e + 1), f.one)
  let nearer := tie.round num den
  let farther := if nearer = num / den then nearer + 1 else nearer - 1
  [Decimal.mk nearer exponent, ⟨farther, exponent⟩].find? (f.ofDecimal · = pattern)

/-- The first neighbour that reads back on `grids` grids, each ten times finer than the one before. -/
def coarsest? (f : BinaryFormat) (tie : Tie) (pattern : Nat) : Nat → Int → Option Decimal
  | 0, _ => none
  | grids + 1, exponent =>
    (f.neighbour? tie pattern exponent).or (f.coarsest? tie pattern grids (exponent - 1))

/-- A power of ten above a value. The fraction is the logarithm of two, a little too large. -/
def topExponent (f : BinaryFormat) (pattern : Nat) : Int :=
  ((f.magnitude pattern).log2 - f.unitBits + 1 : Int) * 30103 / 100000 + 1

/--
The decimal number with the fewest digits that reads back. A grid finer than the value's own last
bit always has a point that does, and each grid refines by more than three bits, so the search ends
long before it has tried as many grids as the fraction has bits.
-/
def shortest (f : BinaryFormat) (tie : Tie) (pattern : Nat) : Decimal :=
  if f.magnitude pattern = 0 then ⟨0, 0⟩
  else (f.coarsest? tie pattern f.fractionBits (f.topExponent pattern)).getD (f.exactDecimal pattern)

theorem ofDecimal_of_neighbour? {f : BinaryFormat} {tie : Tie} {pattern : Nat} {exponent : Int}
    {d : Decimal} (h : f.neighbour? tie pattern exponent = some d) : f.ofDecimal d = pattern := by
  simpa using List.find?_some h

theorem ofDecimal_of_coarsest? {f : BinaryFormat} {tie : Tie} {pattern grids : Nat}
    {exponent : Int} {d : Decimal} (h : f.coarsest? tie pattern grids exponent = some d) :
    f.ofDecimal d = pattern := by
  induction grids generalizing exponent with
  | zero => simp [coarsest?] at h
  | succ grids ih =>
    rcases Option.or_eq_some_iff.1 h with here | ⟨_, finer⟩
    · exact ofDecimal_of_neighbour? here
    · exact ih finer

/-- **The fewest digits read back**, however ties are broken. -/
theorem ofDecimal_shortest (f : BinaryFormat) (tie : Tie) {pattern : Nat} (h : pattern ≤ f.infinity)
    (unit : 0 < f.unitBits) : f.ofDecimal (f.shortest tie pattern) = pattern := by
  unfold shortest
  split
  · next zero =>
    have own := f.ofRatio_magnitude h
    rw [zero] at own
    simpa [ofDecimal, ofRatio, roundHalfEven] using own
  · cases found : f.coarsest? tie pattern f.fractionBits (f.topExponent pattern) with
    | none => exact f.ofDecimal_exactDecimal h unit
    | some d => exact ofDecimal_of_coarsest? found

end FieldDiagram.BinaryFormat
