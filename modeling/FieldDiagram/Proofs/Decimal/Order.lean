import FieldDiagram.Proofs.Decimal.Bits
/-!
# The order of machine numbers

The pattern of a number, with its sign, is its place among the numbers: numbers are compared by their
places. Minus infinity comes first and infinity last, both zeros have the same place, and what is no
number has none, so that every comparison with it fails.

Main statements: `FloatParts.compare_unpacked` for any format, `Single.lt_iff`, `Single.le_iff` and
`Single.beq_iff` for single precision, `Double.lt_iff` and `Double.beq_iff` for double precision.
-/

namespace FieldDiagram

/-! ## Patterns and values

Numbers of one sign are ordered as their patterns are, because the exponent comes first in a pattern. -/

namespace BinaryFormat

/-- A larger shift is at least one binade more, and then the significand is a full one. -/
theorem lt_of_shift_lt (f : BinaryFormat) {p q : Nat} (h : f.shift p < f.shift q) : p < q := by
  have hp := f.shift_mul_binade_add_significand p
  have hq := f.shift_mul_binade_add_significand q
  have hle := Nat.mul_le_mul_right f.binade (Nat.succ_le_of_lt h)
  have hlow := f.significand_lt p
  have hhigh := f.le_significand q (by omega)
  rw [Nat.succ_mul] at hle
  omega

/-- Patterns are ordered by shift and then by significand. -/
theorem compare_fields (f : BinaryFormat) (p q : Nat) :
    (compare ((f.shift p : Int) - f.unitBits) (f.shift q - f.unitBits)).then
      (compare (f.significand p) (f.significand q)) = compare p q := by
  have hp := f.shift_mul_binade_add_significand p
  have hq := f.shift_mul_binade_add_significand q
  rcases Nat.lt_trichotomy (f.shift p) (f.shift q) with hlt | heq | hgt
  · rw [compare_lt_iff_lt.2 (by omega), compare_lt_iff_lt.2 (f.lt_of_shift_lt hlt)]
    rfl
  · rw [heq] at hp
    rw [heq, compare_eq_iff_eq.2 rfl, Ordering.eq_then]
    rcases Nat.lt_trichotomy (f.significand p) (f.significand q) with hlt | hsame | hgt
    · rw [compare_lt_iff_lt.2 hlt, compare_lt_iff_lt.2 (by omega)]
    · rw [compare_eq_iff_eq.2 hsame, compare_eq_iff_eq.2 (by omega)]
    · rw [compare_gt_iff_gt.2 hgt, compare_gt_iff_gt.2 (by omega)]
  · rw [compare_gt_iff_gt.2 (by omega), compare_gt_iff_gt.2 (f.lt_of_shift_lt hgt)]
    rfl

/-- The values are ordered as the patterns are. -/
theorem magnitude_mono (f : BinaryFormat) {p q : Nat} (h : p ≤ q) : f.magnitude p ≤ f.magnitude q := by
  have hp := f.shift_mul_binade_add_significand p
  have hq := f.shift_mul_binade_add_significand q
  rw [magnitude, magnitude, Nat.shiftLeft_eq, Nat.shiftLeft_eq]
  rcases Nat.lt_trichotomy (f.shift p) (f.shift q) with hlt | heq | hgt
  · have hlow := Nat.le_of_lt (f.significand_lt p)
    have hhigh := f.le_significand q (by omega)
    calc f.significand p * 2 ^ f.shift p ≤ 2 * f.binade * 2 ^ f.shift p := Nat.mul_le_mul_right _ hlow
      _ = f.binade * 2 ^ (f.shift p + 1) := by rw [Nat.pow_succ]; ring
      _ ≤ f.significand q * 2 ^ f.shift q :=
        Nat.mul_le_mul hhigh (Nat.pow_le_pow_right (by decide) hlt)
  · rw [heq] at hp ⊢
    exact Nat.mul_le_mul_right _ (by omega)
  · exact absurd (f.lt_of_shift_lt hgt) (by omega)

/-- Rounding down keeps the order. -/
theorem floor_mono (f : BinaryFormat) {p q : Nat} (h : p ≤ q) : f.floor p ≤ f.floor q :=
  Nat.div_le_div_right (f.magnitude_mono h)

theorem infinity_pos (f : BinaryFormat) (h : 0 < f.exponentBits) : 0 < f.infinity := by
  have hpow : 2 ^ 1 ≤ 2 ^ f.exponentBits := Nat.pow_le_pow_right (by decide) h
  rw [infinity, Nat.one_shiftLeft]
  exact Nat.mul_pos (by omega) f.binade_pos

end BinaryFormat

/-! ## Places

With its sign a pattern is an integer, and integers are compared as usual. Zeros of both signs have the same
one. -/

namespace FloatParts

/-- The place of a number among the numbers: its pattern with its sign. What is no number has none. -/
def place? (f : BinaryFormat) : FloatParts → Option Int
  | nan => none
  | infinite negative => some (if negative then -f.infinity else f.infinity)
  | finite negative pattern => some (if negative then -pattern else pattern)

/-- What is finite has a pattern below infinity. -/
def Fits (f : BinaryFormat) (x : FloatParts) : Prop :=
  ∀ negative pattern, x = finite negative pattern → pattern < f.infinity

theorem fits_parts (f : BinaryFormat) (bits : Nat) : (f.parts bits).Fits f :=
  fun _ _ h => BinaryFormat.lt_infinity_of_parts h

/-- A finite number is a zero of the model, or it has its significand and its shift. -/
theorem unpacked_finite (f : BinaryFormat) (negative : Bool) (pattern : Nat) :
    pattern = 0 ∧ (finite negative pattern).unpacked f = .zero (modelSign negative) ∨
      0 < pattern ∧ ∃ h, (finite negative pattern).unpacked f = .finite (modelSign negative)
        (f.significand pattern) (f.shift pattern - f.unitBits) h := by
  rw [unpacked]
  split
  · next h => exact Or.inr ⟨(f.significand_pos_iff pattern).1 h, h, rfl⟩
  · next h =>
    rw [f.significand_pos_iff] at h
    exact Or.inl ⟨by omega, rfl⟩

section Compare

variable {f : BinaryFormat}

theorem compare_natCast (p q : Nat) : compare (p : Int) q = compare p q := by
  rcases Nat.lt_trichotomy p q with h | h | h
  · rw [compare_lt_iff_lt.2 h, compare_lt_iff_lt.2 (by omega)]
  · rw [compare_eq_iff_eq.2 h, compare_eq_iff_eq.2 (by omega)]
  · rw [compare_gt_iff_gt.2 h, compare_gt_iff_gt.2 (by omega)]

theorem compare_neg_natCast (p q : Nat) : compare (-(p : Int)) (-q) = (compare p q).swap := by
  rw [Nat.compare_swap, ← compare_natCast]
  rcases Nat.lt_trichotomy p q with h | h | h
  · rw [compare_gt_iff_gt.2 (by omega), compare_gt_iff_gt.2 (by omega)]
  · rw [compare_eq_iff_eq.2 (by omega), compare_eq_iff_eq.2 (by omega)]
  · rw [compare_lt_iff_lt.2 (by omega), compare_lt_iff_lt.2 (by omega)]

theorem compare_infinite (hinf : 0 < f.infinity) (n m : Bool) :
    ((infinite n).unpacked f).compare ((infinite m).unpacked f) =
      some (compare (if n then -(f.infinity : Int) else f.infinity)
        (if m then -(f.infinity : Int) else f.infinity)) := by
  cases n <;> cases m
  · exact congrArg some (compare_eq_iff_eq.2 rfl).symm
  · exact congrArg some (compare_gt_iff_gt.2 (by simp; omega)).symm
  · exact congrArg some (compare_lt_iff_lt.2 (by simp; omega)).symm
  · exact congrArg some (compare_eq_iff_eq.2 rfl).symm

theorem compare_infinite_finite (n m : Bool) {q : Nat} (hq : q < f.infinity) :
    ((infinite n).unpacked f).compare ((finite m q).unpacked f) =
      some (compare (if n then -(f.infinity : Int) else f.infinity)
        (if m then -(q : Int) else q)) := by
  have hmodel : ((infinite n).unpacked f).compare ((finite m q).unpacked f) =
      some (if n then .lt else .gt) := by
    rcases unpacked_finite f m q with ⟨-, hu⟩ | ⟨-, h, hu⟩ <;> rw [hu] <;> cases n <;> rfl
  rw [hmodel]
  cases n
  · exact congrArg some (compare_gt_iff_gt.2 (by simp; split <;> omega)).symm
  · exact congrArg some (compare_lt_iff_lt.2 (by simp; split <;> omega)).symm

theorem compare_finite_infinite (n m : Bool) {p : Nat} (hp : p < f.infinity) :
    ((finite n p).unpacked f).compare ((infinite m).unpacked f) =
      some (compare (if n then -(p : Int) else p)
        (if m then -(f.infinity : Int) else f.infinity)) := by
  have hmodel : ((finite n p).unpacked f).compare ((infinite m).unpacked f) =
      some (if m then .gt else .lt) := by
    rcases unpacked_finite f n p with ⟨-, hu⟩ | ⟨-, h, hu⟩ <;> rw [hu] <;> cases m <;> cases n <;> rfl
  rw [hmodel]
  cases m
  · exact congrArg some (compare_lt_iff_lt.2 (by simp; split <;> omega)).symm
  · exact congrArg some (compare_gt_iff_gt.2 (by simp; split <;> omega)).symm

theorem compare_finite (n m : Bool) (p q : Nat) :
    ((finite n p).unpacked f).compare ((finite m q).unpacked f) =
      some (compare (if n then -(p : Int) else p) (if m then -(q : Int) else q)) := by
  rcases unpacked_finite f n p with ⟨rfl, hu⟩ | ⟨hp, h, hu⟩ <;>
    rcases unpacked_finite f m q with ⟨rfl, hv⟩ | ⟨hq, h', hv⟩ <;> rw [hu, hv]
  · exact congrArg some (compare_eq_iff_eq.2 (by simp)).symm
  · cases m
    · exact congrArg some (compare_lt_iff_lt.2 (by simp; omega)).symm
    · exact congrArg some (compare_gt_iff_gt.2 (by simp; omega)).symm
  · cases n
    · exact congrArg some (compare_gt_iff_gt.2 (by simp; omega)).symm
    · exact congrArg some (compare_lt_iff_lt.2 (by simp; omega)).symm
  · cases n <;> cases m
    · exact congrArg some ((f.compare_fields p q).trans (compare_natCast p q).symm)
    · exact congrArg some (compare_gt_iff_gt.2 (by simp; omega)).symm
    · exact congrArg some (compare_lt_iff_lt.2 (by simp; omega)).symm
    · exact congrArg some
        ((congrArg Ordering.swap (f.compare_fields p q)).trans (compare_neg_natCast p q).symm)

/-- **Numbers are compared by their places.** -/
theorem compare_unpacked {x y : FloatParts} (hx : x.Fits f) (hy : y.Fits f) (hinf : 0 < f.infinity) :
    (x.unpacked f).compare (y.unpacked f) =
      (x.place? f).bind fun i => (y.place? f).map fun j => compare i j := by
  cases x with
  | nan => rfl
  | infinite n =>
    cases y with
    | nan => cases n <;> rfl
    | infinite m => exact compare_infinite hinf n m
    | finite m q => exact compare_infinite_finite n m (hy m q rfl)
  | finite n p =>
    cases y with
    | nan => rcases unpacked_finite f n p with ⟨-, hu⟩ | ⟨-, h, hu⟩ <;> rw [hu] <;> rfl
    | infinite m => exact compare_finite_infinite n m (hx n p rfl)
    | finite m q => exact compare_finite n m p q

end Compare

end FloatParts

/-! ## Single precision

Comparisons of the language are those of the model, and so of places. -/

namespace Single

/-- The place of a number among the numbers. -/
def place? (x : Float32) : Option Int := (parts x).place? .single

variable {x y : Float32}

theorem compare_unpack (x y : Float32) :
    x.toModel.unpack.compare y.toModel.unpack =
      (place? x).bind fun i => (place? y).map fun j => compare i j := by
  have hunpack (z : Float32) : z.toModel.unpack = (parts z).unpacked .single :=
    unpack_eq (S := .binary32) z.toBits.toBitVec
  rw [hunpack, hunpack]
  exact FloatParts.compare_unpacked (FloatParts.fits_parts _ _) (FloatParts.fits_parts _ _)
    (BinaryFormat.infinity_pos _ (by decide))

theorem lt_iff : x < y ↔ ∃ i ∈ place? x, ∃ j ∈ place? y, i < j := by
  have hmodel : x < y ↔ x.toModel.unpack.compare y.toModel.unpack = some .lt := by
    change decide ((x.toModel.unpack.compare y.toModel.unpack == some .lt) = true) = true ↔ _
    rw [decide_eq_true_eq, beq_iff_eq]
  rw [hmodel, compare_unpack]
  cases place? x <;> cases place? y <;> simp [compare_lt_iff_lt]

theorem le_iff : x ≤ y ↔ ∃ i ∈ place? x, ∃ j ∈ place? y, i ≤ j := by
  have hmodel : x ≤ y ↔ (x.toModel.unpack.compare y.toModel.unpack).any (·.isLE) = true := by
    change decide ((x.toModel.unpack.compare y.toModel.unpack).any (·.isLE) = true) = true ↔ _
    rw [decide_eq_true_eq]
  rw [hmodel, compare_unpack]
  cases place? x <;> cases place? y <;> simp [Int.isLE_compare]

theorem beq_iff : (x == y) = true ↔ ∃ i ∈ place? x, i ∈ place? y := by
  have hmodel : (x == y) = true ↔ x.toModel.unpack.compare y.toModel.unpack = some .eq := by
    change ((x.toModel.unpack.compare y.toModel.unpack == some .eq) = true) ↔ _
    rw [beq_iff_eq]
  rw [hmodel, compare_unpack]
  cases place? x with
  | none => simp
  | some i =>
    cases place? y with
    | none => simp
    | some j =>
      simp only [Option.bind_some, Option.map_some, Option.some.injEq, compare_eq_iff_eq,
        Option.mem_def, exists_eq_left']
      exact eq_comm

end Single

/-! ## Double precision -/

namespace Double

/-- The place of a number among the numbers. -/
def place? (x : Float) : Option Int := (parts x).place? .double

variable {x y : Float}

theorem unpack_toModel (x : Float) : x.toModel.unpack = (parts x).unpacked .double :=
  unpack_eq (S := .binary64) x.toBits.toBitVec

theorem compare_unpack (x y : Float) :
    x.toModel.unpack.compare y.toModel.unpack =
      (place? x).bind fun i => (place? y).map fun j => compare i j := by
  rw [unpack_toModel, unpack_toModel]
  exact FloatParts.compare_unpacked (FloatParts.fits_parts _ _) (FloatParts.fits_parts _ _)
    (BinaryFormat.infinity_pos _ (by decide))

theorem lt_iff : x < y ↔ ∃ i ∈ place? x, ∃ j ∈ place? y, i < j := by
  have hmodel : x < y ↔ x.toModel.unpack.compare y.toModel.unpack = some .lt := by
    change decide ((x.toModel.unpack.compare y.toModel.unpack == some .lt) = true) = true ↔ _
    rw [decide_eq_true_eq, beq_iff_eq]
  rw [hmodel, compare_unpack]
  cases place? x <;> cases place? y <;> simp [compare_lt_iff_lt]

theorem beq_iff : (x == y) = true ↔ ∃ i, i ∈ place? x ∧ i ∈ place? y := by
  have hmodel : (x == y) = true ↔ x.toModel.unpack.compare y.toModel.unpack = some .eq := by
    change ((x.toModel.unpack.compare y.toModel.unpack == some .eq) = true) ↔ _
    rw [beq_iff_eq]
  rw [hmodel, compare_unpack]
  cases place? x <;> cases place? y <;> simp
  exact eq_comm

end Double

end FieldDiagram
