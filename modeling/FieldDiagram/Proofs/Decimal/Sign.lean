import FieldDiagram.Proofs.Decimal.Quotient
import FieldDiagram.Proofs.Decimal.Whole
import FieldDiagram.Scalar.Machine
/-!
# Signs of results

The model rounds how large a result is and keeps its sign. So absolute values, square roots of what has
no minus sign and products of such numbers have none either, however large or small they are and also
where they overflow; at worst they are no numbers. And adding a zero does not move a number.

Main statements: `Double.not_lt_zero_of_unsigned`, `Double.add_zero_beq`.
-/

namespace FieldDiagram

open Float.Model (UnpackedFloat Format)
open Float.Model.UnpackedFloat

/-! ## Numbers without a minus sign

The invariant of all operations that are followed here. It includes what is no number, as an overflow on the
way may lead to it. -/

/-- A number of the model that has no minus sign, or is no number. -/
def ModelUnsigned : UnpackedFloat → Prop
  | .notANumber => True
  | .infinity sign => sign = .positive
  | .zero sign => sign = .positive
  | .finite sign _ _ _ => sign = .positive

/-- A number that has no minus sign, or is none. -/
def FloatParts.Unsigned : FloatParts → Prop
  | nan => True
  | infinite negative => negative = false
  | finite negative _ => negative = false

namespace FloatParts

variable {f : BinaryFormat} {x : FloatParts}

theorem Unsigned.place?_nonneg (h : x.Unsigned) : ∀ i ∈ x.place? f, 0 ≤ i := by
  intro i hi
  cases x with
  | nan => exact absurd hi (Option.not_mem_none i)
  | infinite negative =>
    obtain rfl : negative = false := h
    obtain rfl := Option.some.inj hi
    exact Int.natCast_nonneg _
  | finite negative pattern =>
    obtain rfl : negative = false := h
    obtain rfl := Option.some.inj hi
    exact Int.natCast_nonneg _

theorem place?_nonpos (h : ¬ x.Unsigned) : ∀ i ∈ x.place? f, i ≤ 0 := by
  intro i hi
  cases x with
  | nan => exact absurd trivial h
  | infinite negative =>
    obtain rfl : negative = true := Bool.not_eq_false _ ▸ h
    obtain rfl := Option.some.inj hi
    exact Int.neg_nonpos_of_nonneg (Int.natCast_nonneg _)
  | finite negative pattern =>
    obtain rfl : negative = true := Bool.not_eq_false _ ▸ h
    obtain rfl := Option.some.inj hi
    exact Int.neg_nonpos_of_nonneg (Int.natCast_nonneg _)

end FloatParts

namespace ModelUnsigned

theorem unpacked {f : BinaryFormat} {x : FloatParts} (h : x.Unsigned) :
    ModelUnsigned (x.unpacked f) := by
  cases x with
  | nan => trivial
  | infinite negative =>
    obtain rfl : negative = false := h
    rfl
  | finite negative pattern =>
    obtain rfl : negative = false := h
    rw [FloatParts.unpacked]
    split <;> rfl

/-- Rounding keeps the sign. -/
theorem roundWithAccuracy (S : Format) (m : Nat) (e : Int) (accuracy : Accuracy) :
    ModelUnsigned (UnpackedFloat.roundWithAccuracy S .positive m e accuracy) := by
  unfold UnpackedFloat.roundWithAccuracy
  dsimp only
  split <;> rfl

theorem abs (u : UnpackedFloat) : ModelUnsigned u.abs := by
  cases u with
  | notANumber => trivial
  | _ => rfl

theorem sqrt (S : Format) {u : UnpackedFloat} (h : ModelUnsigned u) :
    ModelUnsigned (UnpackedFloat.sqrt S u) := by
  cases u with
  | notANumber => trivial
  | infinity sign =>
    obtain rfl : sign = .positive := h
    rfl
  | zero sign => exact h
  | finite sign m e hm =>
    obtain rfl : sign = .positive := h
    exact roundWithAccuracy S _ _ _

theorem mul (S : Format) {u v : UnpackedFloat} (hu : ModelUnsigned u) (hv : ModelUnsigned v) :
    ModelUnsigned (UnpackedFloat.mul S u v) := by
  -- in every case the sign of the product is the product of the signs
  have hsign : ∀ {s t : Sign}, s = .positive → t = .positive → s * t = .positive := by
    rintro s t rfl rfl
    rfl
  cases u with
  | notANumber => trivial
  | infinity s =>
    cases v with
    | notANumber => trivial
    | zero t => trivial
    | infinity t => exact hsign hu hv
    | finite t n f hn => exact hsign hu hv
  | zero s =>
    cases v with
    | notANumber => trivial
    | infinity t => trivial
    | zero t => exact hsign hu hv
    | finite t n f hn => exact hsign hu hv
  | finite s m e hm =>
    cases v with
    | notANumber => trivial
    | infinity t => exact hsign hu hv
    | zero t => exact hsign hu hv
    | finite t n f hn =>
      rw [UnpackedFloat.mul, hsign hu hv]
      exact roundWithAccuracy S _ _ _

/-- The bits of a number without a minus sign begin with a zero. -/
theorem unpackSign_pack {S : Format} {u : UnpackedFloat} (h : ModelUnsigned u) :
    unpackSign (pack S u) = 0#1 := by
  have hcomponents : ∀ {sign : Sign} (exponent : BitVec S.exponentBits)
      (mantissa : BitVec S.mantissaBitsWithoutImplicit), sign = .positive →
      unpackSign (packComponents S sign exponent mantissa) = 0#1 := by
    rintro sign exponent mantissa rfl
    exact ModelDivision.unpackSign_packComponents _ _ _
  cases u with
  | notANumber => exact hcomponents _ _ rfl
  | infinity sign => exact hcomponents _ _ h
  | zero sign => exact hcomponents _ _ h
  | finite sign m e hm =>
    -- it may have been rounded up to infinity, and its significand may have been cut short
    unfold pack
    dsimp only
    split
    · exact hcomponents _ _ h
    · split
      · exact hcomponents _ _ h
      · exact hcomponents _ _ h

theorem pack {S : Format} {u : UnpackedFloat} (h : ModelUnsigned u) :
    ((BinaryFormat.ofModel S).parts (pack S u).toNat).Unsigned := by
  rw [parts_toNat, h.unpackSign_pack]
  split
  · exact decide_eq_false (not_not.2 rfl)
  · split
    · exact decide_eq_false (not_not.2 rfl)
    · trivial

end ModelUnsigned

/-! ## Signs of double precision

The same in machine numbers, where what has no minus sign is never below zero, also when it is no number. -/

namespace Double

theorem unsigned_abs (x : Float) : (parts x.abs).Unsigned :=
  (ModelUnsigned.abs x.toModel.unpack).pack (S := .binary64)

theorem unsigned_sqrt {x : Float} (h : (parts x).Unsigned) : (parts x.sqrt).Unsigned := by
  have hmodel := ModelUnsigned.unpacked (f := .double) h
  rw [← unpack_toModel] at hmodel
  exact (hmodel.sqrt .binary64).pack (S := .binary64)

theorem unsigned_mul {x y : Float} (hx : (parts x).Unsigned) (hy : (parts y).Unsigned) :
    (parts (x * y)).Unsigned := by
  have hmodel := ModelUnsigned.unpacked (f := .double) hx
  have hmodel' := ModelUnsigned.unpacked (f := .double) hy
  rw [← unpack_toModel] at hmodel hmodel'
  exact (hmodel.mul .binary64 hmodel').pack (S := .binary64)

theorem place?_zero : place? (Scalar.zero : Float) = some 0 := by
  have hparts : parts (ofInt 0) = .finite false (BinaryFormat.double.ofNat 0) := parts_ofInt (by decide)
  have hzero : BinaryFormat.double.ofNat 0 = 0 := by decide
  change FloatParts.place? .double (parts (ofInt 0)) = some 0
  rw [hparts, hzero]
  rfl

/-- **What has no minus sign is not below zero**, even if it is no number. -/
theorem not_lt_zero_of_unsigned {x : Float} (h : (parts x).Unsigned) : ¬ x < Scalar.zero := by
  rw [lt_iff, place?_zero]
  rintro ⟨i, hi, j, hj, hlt⟩
  obtain rfl := Option.some.inj hj
  have hpos := h.place?_nonneg i hi
  omega

/-- What is above zero has no minus sign. -/
theorem unsigned_of_zero_lt {x : Float} (h : Scalar.zero < x) : (parts x).Unsigned := by
  rw [lt_iff, place?_zero] at h
  obtain ⟨j, hj, i, hi, hlt⟩ := h
  obtain rfl := Option.some.inj hj
  by_contra hsigned
  have hneg := FloatParts.place?_nonpos hsigned i hi
  omega

/-! ## Zeros

What zeros do in products, quotients and sums. A sum with zero is exact, so it is the other number but for
the sign of a zero, and that is why the two are compared and not said to be the same. -/

theorem ofModel_pack_unpack (x : Float) : .ofModel (Float.Model.pack x.toModel.unpack) = x := by
  have hbits : UnpackedFloat.pack .binary64 x.toModel.unpack = x.toModel.toBits.toBitVec :=
    pack_unpack_of_valid x.toModel.valid
  rw [Float.Model.pack]
  congr

theorem parts_zero (sign : Sign) :
    ∃ negative, parts (.ofModel (Float.Model.pack (.zero sign))) = .finite negative 0 := by
  cases sign
  · exact ⟨true, by decide⟩
  · exact ⟨false, by decide⟩

theorem unpack_of_zero {x : Float} {negative : Bool} (h : parts x = .finite negative 0) :
    x.toModel.unpack = .zero (modelSign negative) := by
  rw [unpack_toModel, h]
  rfl

theorem place?_of_zero {x : Float} {negative : Bool} (h : parts x = .finite negative 0) :
    place? x = some 0 := by
  rw [place?, h]
  cases negative <;> rfl

/-- A finite number times zero is a zero. -/
theorem parts_mul_zero {x y : Float} {negative : Bool} (hx : x.isFinite = true)
    (hy : parts y = .finite negative 0) : ∃ negative, parts (x * y) = .finite negative 0 := by
  obtain ⟨n, p, hx⟩ := (isFinite_iff x).1 hx
  have hproduct : x * y = .ofModel (Float.Model.pack (UnpackedFloat.mul .binary64 x.toModel.unpack
    y.toModel.unpack)) := rfl
  rw [hproduct, unpack_of_zero hy, unpack_toModel, hx]
  rcases FloatParts.unpacked_finite .double n p with ⟨-, hu⟩ | ⟨-, hm, hu⟩
  · rw [hu]
    exact parts_zero _
  · rw [hu]
    exact parts_zero _

/-- A zero divided by what is finite and no zero is a zero. -/
theorem parts_zero_div {x y : Float} {n m : Bool} {q : Nat} (hx : parts x = .finite n 0)
    (hy : parts y = .finite m q) (hpos : 0 < q) : ∃ negative, parts (x / y) = .finite negative 0 := by
  have hquotient : x / y = .ofModel (Float.Model.pack (UnpackedFloat.div .binary64 x.toModel.unpack
    y.toModel.unpack)) := rfl
  rw [hquotient, unpack_of_zero hx, unpack_toModel, hy]
  rcases FloatParts.unpacked_finite .double m q with ⟨rfl, -⟩ | ⟨-, hm, hu⟩
  · exact absurd hpos (Nat.lt_irrefl 0)
  · rw [hu]
    exact parts_zero _

/-- **Adding a zero does not move a number.** -/
theorem add_zero_beq {x y : Float} {negative : Bool} (hx : x.isFinite = true)
    (hy : parts y = .finite negative 0) : (x + y == x) = true := by
  obtain ⟨n, p, hparts⟩ := (isFinite_iff x).1 hx
  have hsum : x + y = .ofModel (Float.Model.pack (UnpackedFloat.add .binary64 x.toModel.unpack
    y.toModel.unpack)) := rfl
  rw [beq_iff, hsum, unpack_of_zero hy]
  rcases FloatParts.unpacked_finite .double n p with ⟨rfl, hu⟩ | ⟨-, hm, hu⟩
  · -- two zeros make a zero, perhaps one of another sign
    refine ⟨0, ?_, place?_of_zero hparts⟩
    have hzeros : ∃ sign, UnpackedFloat.add .binary64 x.toModel.unpack
        (.zero (modelSign negative)) = .zero sign := by
      rw [unpack_toModel, hparts, hu]
      cases n <;> cases negative <;> exact ⟨_, rfl⟩
    obtain ⟨sign, hzero⟩ := hzeros
    obtain ⟨n', hn'⟩ := parts_zero sign
    rw [hzero]
    exact place?_of_zero hn'
  · have hsame : UnpackedFloat.add .binary64 x.toModel.unpack (.zero (modelSign negative)) =
        x.toModel.unpack := by
      rw [unpack_toModel, hparts, hu]
      rfl
    rw [hsame, ofModel_pack_unpack, place?, hparts]
    exact ⟨_, rfl, rfl⟩

/-- What is left when infinity is taken away is infinite or no number. -/
theorem model_sub_infinity (u : UnpackedFloat) (sign : Sign) :
    UnpackedFloat.sub .binary64 u (.infinity sign) = .notANumber ∨
      ∃ sign', UnpackedFloat.sub .binary64 u (.infinity sign) = .infinity sign' := by
  cases u with
  | notANumber => exact Or.inl rfl
  | infinity s =>
    unfold UnpackedFloat.sub
    dsimp only
    split
    · exact Or.inr ⟨_, rfl⟩
    · exact Or.inl rfl
  | zero s => exact Or.inr ⟨_, rfl⟩
  | finite s m e hm => exact Or.inr ⟨_, rfl⟩

/-- Only when a finite number is taken away, something finite can be left. -/
theorem isFinite_of_sub {x y : Float} (h : (x - y).isFinite = true) : y.isFinite = true := by
  have hdifference : (x - y).isFinite = (unpack .binary64 (UnpackedFloat.pack .binary64
    (UnpackedFloat.sub .binary64 x.toModel.unpack y.toModel.unpack))).isFinite := rfl
  have hnan : ¬ (unpack .binary64 (UnpackedFloat.pack .binary64 .notANumber)).isFinite = true := by
    decide
  rw [hdifference, unpack_toModel y] at h
  rw [isFinite_iff]
  -- nothing finite comes of no number or of an infinity, whatever it is taken from
  cases hy : parts y with
  | finite negative pattern => exact ⟨negative, pattern, rfl⟩
  | nan =>
    have hleft : UnpackedFloat.sub .binary64 x.toModel.unpack .notANumber = .notANumber := by
      cases x.toModel.unpack <;> rfl
    rw [hy, FloatParts.unpacked, hleft] at h
    exact absurd h hnan
  | infinite negative =>
    rw [hy, FloatParts.unpacked] at h
    rcases model_sub_infinity x.toModel.unpack (modelSign negative) with hleft | ⟨sign, hleft⟩
    · rw [hleft] at h
      exact absurd h hnan
    · rw [hleft] at h
      cases sign
      · exact absurd h (by decide)
      · exact absurd h (by decide)

end Double

end FieldDiagram
