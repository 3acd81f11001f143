import FieldDiagram.Decimal.Float
import FieldDiagram.Proofs.Decimal.Model
/-!
# Machine numbers and their bits

A machine number is told by its bits, and all bits but those of numbers that are none survive being
made a machine number. So a machine number that is a number at all is the same thing as a sign and a
pattern: `ofPattern_of_parts` and `parts_ofPattern` lead from one to the other and back. There is only
one machine number that is none, so that every machine number is told by what it is, `ofBits_bitsOf`.
-/

namespace FieldDiagram

/-! ## Sign and pattern

In any format: bits are a sign and a pattern, and patterns below infinity are the finite numbers. -/

namespace BinaryFormat

theorem infinity_lt_signBit (f : BinaryFormat) : f.infinity < f.signBit := by
  have hpos := f.binade_pos
  have hbits : f.signBit = 2 ^ f.exponentBits * f.binade := by
    rw [signBit, binade, Nat.one_shiftLeft, Nat.one_shiftLeft, Nat.pow_add]
  rw [hbits, infinity, Nat.one_shiftLeft]
  have := Nat.two_pow_pos f.exponentBits
  exact Nat.mul_lt_mul_of_pos_right (by omega) hpos

/-- A sign and a pattern below infinity are read back from their bits. -/
theorem parts_withSign (f : BinaryFormat) (negative : Bool) {pattern : Nat}
    (h : pattern < f.infinity) : f.parts (f.withSign negative pattern) = .finite negative pattern := by
  have hlt := Nat.lt_trans h f.infinity_lt_signBit
  cases negative with
  | false =>
    rw [parts, withSign, if_neg Bool.false_ne_true]
    rw [Nat.mod_eq_of_lt hlt, if_pos h, decide_eq_false (by omega)]
  | true =>
    rw [parts, withSign, if_pos rfl]
    rw [Nat.add_mod_left, Nat.mod_eq_of_lt hlt, if_pos h, decide_eq_true (by omega)]

theorem withSign_lt (f : BinaryFormat) (negative : Bool) {pattern : Nat} (h : pattern ≤ f.infinity) :
    f.withSign negative pattern < 2 * f.signBit ∧
      f.withSign negative pattern % f.signBit = pattern := by
  have hlt := Nat.lt_of_le_of_lt h f.infinity_lt_signBit
  rw [withSign]
  split
  · rw [Nat.add_mod_left, Nat.mod_eq_of_lt hlt]
    omega
  · rw [Nat.mod_eq_of_lt hlt]
    omega

/-- Infinity is read back from its bits. -/
theorem parts_withSign_infinity (f : BinaryFormat) (negative : Bool) :
    f.parts (f.withSign negative f.infinity) = .infinite negative := by
  have hlt := f.infinity_lt_signBit
  rw [parts, (f.withSign_lt negative (Nat.le_refl _)).2, if_neg (Nat.lt_irrefl _), if_pos rfl, withSign]
  cases negative
  · rw [if_neg Bool.false_ne_true, decide_eq_false (by omega)]
  · rw [if_pos rfl, decide_eq_true (by omega)]

/-- All bits are a sign and what follows it. -/
theorem withSign_mod (f : BinaryFormat) {bits : Nat} (hbits : bits < 2 * f.signBit) :
    f.withSign (f.signBit ≤ bits) (bits % f.signBit) = bits := by
  rw [withSign]
  split
  · next hneg =>
    have hle := of_decide_eq_true hneg
    rw [Nat.mod_eq_sub_mod hle, Nat.mod_eq_of_lt (by omega)]
    omega
  · next hpos =>
    have hlt : ¬ f.signBit ≤ bits := fun hle => hpos (decide_eq_true hle)
    rw [Nat.mod_eq_of_lt (by omega)]

/-- What is finite has a pattern below infinity. -/
theorem lt_infinity_of_parts {f : BinaryFormat} {bits : Nat} {negative : Bool} {pattern : Nat}
    (h : f.parts bits = .finite negative pattern) : pattern < f.infinity := by
  rw [parts] at h
  split at h
  · next hfinite => exact (FloatParts.finite.inj h).2 ▸ hfinite
  · split at h <;> cases h

/-- The bits of a finite number are its sign and its pattern, which is below infinity. -/
theorem withSign_of_parts {f : BinaryFormat} {bits : Nat} (hbits : bits < 2 * f.signBit)
    {negative : Bool} {pattern : Nat} (h : f.parts bits = .finite negative pattern) :
    f.withSign negative pattern = bits ∧ pattern < f.infinity := by
  refine ⟨?_, lt_infinity_of_parts h⟩
  rw [parts] at h
  split at h
  · obtain ⟨rfl, rfl⟩ := FloatParts.finite.inj h
    exact f.withSign_mod hbits
  · split at h <;> cases h

/-- The bits of an infinite number are its sign and the pattern of infinity. -/
theorem withSign_of_parts_infinite {f : BinaryFormat} {bits : Nat} (hbits : bits < 2 * f.signBit)
    {negative : Bool} (h : f.parts bits = .infinite negative) :
    f.withSign negative f.infinity = bits := by
  rw [parts] at h
  split at h
  · cases h
  · split at h
    · next hinfinite =>
      rw [← FloatParts.infinite.inj h, ← hinfinite]
      exact f.withSign_mod hbits
    · cases h

/-- The bits of what a number is. -/
def bitsOf (f : BinaryFormat) : FloatParts → Nat
  | .nan => f.infinity + f.binade / 2
  | .infinite negative => f.withSign negative f.infinity
  | .finite negative pattern => f.withSign negative pattern

end BinaryFormat

/-! ## Double precision

Numbers that are none lose their bits on the way, as the language has only one of them. All others keep
them. -/

namespace Double

open Float.Model Float.Model.UnpackedFloat

theorem toBits_ofBits {b : UInt64}
    (h : b.toNat % BinaryFormat.double.signBit ≤ BinaryFormat.double.infinity) :
    (Float.ofBits b).toBits = b := by
  have hvalid : Format.binary64.Valid b.toBitVec := valid_of_le (S := .binary64) b.toBitVec h
  rw [Float.toBits, Float.ofBits, Float.Model.ofBits, Float.Model.pack]
  exact congrArg UInt64.ofBitVec (pack_unpack_of_valid hvalid)

/-- The bits of a sign and a pattern up to infinity survive. -/
theorem toBits_ofPattern (negative : Bool) {pattern : Nat}
    (h : pattern ≤ BinaryFormat.double.infinity) :
    (ofPattern negative pattern).toBits.toNat = BinaryFormat.double.withSign negative pattern := by
  obtain ⟨hbits, hmod⟩ := BinaryFormat.double.withSign_lt negative h
  have hnat : (UInt64.ofNat (BinaryFormat.double.withSign negative pattern)).toNat =
      BinaryFormat.double.withSign negative pattern := UInt64.toNat_ofNat_of_lt hbits
  rw [ofPattern, ofBits, toBits_ofBits (by rwa [hnat, hmod]), hnat]

/-- A sign and a pattern below infinity make a finite number. -/
theorem parts_ofPattern (negative : Bool) {pattern : Nat}
    (h : pattern < BinaryFormat.double.infinity) :
    parts (ofPattern negative pattern) = .finite negative pattern := by
  rw [parts, toBits_ofPattern negative (Nat.le_of_lt h), BinaryFormat.parts_withSign _ _ h]

/-- A finite number is made of its sign and its pattern. -/
theorem ofPattern_of_parts {x : Float} {negative : Bool} {pattern : Nat}
    (h : parts x = .finite negative pattern) :
    ofPattern negative pattern = x ∧ pattern < BinaryFormat.double.infinity := by
  obtain ⟨hbits, hlt⟩ := BinaryFormat.withSign_of_parts (f := .double) x.toBits.toNat_lt h
  refine ⟨?_, hlt⟩
  rw [ofPattern, hbits, ofBits, UInt64.ofNat_toNat, Float.ofBits_toBits]

/-- The finite numbers are those with a sign and a pattern. -/
theorem isFinite_iff (x : Float) :
    x.isFinite = true ↔ ∃ negative pattern, parts x = .finite negative pattern := by
  have hmodel : x.isFinite = ((parts x).unpacked .double).isFinite := by
    rw [Float.isFinite, Float.Model.isFinite, Float.Model.unpack]
    exact congrArg _ (unpack_eq (S := .binary64) x.toBits.toBitVec)
  rw [hmodel]
  cases hx : parts x with
  | nan => simp [FloatParts.unpacked, Float.Model.UnpackedFloat.isFinite]
  | infinite negative => simp [FloatParts.unpacked, Float.Model.UnpackedFloat.isFinite]
  | finite negative pattern =>
    refine iff_of_true ?_ ⟨negative, pattern, rfl⟩
    rw [FloatParts.unpacked]
    split <;> rfl

end Double

/-! ## Single precision -/

namespace Single

open Float.Model Float.Model.UnpackedFloat

theorem toBits_ofBits {b : UInt32}
    (h : b.toNat % BinaryFormat.single.signBit ≤ BinaryFormat.single.infinity) :
    (Float32.ofBits b).toBits = b := by
  have hvalid : Format.binary32.Valid b.toBitVec := valid_of_le (S := .binary32) b.toBitVec h
  rw [Float32.toBits, Float32.ofBits, Float32.Model.ofBits, Float32.Model.pack]
  exact congrArg UInt32.ofBitVec (pack_unpack_of_valid hvalid)

/-- The bits of a sign and a pattern up to infinity survive. -/
theorem parts_ofBits (negative : Bool) {pattern : Nat} (h : pattern ≤ BinaryFormat.single.infinity) :
    parts (ofBits (BinaryFormat.single.withSign negative pattern)) =
      BinaryFormat.single.parts (BinaryFormat.single.withSign negative pattern) := by
  obtain ⟨hbits, hmod⟩ := BinaryFormat.single.withSign_lt negative h
  have hnat : (UInt32.ofNat (BinaryFormat.single.withSign negative pattern)).toNat =
      BinaryFormat.single.withSign negative pattern := UInt32.toNat_ofNat_of_lt hbits
  rw [parts, ofBits, toBits_ofBits (by rwa [hnat, hmod]), hnat]

/-- The one number that is none. -/
theorem toBits_of_parts_nan {x : Float32} (h : parts x = .nan) :
    BinaryFormat.single.bitsOf .nan = x.toBits.toNat := by
  have hvalid := x.toModel.valid
  have hparts := parts_toNat (S := .binary32) x.toBits.toBitVec
  rw [show (BinaryFormat.ofModel .binary32).parts x.toBits.toBitVec.toNat = .nan from h] at hparts
  split at hparts
  · cases hparts
  · next hones =>
    split at hparts
    · cases hparts
    · next hfraction =>
      have hbits := hvalid.eq_packedNaN (not_not.1 hones) hfraction
      have hnan : BinaryFormat.single.bitsOf .nan =
          (Float.Model.UnpackedFloat.packedNaN .binary32).toNat := by decide
      rw [hnan, ← hbits]
      rfl

/-- **A number is told by what it is.** -/
theorem ofBits_bitsOf (x : Float32) : ofBits (BinaryFormat.single.bitsOf (parts x)) = x := by
  have hlt : x.toBits.toNat < 2 * BinaryFormat.single.signBit := x.toBits.toNat_lt
  have hbits : BinaryFormat.single.bitsOf (parts x) = x.toBits.toNat := by
    cases hx : parts x with
    | nan => exact toBits_of_parts_nan hx
    | infinite negative => exact BinaryFormat.withSign_of_parts_infinite hlt hx
    | finite negative pattern => exact (BinaryFormat.withSign_of_parts hlt hx).1
  rw [hbits, ofBits, UInt32.ofNat_toNat, Float32.ofBits_toBits]

end Single

end FieldDiagram
