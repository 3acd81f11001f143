import Mathlib.Analysis.SpecialFunctions.Trigonometric.Basic
import FieldDiagram.Scalar.Basic
/-!
# Exact numbers as coordinates

The real numbers, in which nothing is rounded: what the geometry of a diagram means, apart from what
machine numbers make of it.
-/

namespace FieldDiagram

noncomputable section

open Classical in
instance : Scalar ℝ where
  ofNat n := n
  lt x y := decide (x < y)
  le x y := decide (x ≤ y)
  min := min
  abs x := |x|
  sqrt := Real.sqrt
  hypot x y := Real.sqrt (x ^ 2 + y ^ 2)
  sin := Real.sin
  cos := Real.cos
  round x := if 0 ≤ x then ⌊x + 1 / 2⌋ else -⌊-x + 1 / 2⌋
  isFinite _ := true
  quarterTurn := Real.pi / 2
  fullTurn := 2 * Real.pi

end

namespace Scalar

@[simp] theorem zero_real : (zero : ℝ) = 0 := Nat.cast_zero

@[simp] theorem one_real : (one : ℝ) = 1 := Nat.cast_one

@[simp] theorem sin_real (x : ℝ) : sin x = Real.sin x := rfl

@[simp] theorem cos_real (x : ℝ) : cos x = Real.cos x := rfl

@[simp] theorem fullTurn_real : (fullTurn : ℝ) = 2 * Real.pi := rfl

@[simp] theorem ofNat_real (n : Nat) : (ofNat n : ℝ) = n := rfl

@[simp] theorem quarterTurn_real : (quarterTurn : ℝ) = Real.pi / 2 := rfl

@[simp] theorem hypot_real (x y : ℝ) : hypot x y = Real.sqrt (x ^ 2 + y ^ 2) := rfl

theorem half_real : (half : ℝ) = 1 / 2 := by
  simp [half]

theorem round_real (x : ℝ) : round x = if 0 ≤ x then (⌊x + 1 / 2⌋ : ℝ) else -⌊-x + 1 / 2⌋ := rfl

theorem abs_real (x : ℝ) : abs x = |x| := rfl

theorem sqrt_real (x : ℝ) : sqrt x = Real.sqrt x := rfl

theorem min_real (x y : ℝ) : min x y = Min.min x y := rfl

theorem lt_real_iff {x y : ℝ} : lt x y = true ↔ x < y := decide_eq_true_iff

theorem le_real_iff {x y : ℝ} : le x y = true ↔ x ≤ y := decide_eq_true_iff

theorem isWidth_real_iff {w : ℝ} : isWidth w = true ↔ 0 < w := by
  rw [isWidth, Bool.and_eq_true, lt_real_iff, zero_real]
  exact and_iff_right rfl

theorem isOpacity_real_iff {v : ℝ} : isOpacity v = true ↔ 0 ≤ v ∧ v ≤ 1 := by
  rw [isOpacity, Bool.and_eq_true, le_real_iff, le_real_iff, zero_real, one_real]

theorem isOpacity_one_real : isOpacity (one : ℝ) = true :=
  isOpacity_real_iff.2 (by simp)

theorem sign_real (v : ℝ) : sign v = if 0 < v then 1 else if v < 0 then -1 else 0 := by
  simp only [sign, zero_real, one_real, lt_real_iff]

theorem sign_zero : sign (0 : ℝ) = 0 := by
  simp [sign_real]

theorem sign_of_pos {v : ℝ} (h : 0 < v) : sign v = 1 := by
  rw [sign_real, if_pos h]

theorem sign_of_neg {v : ℝ} (h : v < 0) : sign v = -1 := by
  rw [sign_real, if_neg h.not_gt, if_pos h]

end Scalar

end FieldDiagram
