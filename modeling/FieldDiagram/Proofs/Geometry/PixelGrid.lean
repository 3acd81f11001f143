import Mathlib
import FieldDiagram.Geometry.PixelGrid
import FieldDiagram.Proofs.Scalar.Exact
/-!
# Snapped coordinates

Seen on the device, snapping leaves a whole coordinate alone and moves any other to the middle of its
pixel. Everything about it follows from these two cases: `snapPixel_cases` on the device, and
`alignCoord_mul` for what becomes of a coordinate in user space.

Main statement: `alignCoord_snaps`.
-/

namespace FieldDiagram

/-! ## On the device

With one pixel to a unit snapping is a function of one number. All that is claimed of it is proved here, by
the two cases. -/

/-- Whether a coordinate is a boundary or the middle of a pixel: a multiple of one half. -/
def OnHalfPixel (d : ℝ) : Prop := ∃ k : ℤ, d = k * Scalar.half

/-- The place of a device coordinate on the grid: itself on a boundary, else the middle of its pixel. -/
noncomputable def snapPixel (d : ℝ) : ℝ := if d = ⌊d⌋ then d else ⌊d⌋ + Scalar.half

theorem onHalfPixel_iff {d : ℝ} : OnHalfPixel d ↔ ∃ k : ℤ, d = k / 2 := by
  simp only [OnHalfPixel, Scalar.half_real, mul_one_div]

theorem snapPixel_intCast (n : ℤ) : snapPixel n = n := by
  rw [snapPixel, Int.floor_intCast, if_pos rfl]

theorem snapPixel_of_mem {d : ℝ} {n : ℤ} (hlower : n < d) (hupper : d < n + 1) :
    snapPixel d = n + 1 / 2 := by
  have hfloor : ⌊d⌋ = n := Int.floor_eq_iff.2 ⟨hlower.le, hupper⟩
  rw [snapPixel, hfloor, if_neg hlower.ne', Scalar.half_real]

/-- A coordinate is a boundary or lies inside a pixel. -/
theorem snapPixel_cases (d : ℝ) :
    (∃ n : ℤ, d = n ∧ snapPixel d = n) ∨
      ∃ n : ℤ, n < d ∧ d < n + 1 ∧ snapPixel d = n + 1 / 2 := by
  rcases (Int.floor_le d).eq_or_lt with hwhole | hinside
  · left
    refine ⟨⌊d⌋, hwhole.symm, ?_⟩
    rw [← hwhole, Int.floor_intCast, snapPixel_intCast]
  · right
    have hupper := Int.lt_floor_add_one d
    exact ⟨⌊d⌋, hinside, hupper, snapPixel_of_mem hinside hupper⟩

theorem onHalfPixel_snapPixel (d : ℝ) : OnHalfPixel (snapPixel d) := by
  rw [onHalfPixel_iff]
  rcases snapPixel_cases d with ⟨n, -, hsnap⟩ | ⟨n, -, -, hsnap⟩
  · refine ⟨2 * n, ?_⟩
    rw [hsnap]
    push_cast
    ring
  · refine ⟨2 * n + 1, ?_⟩
    rw [hsnap]
    push_cast
    ring

theorem abs_snapPixel_sub_le (d : ℝ) : |snapPixel d - d| ≤ 1 / 2 := by
  rw [abs_le]
  rcases snapPixel_cases d with ⟨n, hd, hsnap⟩ | ⟨n, hlower, hupper, hsnap⟩
  · rw [hsnap, ← hd]
    norm_num
  · rw [hsnap]
    constructor <;> linarith

/-- Exactly the multiples of one half stay where they are. -/
theorem snapPixel_eq_self_iff (d : ℝ) : snapPixel d = d ↔ OnHalfPixel d := by
  constructor
  · intro h
    rw [← h]
    exact onHalfPixel_snapPixel d
  · rw [onHalfPixel_iff]
    rintro ⟨k, rfl⟩
    obtain ⟨n, rfl | rfl⟩ := k.even_or_odd'
    · have hwhole : ((2 * n : ℤ) : ℝ) / 2 = n := by
        push_cast
        ring
      rw [hwhole, snapPixel_intCast]
    · have hmiddle : ((2 * n + 1 : ℤ) : ℝ) / 2 = n + 1 / 2 := by
        push_cast
        ring
      rw [hmiddle, snapPixel_of_mem (n := n) (by linarith) (by linarith)]

theorem snapPixel_snapPixel (d : ℝ) : snapPixel (snapPixel d) = snapPixel d :=
  (snapPixel_eq_self_iff _).2 (onHalfPixel_snapPixel d)

theorem snapPixel_neg (d : ℝ) : snapPixel (-d) = -snapPixel d := by
  rcases snapPixel_cases d with ⟨n, hd, hsnap⟩ | ⟨n, hlower, hupper, hsnap⟩
  · rw [hsnap, hd, ← Int.cast_neg, snapPixel_intCast]
  · -- the pixel below `-n` is the mirror image of the one above `n`
    have hlower' : ((-(n + 1) : ℤ) : ℝ) < -d := by
      push_cast
      linarith
    have hupper' : -d < ((-(n + 1) : ℤ) : ℝ) + 1 := by
      push_cast
      linarith
    rw [hsnap, snapPixel_of_mem hlower' hupper']
    push_cast
    ring

theorem snapPixel_mono : Monotone snapPixel := by
  intro d e hde
  have hfloor : ⌊d⌋ ≤ ⌊e⌋ := Int.floor_mono hde
  have hlower := Int.floor_le d
  have hlower' := Int.floor_le e
  have hupper := Int.lt_floor_add_one d
  unfold snapPixel
  rw [Scalar.half_real]
  split_ifs with hd he he
  · exact hde
  · have hcast : (⌊d⌋ : ℝ) ≤ ⌊e⌋ := by exact_mod_cast hfloor
    linarith
  · -- `e` is a boundary above the pixel of `d`
    have hlt : ⌊d⌋ < ⌊e⌋ := by
      have hstrict : (⌊d⌋ : ℝ) < e := lt_of_lt_of_le (lt_of_le_of_ne hlower (Ne.symm hd)) hde
      rw [he] at hstrict
      exact_mod_cast hstrict
    have hcast : (⌊d⌋ : ℝ) + 1 ≤ ⌊e⌋ := by exact_mod_cast hlt
    linarith
  · have hcast : (⌊d⌋ : ℝ) ≤ ⌊e⌋ := by exact_mod_cast hfloor
    linarith

/-! ## In user space

Coordinates are scaled to the device, snapped there and scaled back. The program does it by rounding and a
push of half a pixel; whichever way it rounds, the push leads to the middle of the same pixel. -/

theorem round_eq_or {d : ℝ} {n : ℤ} (hlower : n < d) (hupper : d < n + 1) :
    Scalar.round d = (n : ℝ) ∨ Scalar.round d = (n + 1 : ℝ) := by
  rw [Scalar.round_real]
  split
  · have hfloor : ⌊d + 1 / 2⌋ = n ∨ ⌊d + 1 / 2⌋ = n + 1 := by
      have h₁ : n ≤ ⌊d + 1 / 2⌋ := Int.le_floor.2 (by linarith)
      have h₂ : ⌊d + 1 / 2⌋ < n + 2 := Int.floor_lt.2 (by push_cast; linarith)
      omega
    rcases hfloor with h | h
    · exact Or.inl (by rw [h])
    · exact Or.inr (by rw [h]; push_cast; rfl)
  · have hfloor : ⌊-d + 1 / 2⌋ = -n ∨ ⌊-d + 1 / 2⌋ = -n - 1 := by
      have h₁ : -n - 1 ≤ ⌊-d + 1 / 2⌋ := Int.le_floor.2 (by push_cast; linarith)
      have h₂ : ⌊-d + 1 / 2⌋ < -n + 1 := Int.floor_lt.2 (by push_cast; linarith)
      omega
    rcases hfloor with h | h
    · exact Or.inl (by rw [h]; push_cast; ring)
    · exact Or.inr (by rw [h]; push_cast; ring)

theorem round_intCast (n : ℤ) : Scalar.round (n : ℝ) = n := by
  have hhalf : ∀ m : ℤ, ⌊(m : ℝ) + 1 / 2⌋ = m := fun m =>
    Int.floor_eq_iff.2 ⟨by linarith, by linarith⟩
  rw [Scalar.round_real]
  split
  · rw [hhalf]
  · have hneg := hhalf (-n)
    rw [Int.cast_neg] at hneg
    rw [hneg, Int.cast_neg, neg_neg]

/-- Rounding and then pushing by half a pixel, towards the side where the coordinate was, is snapping. -/
theorem alignCoord_eq (x s : ℝ) : alignCoord x s = snapPixel (x * s) / s := by
  have hpush : ∀ d : ℝ,
      Scalar.round d + Scalar.half * Scalar.sign (d - Scalar.round d) = snapPixel d := by
    intro d
    rcases snapPixel_cases d with ⟨n, rfl, hsnap⟩ | ⟨n, hlower, hupper, hsnap⟩
    · rw [hsnap, round_intCast, sub_self, Scalar.sign_zero, mul_zero, add_zero]
    · rw [hsnap, Scalar.half_real]
      -- the nearer boundary is below the coordinate or above it
      rcases round_eq_or hlower hupper with hround | hround
      · rw [hround, Scalar.sign_of_pos (by linarith)]
        ring
      · rw [hround, Scalar.sign_of_neg (by linarith)]
        ring
  rw [alignCoord, hpush]

theorem alignCoord_mul {s : ℝ} (hs : s ≠ 0) (x : ℝ) : alignCoord x s * s = snapPixel (x * s) := by
  rw [alignCoord_eq, div_mul_cancel₀ _ hs]

theorem mul_alignCoord {s : ℝ} (hs : s ≠ 0) (x : ℝ) : s * alignCoord x s = snapPixel (s * x) := by
  rw [mul_comm, alignCoord_mul hs, mul_comm]

/-- **Snapping a coordinate**, with a positive number of pixels to a unit. On the device a snapped
coordinate is a multiple of one half, and it is at most half a pixel away. What is snapped already is
left alone, and so is exactly what lies on a multiple of one half. Snapping goes with the change of
sign, and it keeps the order. -/
theorem alignCoord_snaps {s : ℝ} (hs : 0 < s) (x : ℝ) :
    OnHalfPixel (s * alignCoord x s) ∧
      |alignCoord x s - x| ≤ 1 / (2 * s) ∧
      alignCoord (alignCoord x s) s = alignCoord x s ∧
      alignCoord (-x) s = -alignCoord x s ∧
      (alignCoord x s = x ↔ OnHalfPixel (s * x)) ∧
      ∀ y, x ≤ y → alignCoord x s ≤ alignCoord y s := by
  have hdevice : ∀ x, alignCoord x s * s = snapPixel (x * s) := alignCoord_mul hs.ne'
  refine ⟨?half, ?near, ?again, ?neg, ?fixed, ?mono⟩
  case half =>
    rw [mul_comm, hdevice]
    exact onHalfPixel_snapPixel _
  case near =>
    have hscaled : |alignCoord x s - x| * s = |snapPixel (x * s) - x * s| := by
      rw [← hdevice, ← sub_mul, abs_mul, abs_of_pos hs]
    rw [one_div, mul_inv, ← div_eq_mul_inv, le_div_iff₀ hs, hscaled, ← one_div]
    exact abs_snapPixel_sub_le _
  case again =>
    apply mul_right_cancel₀ hs.ne'
    rw [hdevice, hdevice, snapPixel_snapPixel]
  case neg =>
    apply mul_right_cancel₀ hs.ne'
    rw [hdevice, neg_mul, snapPixel_neg, neg_mul, hdevice]
  case fixed =>
    rw [mul_comm s x, ← snapPixel_eq_self_iff, ← hdevice]
    exact (mul_left_inj' hs.ne').symm
  case mono =>
    intro y hxy
    apply le_of_mul_le_mul_right _ hs
    rw [hdevice, hdevice]
    exact snapPixel_mono (mul_le_mul_of_nonneg_right hxy hs.le)

/-- With two pixels to a unit, a little above ten goes to the middle of its pixel. -/
theorem alignCoord_snaps_at_two :
    (0 : ℝ) < 2 ∧ OnHalfPixel (2 * alignCoord (101 / 10 : ℝ) 2) ∧
      |alignCoord (101 / 10 : ℝ) 2 - 101 / 10| ≤ 1 / 4 ∧ alignCoord (101 / 10 : ℝ) 2 ≠ 101 / 10 ∧
      alignCoord (101 / 10 : ℝ) 2 ≤ alignCoord 11 2 := by
  have htwo : (0 : ℝ) < 2 := by norm_num
  obtain ⟨hhalf, hnear, -, -, hfixed, hmono⟩ := alignCoord_snaps htwo (101 / 10)
  refine ⟨htwo, hhalf, by norm_num at hnear ⊢; exact hnear, ?_, hmono 11 (by norm_num)⟩
  rw [ne_eq, hfixed, onHalfPixel_iff]
  rintro ⟨k, hk⟩
  have hfive : (202 : ℤ) = 5 * k := by
    have hreal : (202 : ℝ) = 5 * k := by linarith
    exact_mod_cast hreal
  omega

end FieldDiagram
