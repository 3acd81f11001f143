import Mathlib
import FieldDiagram.Proofs.Canvas.SnappedPath
import FieldDiagram.Proofs.Geometry.Exact
import FieldDiagram.Proofs.Geometry.PixelGrid
/-!
# Snapped points under maps along the axes

Snapping takes the pixels of a unit from the rows of a map: how many there are to a unit along each axis
of the device. They are applied to the axes of user space. As long as each axis of user space lies along
the axis of the device with the same name, a snapped point comes to lie on the grid and close to where
it was. Behind an odd number of quarter turns the axes have changed places, and then the snapped points
lie where they belong only if both axes have as many pixels to a unit: `snapsToPixels_iff`.
-/

namespace FieldDiagram

/-! ## One coordinate

Everything about such maps can be said of one axis, with the number of pixels to a unit that there are, and
the number that snapping takes for it. If they differ, there is a coordinate that shows it. -/

theorem OnHalfPixel.add_intCast {d : ℝ} (h : OnHalfPixel d) (t : ℤ) : OnHalfPixel (d + t) := by
  rw [onHalfPixel_iff] at h ⊢
  obtain ⟨k, rfl⟩ := h
  refine ⟨k + 2 * t, ?_⟩
  push_cast
  ring

/-- Whether a coordinate that is snapped is on the grid of the device and close to where it was. -/
def LandsOnPixel (snapped plain : ℝ) : Prop := OnHalfPixel snapped ∧ |snapped - plain| ≤ Scalar.half

/-- With as many pixels to a unit as there are, whichever way the axis points, a coordinate is snapped
where it lies on the device. -/
theorem mul_alignCoord_abs {k : ℝ} (hk : k ≠ 0) (x : ℝ) : k * alignCoord x |k| = snapPixel (k * x) := by
  rcases lt_or_gt_of_ne hk with hneg | hpos
  · have hdevice := mul_alignCoord (neg_ne_zero.2 hk) x
    rw [neg_mul, neg_mul, snapPixel_neg] at hdevice
    rw [abs_of_neg hneg, neg_inj.1 hdevice]
  · rw [abs_of_pos hpos, mul_alignCoord hk]

/-- With too many pixels to a unit a coordinate is left alone that is not on the grid of the device. -/
theorem exists_not_onHalfPixel {k s : ℝ} (hk : k ≠ 0) (hless : |k| < s) (t : ℤ) :
    ∃ x, ¬ OnHalfPixel (k * alignCoord x s + t) := by
  have hs : 0 < s := lt_of_le_of_lt (abs_nonneg k) hless
  -- the middle of the first pixel, as it is counted in user space
  refine ⟨1 / 2 / s, ?_⟩
  have hfixed : alignCoord (1 / 2 / s) s = 1 / 2 / s := by
    rw [alignCoord_eq, div_mul_cancel₀ _ hs.ne', snapPixel_of_mem (n := 0) (by norm_num) (by norm_num),
      Int.cast_zero, zero_add]
  rw [hfixed, onHalfPixel_iff]
  rintro ⟨m, hm⟩
  have hratio : k / s = ((m - 2 * t : ℤ) : ℝ) := by
    push_cast
    linear_combination 2 * hm
  have hsmall : |((m - 2 * t : ℤ) : ℝ)| < 1 := by
    rw [← hratio, abs_div, abs_of_pos hs, div_lt_one hs]
    exact hless
  have hzero : m - 2 * t = 0 := Int.abs_lt_one_iff.1 (by exact_mod_cast hsmall)
  rw [hzero, Int.cast_zero] at hratio
  exact div_ne_zero hk hs.ne' hratio

/-- With too few pixels to a unit a coordinate is moved too far. -/
theorem exists_far {k s : ℝ} (hs : 0 < s) (hmore : s < |k|) :
    ∃ x, 1 / 2 < |k * alignCoord x s - k * x| := by
  have hk : 0 < |k| := hs.trans hmore
  have hfraction : s / |k| < 1 := (div_lt_one hk).2 hmore
  have hpositive : 0 < s / |k| := div_pos hs hk
  -- a place in the first pixel, so close to its boundary that the way to its middle is too long
  obtain ⟨u, hu⟩ : ∃ u, u = (1 - s / |k|) / 4 := ⟨_, rfl⟩
  refine ⟨u / s, ?_⟩
  have hmoved : alignCoord (u / s) s = 1 / 2 / s := by
    have hlower : ((0 : ℤ) : ℝ) < u := by
      rw [Int.cast_zero]
      linarith
    have hupper : u < ((0 : ℤ) : ℝ) + 1 := by
      rw [Int.cast_zero]
      linarith
    rw [alignCoord_eq, div_mul_cancel₀ _ hs.ne', snapPixel_of_mem hlower hupper, Int.cast_zero, zero_add]
  have hshift : k * (1 / 2 / s) - k * (u / s) = k / s * (1 / 2 - u) := by ring
  have hdistance : |k| / s * (1 / 2 - u) = |k| / s / 4 + 1 / 4 := by
    rw [hu]
    field_simp
    ring
  have hlarge : 1 < |k| / s := (one_lt_div hs).2 hmore
  have hbelow : 0 < 1 / 2 - u := by linarith
  rw [hmoved, hshift, abs_mul, abs_div, abs_of_pos hs, abs_of_pos hbelow, hdistance]
  linarith

/-- **The right number of pixels to a unit** is the one that there are, and no other will do. -/
theorem landsOnPixel_iff {k s : ℝ} (hk : k ≠ 0) (hs : 0 < s) (t : ℤ) :
    (∀ x, LandsOnPixel (k * alignCoord x s + t) (k * x + t)) ↔ |k| = s := by
  constructor
  · intro hall
    by_contra hne
    rcases lt_or_gt_of_ne hne with hless | hmore
    · obtain ⟨x, hx⟩ := exists_not_onHalfPixel hk hless t
      exact hx (hall x).1
    · obtain ⟨x, hx⟩ := exists_far hs hmore
      have hnear := (hall x).2
      rw [add_sub_add_right_eq_sub, Scalar.half_real] at hnear
      linarith
  · rintro rfl x
    rw [mul_alignCoord_abs hk]
    refine ⟨(onHalfPixel_snapPixel _).add_intCast t, ?_⟩
    rw [add_sub_add_right_eq_sub, Scalar.half_real]
    exact abs_snapPixel_sub_le _

namespace Affine

/-! ## Maps along the axes

Such a map either leaves both axes in their places or exchanges them, so of its four entries two are zero. -/

/-- Maps that stretch along the axes, maybe turning them round, and turn by quarters, as often as one
likes and in any order. -/
inductive AxisParallel : Affine ℝ → Prop
  | identity : AxisParallel .identity
  | stretch {m : Affine ℝ} (h : AxisParallel m) {x y : ℝ} (hx : x ≠ 0) (hy : y ≠ 0) :
    AxisParallel (m * .scaling x y)
  | turn {m : Affine ℝ} (h : AxisParallel m) : AxisParallel (m * .rotation Scalar.quarterTurn)

/-- Whether a map leaves each axis in its place. -/
def KeepsAxes (m : Affine ℝ) : Prop := m.b = 0 ∧ m.c = 0 ∧ m.a ≠ 0 ∧ m.d ≠ 0

/-- Whether a map puts each axis in the place of the other. -/
def SwapsAxes (m : Affine ℝ) : Prop := m.a = 0 ∧ m.d = 0 ∧ m.b ≠ 0 ∧ m.c ≠ 0

theorem keepsAxes_or_swapsAxes {m : Affine ℝ} (h : m.AxisParallel) :
    (m.KeepsAxes ∨ m.SwapsAxes) ∧ m.e = 0 ∧ m.f = 0 := by
  -- a stretch keeps which entries are zero, and a quarter turn swaps the columns
  induction h with
  | identity =>
    refine ⟨Or.inl ⟨?_, ?_, ?_, ?_⟩, ?_, ?_⟩ <;> simp [Affine.identity]
  | @stretch m _ x y hx hy ih =>
    obtain ⟨haxes, he, hf⟩ := ih
    have hparts : m * .scaling x y = ⟨m.a * x, m.b * x, m.c * y, m.d * y, m.e, m.f⟩ := by
      ext <;> simp [mul_eq_comp, comp, onVector, scaling]
    rw [hparts]
    refine ⟨haxes.imp ?_ ?_, he, hf⟩
    · rintro ⟨hb, hc, ha, hd⟩
      exact ⟨mul_eq_zero_of_left hb x, mul_eq_zero_of_left hc y, mul_ne_zero ha hx, mul_ne_zero hd hy⟩
    · rintro ⟨ha, hd, hb, hc⟩
      exact ⟨mul_eq_zero_of_left ha x, mul_eq_zero_of_left hd y, mul_ne_zero hb hx, mul_ne_zero hc hy⟩
  | @turn m _ ih =>
    obtain ⟨haxes, he, hf⟩ := ih
    have hparts : m * .rotation Scalar.quarterTurn = ⟨m.c, m.d, -m.a, -m.b, m.e, m.f⟩ := by
      ext <;> simp [mul_eq_comp, comp, onVector, rotation]
    rw [hparts]
    refine ⟨haxes.symm.imp ?_ ?_, he, hf⟩
    · rintro ⟨ha, hd, hb, hc⟩
      exact ⟨hd, neg_eq_zero.2 ha, hc, neg_ne_zero.2 hb⟩
    · rintro ⟨hb, hc, ha, hd⟩
      exact ⟨hc, neg_eq_zero.2 hb, hd, neg_ne_zero.2 ha⟩

/-! ## Snapped points

Where the axes have changed places, snapping takes for each axis the number of the other one. -/

/-- Whether every snapped point lies on the grid of the device and close to where it was. -/
def SnapsToPixels (m : Affine ℝ) : Prop :=
  ∀ p, LandsOnPixel (m.snapped p).x (m.onPoint p).x ∧ LandsOnPixel (m.snapped p).y (m.onPoint p).y

/-- A map that is followed by a displacement. -/
theorem displacement_mul (x y : ℝ) (m : Affine ℝ) :
    displacement ⟨x, y⟩ * m = ⟨m.a, m.b, m.c, m.d, m.e + x, m.f + y⟩ := by
  ext <;> simp [mul_eq_comp, comp, onVector, displacement]

/-- **Where snapped points lie on the grid.** Under a map along the axes that is followed by a
displacement of whole pixels, all of them do if the map leaves the axes in their places; where the axes
have changed places, they do exactly if both axes have as many pixels to a unit. -/
theorem snapsToPixels_iff {m : Affine ℝ} (h : m.AxisParallel) (i j : ℤ) :
    (displacement ⟨(i : ℝ), j⟩ * m).SnapsToPixels ↔
      m.KeepsAxes ∨ m.scalingFactors.x = m.scalingFactors.y := by
  obtain ⟨haxes, he, hf⟩ := keepsAxes_or_swapsAxes h
  rw [displacement_mul, he, hf, zero_add, zero_add]
  simp only [SnapsToPixels, snapped, onPoint, onVector, align, scalingFactors, Scalar.hypot_real]
  rcases haxes with ⟨hb, hc, ha, hd⟩ | ⟨ha, hd, hb, hc⟩
  · have hkeeps : m.KeepsAxes := ⟨hb, hc, ha, hd⟩
    refine iff_of_true (fun p => ?_) (Or.inl hkeeps)
    simp only [hb, hc, zero_mul, zero_add, add_zero, ne_eq, OfNat.ofNat_ne_zero, not_false_eq_true,
      zero_pow, Real.sqrt_sq_eq_abs]
    exact ⟨(landsOnPixel_iff ha (abs_pos.2 ha) i).2 rfl _, (landsOnPixel_iff hd (abs_pos.2 hd) j).2 rfl _⟩
  · have hnot : ¬ m.KeepsAxes := fun hkeeps => hb hkeeps.1
    simp only [ha, hd, zero_mul, zero_add, add_zero, ne_eq, OfNat.ofNat_ne_zero, not_false_eq_true,
      zero_pow, Real.sqrt_sq_eq_abs, hnot, false_or]
    -- each coordinate is snapped with the pixels of the other axis
    constructor
    · intro hall
      exact (landsOnPixel_iff hc (abs_pos.2 hb) i).1 fun x => (hall ⟨0, x⟩).1
    · intro heq p
      exact ⟨(landsOnPixel_iff hc (abs_pos.2 hb) i).2 heq _,
        (landsOnPixel_iff hb (abs_pos.2 hc) j).2 heq.symm _⟩

end Affine

end FieldDiagram
