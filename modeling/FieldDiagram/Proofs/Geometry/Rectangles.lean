import Mathlib
import FieldDiagram.Proofs.Geometry.Factor
import FieldDiagram.Proofs.Geometry.FieldMap
/-!
# Rectangles and their points

A pass counts in logical pixels, and what it draws lies on the device. All lengths are multiplied by the
ratio of the surface on the way, so a rectangle becomes a rectangle, and the field's square fills the one
that its own rectangle becomes. Whether one rectangle lies inside another is a question about the ends of
their sides.
-/

namespace FieldDiagram

/-! ## Products

Points are pairs, and a rectangle is a product of two intervals. -/

/-- A map that treats each coordinate by itself takes products to products. -/
theorem Point.image_product_each (f g : ℝ → ℝ) (xs ys : Set ℝ) :
    (fun p : Point ℝ => (⟨f p.x, g p.y⟩ : Point ℝ)) '' product xs ys = product (f '' xs) (g '' ys) := by
  ext q
  constructor
  · rintro ⟨p, ⟨hx, hy⟩, rfl⟩
    exact ⟨Set.mem_image_of_mem f hx, Set.mem_image_of_mem g hy⟩
  · rintro ⟨⟨x, hx, hfx⟩, y, hy, hgy⟩
    refine ⟨⟨x, y⟩, ⟨hx, hy⟩, ?_⟩
    ext
    · exact hfx
    · exact hgy

theorem Point.product_subset_iff {xs ys us vs : Set ℝ} (hxs : xs.Nonempty) (hys : ys.Nonempty) :
    product xs ys ⊆ product us vs ↔ xs ⊆ us ∧ ys ⊆ vs := by
  obtain ⟨x₀, hx₀⟩ := hxs
  obtain ⟨y₀, hy₀⟩ := hys
  constructor
  · intro hsubset
    refine ⟨?_, ?_⟩
    · intro x hx
      have hpoint : (⟨x, y₀⟩ : Point ℝ) ∈ product us vs := hsubset ⟨hx, hy₀⟩
      exact hpoint.1
    · intro y hy
      have hpoint : (⟨x₀, y⟩ : Point ℝ) ∈ product us vs := hsubset ⟨hx₀, hy⟩
      exact hpoint.2
  · rintro ⟨hus, hvs⟩ p ⟨hx, hy⟩
    exact ⟨hus hx, hvs hy⟩

namespace FieldRect

/-! ## Inside

An interval lies inside another if its ends do, also where one of them is turned round. -/

/-- One rectangle lies inside another exactly if the ends of its sides do. -/
theorem points_subset_iff {a b : FieldRect ℝ} :
    a.points ⊆ b.points ↔
      (a.x ∈ Set.uIcc b.x (b.x + b.width) ∧ a.x + a.width ∈ Set.uIcc b.x (b.x + b.width)) ∧
        a.y ∈ Set.uIcc b.y (b.y + b.height) ∧ a.y + a.height ∈ Set.uIcc b.y (b.y + b.height) := by
  rw [points, points, Point.product_subset_iff Set.nonempty_uIcc Set.nonempty_uIcc,
    Set.uIcc_subset_uIcc_iff_mem, Set.uIcc_subset_uIcc_iff_mem]

/-! ## On the device

The scale of a surface is one ratio for both axes. -/

/-- The rectangle of device pixels that a rectangle of logical pixels becomes. -/
def onDevice (ratio : ℝ) (rect : FieldRect ℝ) : FieldRect ℝ :=
  ⟨ratio * rect.x, ratio * rect.y, ratio * rect.width, ratio * rect.height⟩

theorem image_points (ratio : ℝ) (rect : FieldRect ℝ) :
    (Affine.scaling ratio ratio).onPoint '' rect.points = (rect.onDevice ratio).points := by
  have heach : (Affine.scaling ratio ratio).onPoint =
      fun p : Point ℝ => ⟨ratio * p.x, ratio * p.y⟩ := by
    funext p
    exact Affine.onPoint_scaling ratio ratio p
  rw [heach, points, Point.image_product_each (ratio * ·) (ratio * ·), Set.image_const_mul_uIcc,
    Set.image_const_mul_uIcc, mul_add, mul_add]
  rfl

/-- What lies inside in logical pixels lies inside on the device, and the other way round. -/
theorem onDevice_subset_iff {ratio : ℝ} (hratio : ratio ≠ 0) {a b : FieldRect ℝ} :
    (a.onDevice ratio).points ⊆ (b.onDevice ratio).points ↔ a.points ⊆ b.points := by
  have hinjective : Function.Injective (Affine.scaling ratio ratio).onPoint :=
    Affine.onPoint_injective (by rw [Affine.determinant_scaling]; exact mul_ne_zero hratio hratio)
  rw [← image_points, ← image_points, Set.image_subset_image_iff hinjective]

/-- Over the scale of a surface the base transform lets the field's square fill the device rectangle. -/
theorem image_square_onDevice {fieldSize : ℝ} (hsize : fieldSize ≠ 0) (ratio : ℝ) (rect : FieldRect ℝ) :
    (rect.baseTransform (.identity * .scaling ratio ratio) fieldSize).onPoint '' square fieldSize =
      (rect.onDevice ratio).points := by
  have hsteps : (rect.baseTransform (.identity * .scaling ratio ratio) fieldSize).onPoint =
      (Affine.scaling ratio ratio).onPoint ∘ rect.place fieldSize := by
    funext p
    rw [onPoint_baseTransform, Affine.identity_mul, Function.comp_apply]
  rw [hsteps, Set.image_comp, image_square hsize, image_points]

end FieldRect

/-! ## The whole surface -/

namespace SurfaceSize

/-- The surface in logical pixels. -/
noncomputable def logicalArea (size : SurfaceSize ℝ) : FieldRect ℝ :=
  ⟨0, 0, size.logical.x, size.logical.y⟩

/-- The surface in device pixels. -/
def area (size : SurfaceSize ℝ) : FieldRect ℝ := ⟨0, 0, size.width, size.height⟩

theorem onDevice_logicalArea {size : SurfaceSize ℝ} (hratio : size.ratio ≠ 0) :
    size.logicalArea.onDevice size.ratio = size.area := by
  simp only [FieldRect.onDevice, logicalArea, area, logical, mul_zero, mul_div_cancel₀ _ hratio]

end SurfaceSize

end FieldDiagram
