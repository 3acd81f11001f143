import Mathlib
import FieldDiagram.Geometry.FieldRect
import FieldDiagram.Proofs.Geometry.Exact
/-!
# From the field to a rectangle

The base transform goes in four steps to the rectangle of a field, and then on with the map that was there
before. What the four steps come to is one formula for each coordinate, `FieldRect.place`: the first axis
of the field points up the rectangle and the second one to its left. Each coordinate of the rectangle
depends on one coordinate of the field alone, so that the square of the field fills the rectangle and its
corners go to corners.
-/

namespace FieldDiagram

/-! ## Origin and rotation

Maps on top of another come first: a point is brought from its own axes to those below, and from there on. -/

/-- Where a point lies that is counted from an origin and along axes that are turned by an angle. -/
noncomputable def Point.layered (origin : Point ℝ) (angle : ℝ) (p : Point ℝ) : Point ℝ :=
  ⟨origin.x + (p.x * Real.cos angle - p.y * Real.sin angle),
    origin.y + (p.x * Real.sin angle + p.y * Real.cos angle)⟩

theorem Affine.onPoint_displacement (p q : Point ℝ) :
    (displacement p).onPoint q = ⟨p.x + q.x, p.y + q.y⟩ := by
  ext <;> simp [onPoint, onVector, displacement, add_comm]

/-- An origin and a rotation on top of a map. -/
theorem Affine.onPoint_layered (base : Affine ℝ) (origin : Point ℝ) (angle : ℝ) (p : Point ℝ) :
    (base.layered origin angle).onPoint p = base.onPoint (.layered origin angle p) := by
  rw [layered, onPoint_mul, onPoint_mul, onPoint_rotation, onPoint_displacement, Point.layered]

namespace FieldRect

/-! ## The base transform

Four steps, multiplied out once and for all. Everything that is said of the base transform uses this formula
and not the steps. -/

/-- Where a point of the field lies on the rectangle of the field. -/
noncomputable def place (rect : FieldRect ℝ) (fieldSize : ℝ) (p : Point ℝ) : Point ℝ :=
  ⟨rect.center.x - p.y * rect.width / fieldSize, rect.center.y - p.x * rect.height / fieldSize⟩

/-- The base transform puts a point on the rectangle and goes on with the map from before. -/
theorem onPoint_baseTransform (parent : Affine ℝ) (rect : FieldRect ℝ) (fieldSize : ℝ) (p : Point ℝ) :
    (rect.baseTransform parent fieldSize).onPoint p = parent.onPoint (rect.place fieldSize p) := by
  unfold baseTransform
  rw [Affine.onPoint_mul, Affine.onPoint_mul, Affine.onPoint_mul, Affine.onPoint_rotation,
    Affine.onPoint_scaling, Affine.onPoint_displacement, Scalar.quarterTurn_real, Real.cos_pi_div_two,
    Real.sin_pi_div_two, place]
  congr 2 <;> ring

end FieldRect

/-! ## The square of the field

As each coordinate is treated by itself, the square can be followed side by side. -/

/-- The points of which each coordinate is taken from a set of its own. -/
def Point.product (xs ys : Set ℝ) : Set (Point ℝ) := {p | p.x ∈ xs ∧ p.y ∈ ys}

/-- A map that takes each coordinate from the other one takes products to products. -/
theorem Point.image_product (f g : ℝ → ℝ) (xs ys : Set ℝ) :
    (fun p : Point ℝ => (⟨f p.y, g p.x⟩ : Point ℝ)) '' product xs ys = product (f '' ys) (g '' xs) := by
  ext q
  constructor
  · rintro ⟨p, ⟨hx, hy⟩, rfl⟩
    exact ⟨Set.mem_image_of_mem f hy, Set.mem_image_of_mem g hx⟩
  · rintro ⟨⟨y, hy, hfy⟩, x, hx, hgx⟩
    refine ⟨⟨x, y⟩, ⟨hx, hy⟩, ?_⟩
    ext
    · exact hfy
    · exact hgx

namespace FieldRect

/-- Half of the size of a field. -/
noncomputable def halfSize (fieldSize : ℝ) : ℝ := fieldSize / Scalar.ofNat 2

/-- The square of a field of this size around its origin, in inches. -/
def square (fieldSize : ℝ) : Set (Point ℝ) :=
  Point.product (Set.uIcc (-halfSize fieldSize) (halfSize fieldSize))
    (Set.uIcc (-halfSize fieldSize) (halfSize fieldSize))

/-- The corners of that square. -/
def squareCorners (fieldSize : ℝ) : Set (Point ℝ) :=
  Point.product {-halfSize fieldSize, halfSize fieldSize} {-halfSize fieldSize, halfSize fieldSize}

/-- The points of a rectangle, sides included. -/
def points (rect : FieldRect ℝ) : Set (Point ℝ) :=
  Point.product (Set.uIcc rect.x (rect.x + rect.width)) (Set.uIcc rect.y (rect.y + rect.height))

/-- The corners of a rectangle. -/
def corners (rect : FieldRect ℝ) : Set (Point ℝ) :=
  Point.product {rect.x, rect.x + rect.width} {rect.y, rect.y + rect.height}

section Side

variable {fieldSize : ℝ} (hsize : fieldSize ≠ 0) (start side : ℝ)

include hsize

/-- The ends of a side of the field lie on the ends of the side of the rectangle, the other way round. -/
theorem place_ends :
    start + side / 2 - -halfSize fieldSize * side / fieldSize = start + side ∧
      start + side / 2 - halfSize fieldSize * side / fieldSize = start := by
  unfold halfSize
  rw [Scalar.ofNat_real, Nat.cast_ofNat]
  constructor
  · field_simp
    ring
  · field_simp
    ring

theorem image_side :
    (fun t => start + side / 2 - t * side / fieldSize) ''
        Set.uIcc (-halfSize fieldSize) (halfSize fieldSize) = Set.uIcc start (start + side) := by
  obtain ⟨hfirst, hlast⟩ := place_ends hsize start side
  have hsteps : (fun t => start + side / 2 - t * side / fieldSize) =
      (fun t => start + side / 2 - t) ∘ fun t => t * (side / fieldSize) := by
    funext t
    rw [Function.comp_apply, mul_div_assoc]
  rw [mul_div_assoc] at hfirst hlast
  rw [hsteps, Set.image_comp, Set.image_mul_const_uIcc, Set.image_const_sub_uIcc, hfirst, hlast,
    Set.uIcc_comm]

theorem image_ends :
    (fun t => start + side / 2 - t * side / fieldSize) '' {-halfSize fieldSize, halfSize fieldSize} =
      {start, start + side} := by
  obtain ⟨hfirst, hlast⟩ := place_ends hsize start side
  rw [Set.image_pair, hfirst, hlast, Set.pair_comm]

end Side

variable {fieldSize : ℝ} (hsize : fieldSize ≠ 0) (rect : FieldRect ℝ)

include hsize

/-- The square of the field fills the rectangle. -/
theorem image_square : rect.place fieldSize '' square fieldSize = rect.points := by
  have himage := Point.image_product
    (fun t => rect.x + rect.width / 2 - t * rect.width / fieldSize)
    (fun t => rect.y + rect.height / 2 - t * rect.height / fieldSize)
    (Set.uIcc (-halfSize fieldSize) (halfSize fieldSize))
    (Set.uIcc (-halfSize fieldSize) (halfSize fieldSize))
  rw [image_side hsize, image_side hsize] at himage
  exact himage

/-- The corners of the field go to the corners of the rectangle, and each of these is taken. -/
theorem image_squareCorners : rect.place fieldSize '' squareCorners fieldSize = rect.corners := by
  have himage := Point.image_product
    (fun t => rect.x + rect.width / 2 - t * rect.width / fieldSize)
    (fun t => rect.y + rect.height / 2 - t * rect.height / fieldSize)
    {-halfSize fieldSize, halfSize fieldSize} {-halfSize fieldSize, halfSize fieldSize}
  rw [image_ends hsize, image_ends hsize] at himage
  exact himage

variable {rect} (hwidth : rect.width ≠ 0) (hheight : rect.height ≠ 0)

include hwidth hheight

/-- Unless the rectangle is flat, every point of its plane is the place of exactly one point. -/
theorem place_bijective : Function.Bijective (rect.place fieldSize) := by
  rw [Function.bijective_iff_has_inverse]
  refine ⟨fun q => ⟨(rect.center.y - q.y) * fieldSize / rect.height,
    (rect.center.x - q.x) * fieldSize / rect.width⟩, ?_, ?_⟩
  · intro p
    ext
    · simp only [place]
      field_simp
      ring
    · simp only [place]
      field_simp
      ring
  · intro q
    ext
    · simp only [place]
      field_simp
      ring
    · simp only [place]
      field_simp
      ring

/-- The square of the field and the rectangle correspond, point by point. -/
theorem bijOn_place : Set.BijOn (rect.place fieldSize) (square fieldSize) rect.points := by
  have hinjective := (place_bijective hsize hwidth hheight).injective
  have hbij := hinjective.injOn.bijOn_image (s := square fieldSize)
  rwa [image_square hsize] at hbij

/-- The base transform keeps points apart exactly if the map from before does. -/
theorem injective_baseTransform_iff (parent : Affine ℝ) :
    Function.Injective (rect.baseTransform parent fieldSize).onPoint ↔
      Function.Injective parent.onPoint := by
  have hsteps : (rect.baseTransform parent fieldSize).onPoint =
      parent.onPoint ∘ rect.place fieldSize := by
    funext p
    exact onPoint_baseTransform parent rect fieldSize p
  rw [hsteps]
  exact Function.Injective.of_comp_iff' _ (place_bijective hsize hwidth hheight)

end FieldRect

end FieldDiagram
