import Mathlib
import FieldDiagram.Proofs.Geometry.Rectangles
import FieldDiagram.Proofs.Renderer.FieldPoints
import FieldDiagram.Proofs.Renderer.Persistence
/-!
# What the padding leaves of a surface

The side of the field's square is the shorter side of the surface less the padding at both of its ends, and
nothing keeps that number from being negative. While the padding fits twice into the shorter side, the
square lies on the surface and the first axis of the field points up. Behind that the square is turned
round, and the whole diagram with it; it still lies on the surface as long as the padding fits once.

Main statement: `Renderer.field_fits_iff`.
-/

namespace FieldDiagram

variable {ι : Type}

/-- The shorter side of a surface in logical pixels. -/
noncomputable def SurfaceSize.room (size : SurfaceSize ℝ) : ℝ := min size.logical.x size.logical.y

/-- Whether the first axis of a map never goes down on the device, where the second coordinate grows
downwards. -/
def Affine.PointsUp (m : Affine ℝ) : Prop := ∀ t, 0 ≤ t → (m.onPoint ⟨t, 0⟩).y ≤ (m.onPoint ⟨0, 0⟩).y

namespace FieldRect

/-! ## The square on its surface

Twice the padding is taken from the shorter side. What is left may be negative, and then the square has its
corners in another order. -/

/-- What is left between the paddings is the side, and the square lies in the middle. -/
theorem onSurface_eq (size : SurfaceSize ℝ) (padding : ℝ) :
    let side := size.room - 2 * padding
    onSurface size padding =
      ⟨(size.logical.x - side) / 2, (size.logical.y - side) / 2, side, side⟩ := by
  simp only [onSurface, centeredSquare, Scalar.min_real, Scalar.ofNat_real, Nat.cast_ofNat,
    SurfaceSize.room]

theorem width_onSurface (size : SurfaceSize ℝ) (padding : ℝ) :
    (onSurface size padding).width = size.room - 2 * padding :=
  congrArg width (onSurface_eq size padding)

/-- The square has two sides of one length, with every kind of numbers. -/
theorem height_onSurface {α : Type} [Scalar α] (size : SurfaceSize α) (padding : α) :
    (onSurface size padding).height = (onSurface size padding).width := rfl

/-- A side of the square, in the middle of a side of the surface, lies on it as long as both ends do: the
padding may take all that is free and then the square's own length. -/
theorem side_inside_iff {length room padding : ℝ} (hlength : 0 ≤ length) (hroom : room ≤ length)
    (hpadding : 0 ≤ padding) :
    ((length - (room - 2 * padding)) / 2 ∈ Set.uIcc 0 (0 + length) ∧
        (length - (room - 2 * padding)) / 2 + (room - 2 * padding) ∈ Set.uIcc 0 (0 + length)) ↔
      padding ≤ (length + room) / 2 := by
  rw [zero_add, Set.uIcc_of_le hlength, Set.mem_Icc, Set.mem_Icc]
  constructor
  · rintro ⟨⟨-, hstart⟩, -⟩
    linarith
  · intro hfits
    refine ⟨⟨?_, ?_⟩, ?_, ?_⟩ <;> linarith

/-- The square lies on the surface exactly if the padding fits once into the shorter side. -/
theorem onSurface_inside_iff {size : SurfaceSize ℝ} {padding : ℝ} (hx : 0 ≤ size.logical.x)
    (hy : 0 ≤ size.logical.y) (hpadding : 0 ≤ padding) :
    (onSurface size padding).points ⊆ size.logicalArea.points ↔ padding ≤ size.room := by
  have hroomX : size.room ≤ size.logical.x := min_le_left _ _
  have hroomY : size.room ≤ size.logical.y := min_le_right _ _
  rw [onSurface_eq, points_subset_iff]
  simp only [SurfaceSize.logicalArea]
  rw [side_inside_iff hx hroomX hpadding, side_inside_iff hy hroomY hpadding]
  constructor
  · rintro ⟨hacross, hdown⟩
    -- one of the two sides is the shorter one, and there the mean is that side itself
    rcases min_choice size.logical.x size.logical.y with hshort | hshort
    · rw [SurfaceSize.room, hshort] at *
      linarith
    · rw [SurfaceSize.room, hshort] at *
      linarith
  · intro hfits
    constructor <;> linarith

end FieldRect

namespace Renderer

/-! ## The base transform of a pass

Which way the first axis points is the sign of the side, as nothing else in the base transform can turn it
round. -/

/-- The first axis of the field on the device: each inch goes up by one and the same length. -/
theorem onPoint_baseFor_firstAxis (size : SurfaceSize ℝ) (r : Renderer ℝ ι) (t : ℝ) :
    let side := (FieldRect.onSurface size r.options.padding).width
    ((r.baseFor size).onPoint ⟨t, 0⟩).y =
      ((r.baseFor size).onPoint ⟨0, 0⟩).y - t * (size.ratio * (side / r.options.fieldSize)) := by
  intro side
  rw [onPoint_baseFor, onPoint_baseFor]
  simp only [FieldRect.place, FieldRect.height_onSurface]
  ring

/-- The base transform that a call captures is that of the size of its pass. -/
theorem base_call_of_passOf? {r : Renderer ℝ ι} {d : RendererCall ℝ ι} {size : SurfaceSize ℝ}
    (htells : r.canvas.reportsTransform = true) (hpass : r.passOf? d = some size) :
    (r.call d).base = r.baseFor size := by
  obtain ⟨hcanvas, hoptions, -, -⟩ := r.met_keeps d
  rw [call_of_passOf? hpass, base_render (by rw [hcanvas, htells]), baseFor, baseFor, hoptions]

section Sign

variable {size : SurfaceSize ℝ} {r : Renderer ℝ ι} (hratio : 0 < size.ratio)
  (hfield : 0 < r.options.fieldSize)

include hratio hfield

/-- The field points up exactly if its square is not turned round. -/
theorem pointsUp_baseFor_iff :
    (r.baseFor size).PointsUp ↔ 0 ≤ (FieldRect.onSurface size r.options.padding).width := by
  constructor
  · intro hup
    -- a point as far out as the field is wide is enough: it rises by the whole side
    have hfirst := hup r.options.fieldSize hfield.le
    have hside : 0 ≤ size.ratio * (FieldRect.onSurface size r.options.padding).width := by
      rw [onPoint_baseFor_firstAxis, mul_left_comm, mul_div_cancel₀ _ hfield.ne'] at hfirst
      linarith
    exact nonneg_of_mul_nonneg_right hside hratio
  · intro hside t ht
    rw [onPoint_baseFor_firstAxis]
    have hrise : 0 ≤ t * (size.ratio *
        ((FieldRect.onSurface size r.options.padding).width / r.options.fieldSize)) := by
      positivity
    linarith

/-- Where the square is turned round, every point of the first axis lies below the origin. -/
theorem below_origin_of_turned (hside : (FieldRect.onSurface size r.options.padding).width < 0) {t : ℝ}
    (ht : 0 < t) : ((r.baseFor size).onPoint ⟨0, 0⟩).y < ((r.baseFor size).onPoint ⟨t, 0⟩).y := by
  rw [onPoint_baseFor_firstAxis size r t]
  have hfall : t * (size.ratio *
      ((FieldRect.onSurface size r.options.padding).width / r.options.fieldSize)) < 0 :=
    mul_neg_of_pos_of_neg ht (mul_neg_of_pos_of_neg hratio (div_neg_of_neg_of_pos hside hfield))
  linarith

end Sign

/-- **Where the field is drawn, and which way up**, with exact numbers, in every pass over a canvas that
tells its map, on a surface with a positive ratio. The field's rectangle is a square. Its side is not
negative exactly if the padding fits twice into the shorter side of the surface, and exactly then the base
transform that the pass captures lets the first axis of the field point up. In a smaller window the square
is turned round, and every point of that axis lies below the origin. The rectangle lies on the surface, and
so does the field's square on the device, exactly if the padding fits once into the shorter side. -/
theorem field_fits_iff {r : Renderer ℝ ι} {d : RendererCall ℝ ι} {size : SurfaceSize ℝ}
    (htells : r.canvas.reportsTransform = true) (hpass : r.passOf? d = some size)
    (hwidth : 0 ≤ size.width) (hheight : 0 ≤ size.height) (hratio : 0 < size.ratio)
    (hpadding : 0 ≤ r.options.padding) (hfield : 0 < r.options.fieldSize) :
    let rect := FieldRect.onSurface size r.options.padding
    let base := (r.call d).base
    rect.height = rect.width ∧
      (0 ≤ rect.width ↔ 2 * r.options.padding ≤ size.room) ∧
      (base.PointsUp ↔ 2 * r.options.padding ≤ size.room) ∧
      (size.room < 2 * r.options.padding →
        ∀ t, 0 < t → (base.onPoint ⟨0, 0⟩).y < (base.onPoint ⟨t, 0⟩).y) ∧
      (rect.points ⊆ size.logicalArea.points ↔ r.options.padding ≤ size.room) ∧
      (base.onPoint '' FieldRect.square r.options.fieldSize ⊆ size.area.points ↔
        r.options.padding ≤ size.room) := by
  intro rect base
  have hbase : base = r.baseFor size := base_call_of_passOf? htells hpass
  have hside : rect.width = size.room - 2 * r.options.padding := FieldRect.width_onSurface _ _
  have hinside : rect.points ⊆ size.logicalArea.points ↔ r.options.padding ≤ size.room :=
    FieldRect.onSurface_inside_iff (div_nonneg hwidth hratio.le) (div_nonneg hheight hratio.le)
      hpadding
  refine ⟨FieldRect.height_onSurface _ _, ?_, ?_, ?_, hinside, ?_⟩
  · rw [hside, sub_nonneg]
  · rw [hbase, pointsUp_baseFor_iff hratio hfield, hside, sub_nonneg]
  · intro hsmall t ht
    rw [hbase]
    exact below_origin_of_turned hratio hfield (by rw [hside]; linarith) ht
  · -- on the device both squares are multiplied by the ratio, so it is the same question once more
    rw [hbase, baseFor, FieldRect.image_square_onDevice hfield.ne',
      ← SurfaceSize.onDevice_logicalArea hratio.ne', FieldRect.onDevice_subset_iff hratio.ne', hinside]

/-- A window of fifty device pixels by a hundred, where the padding fits once and not twice. -/
theorem field_fits_iff_of_padding_once :
    let size : SurfaceSize ℝ := ⟨50, 100, 2⟩
    let options : Options ℝ := ⟨15, 1, 144, ⟨250, by decide⟩, 3, .black, "field.png"⟩
    let r : Renderer ℝ String := new (.empty true) options
    let base := (r.call (.render size)).base
    r.passOf? (.render size) = some size ∧ 0 < size.ratio ∧ 0 < r.options.fieldSize ∧
      ¬base.PointsUp ∧ (base.onPoint ⟨0, 0⟩).y < (base.onPoint ⟨72, 0⟩).y ∧
      base.onPoint '' FieldRect.square 144 ⊆ size.area.points := by
  intro size options r base
  have hratio : 0 < size.ratio := by norm_num [size]
  have hfield : 0 < r.options.fieldSize := by
    change (0 : ℝ) < 144
    norm_num
  have hpadding : r.options.padding = 15 := rfl
  have hroom : size.room = 25 := by
    norm_num [SurfaceSize.room, SurfaceSize.logical, size]
  obtain ⟨-, -, hup, hdown, -, hdevice⟩ := field_fits_iff (d := .render size) (r := r) rfl rfl
    (by norm_num [size]) (by norm_num [size]) hratio (by rw [hpadding]; norm_num) hfield
  rw [hpadding, hroom] at hup hdown hdevice
  refine ⟨rfl, hratio, hfield, ?_, hdown (by norm_num) 72 (by norm_num), hdevice.2 (by norm_num)⟩
  rw [hup]
  norm_num

/-- In a window of ten pixels by ten the standard padding leaves a square of minus twenty: it starts behind
the corner of the surface, and the far end of the field's first axis is drawn below the middle. -/
theorem turned_round_in_small_window :
    let size : SurfaceSize ℝ := ⟨10, 10, 1⟩
    let options : Options ℝ := ⟨15, 1 / 4, 144, ⟨250, by decide⟩, 1, .black, "field.png"⟩
    let r : Renderer ℝ String := new (.empty true) options
    let rect := FieldRect.onSurface size r.options.padding
    let base := (r.call (.render size)).base
    rect = ⟨15, 15, -20, -20⟩ ∧ ¬rect.points ⊆ size.logicalArea.points ∧
      (base.onPoint ⟨0, 0⟩).y = 5 ∧ (base.onPoint ⟨72, 0⟩).y = 15 := by
  intro size options r rect base
  have hroom : size.room = 10 := by
    norm_num [SurfaceSize.room, SurfaceSize.logical, size]
  have hrect : rect = ⟨15, 15, -20, -20⟩ := by
    change FieldRect.onSurface size 15 = _
    rw [FieldRect.onSurface_eq, hroom]
    norm_num [SurfaceSize.logical, size]
  have hbase : base = r.baseFor size := base_call_of_passOf? (r := r) (d := .render size) rfl rfl
  have hmiddle : (base.onPoint ⟨0, 0⟩).y = 5 := by
    rw [hbase, onPoint_baseFor]
    change 1 * (rect.place 144 ⟨0, 0⟩).y = 5
    rw [hrect]
    norm_num [FieldRect.place, FieldRect.center]
  refine ⟨hrect, ?_, hmiddle, ?_⟩
  · rw [FieldRect.onSurface_inside_iff (by norm_num [SurfaceSize.logical, size])
      (by norm_num [SurfaceSize.logical, size]) (by change (0 : ℝ) ≤ 15; norm_num), hroom]
    change ¬(15 : ℝ) ≤ 10
    norm_num
  · rw [hbase, onPoint_baseFor_firstAxis, ← hbase, hmiddle]
    change 5 - 72 * (1 * (rect.width / 144)) = 15
    rw [hrect]
    norm_num

end Renderer

end FieldDiagram
