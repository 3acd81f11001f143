import Mathlib
import FieldDiagram.Proofs.Renderer.Anatomy
import FieldDiagram.Proofs.Renderer.Padding
/-!
# Art on the field

The images of a pass are those of its background. The base image covers the field, and the alternate image
its place on the reference field, brought to the field's size. A placement takes both of its extents by the
width of the field's rectangle; as that is a square in every pass, each extent is scaled by its own side.
With exact numbers an image therefore keeps the shape of its place, and stays on the field if its place
stays on the reference field.

Main statement: `Renderer.art_fits_field`.
-/

namespace FieldDiagram

variable {α ι : Type}

/-! ## Pictures among the commands

Images are looked at apart from all other commands. Operations of an overlay draw none, so what a pass shows
of art is decided in its background. -/

/-- The image that a command draws, with the rectangle of the device that it covers. -/
def DrawCommand.picture? : DrawCommand α ι → Option (ι × FieldRect α)
  | .image picture corner extent _ => some (picture, ⟨corner.x, corner.y, extent.x, extent.y⟩)
  | _ => none

/-- The images on a canvas, in the order in which they are drawn. -/
def Canvas.pictures (c : Canvas α ι) : List (ι × FieldRect α) :=
  c.commands.toList.filterMap DrawCommand.picture?

variable [Scalar α]

/-- What is stroked or filled is no picture. -/
theorem Paint.picture?_finished (p : Paint α) (stroked : Bool) (path : List (PathElement α)) :
    (p.finished stroked path : DrawCommand α ι).picture? = none := by
  cases stroked <;> rfl

/-- An operation may ask for art, but it draws none. -/
theorem Paint.picture?_of_draw? {p : Paint α} {steps : Nat} {op : Op α} {d : DrawCommand α ι}
    (hd : p.draw? steps op = some d) : d.picture? = none := by
  rw [draw?.eq_def] at hd
  split at hd
  · obtain rfl := Option.some.inj hd
    rfl
  · obtain ⟨path, -, rfl⟩ := Option.map_eq_some_iff.1 hd
    exact p.picture?_finished _ path

/-! ## Places in a rectangle

Two ways to put a place of the reference field into a rectangle: the one of the program, which scales both
extents by the width, and the one that scales each side by itself. They agree in squares. -/

/-- The rectangle that a map makes of another: it takes the corner as a point, the extent as a vector. -/
def FieldRect.mapped (map : Affine α) (rect : FieldRect α) : FieldRect α :=
  let corner := map.onPoint ⟨rect.x, rect.y⟩
  let extent := map.onVector ⟨rect.width, rect.height⟩
  ⟨corner.x, corner.y, extent.x, extent.y⟩

namespace AltPlacement

/-- The place on the reference field. -/
def area (p : AltPlacement α) : FieldRect α := ⟨p.x, p.y, p.width, p.height⟩

/-- The reference field. -/
def reference : FieldRect α := ⟨Scalar.zero, Scalar.zero, referenceSpan, referenceSpan⟩

/-- The place in another rectangle, with everything across scaled by its width and everything down by its
height. -/
def within (p : AltPlacement α) (rect : FieldRect α) : FieldRect α :=
  let across := rect.width / referenceSpan
  let down := rect.height / referenceSpan
  ⟨rect.x + p.x * across, rect.y + p.y * down, p.width * across, p.height * down⟩

/-- In a square it makes no difference that the height of art follows the width of the rectangle. -/
theorem resolve_of_square (p : AltPlacement α) {rect : FieldRect α} (hsquare : rect.height = rect.width) :
    p.resolve rect = (⟨(p.within rect).x, (p.within rect).y⟩,
      ⟨(p.within rect).width, (p.within rect).height⟩) := by
  simp only [resolve, within, hsquare]

end AltPlacement

/-! ## The pictures of a pass

Any scalars will do here: it is about which images there are, and not yet about where. -/

namespace Renderer

/-- The images of a pass are those that are there before it, the base image over the whole field and the
alternate image at its place. -/
theorem pictures_render (hone : Scalar.isOpacity (Scalar.one : α) = true) {r : Renderer α ι}
    (htells : r.canvas.reportsTransform = true) (size : SurfaceSize α) :
    let rect := FieldRect.onSurface size r.options.padding
    let map := (Paint.scaledBy size.ratio).transform
    (r.render size).1.canvas.pictures =
      (r.images.baseImage?.map fun image => (image, rect.mapped map)).toList ++
        (r.images.altImage?.map fun image =>
          (image, (r.images.placement.within rect).mapped map)).toList := by
  intro rect map
  -- grid and overlay draw no pictures, so only the background is left
  have hgrid : (r.gridStrokes size).filterMap DrawCommand.picture? = [] := by
    refine List.filterMap_eq_nil_iff.2 fun d hd => ?_
    obtain ⟨line, -, rfl⟩ := List.mem_map.1 hd
    exact Paint.picture?_finished _ true _
  have hoverlay : (r.overlayDrawing size).filterMap DrawCommand.picture? = [] := by
    refine List.filterMap_eq_nil_iff.2 fun d hd => ?_
    obtain ⟨op, -, hdraw⟩ := List.mem_filterMap.1 hd
    exact Paint.picture?_of_draw? hdraw
  rw [Canvas.pictures, commands_render htells, commands_backdrop hone, List.filterMap_append,
    List.filterMap_append, hgrid, hoverlay, List.append_nil, List.append_nil,
    List.filterMap_cons_none rfl, List.filterMap_append]
  congr 1
  · cases r.images.baseImage? <;> rfl
  · cases r.images.altImage? with
    | none => rfl
    | some image =>
      simp only [Option.map_some, Options.altArt,
        AltPlacement.resolve_of_square _ (FieldRect.height_onSurface size r.options.padding)]
      rfl

/-- The images of the pass that a call runs are those that the call finds, or brings. -/
theorem pictures_call_of_passOf? (hone : Scalar.isOpacity (Scalar.one : α) = true) {r : Renderer α ι}
    {d : RendererCall α ι} {size : SurfaceSize α} (htells : r.canvas.reportsTransform = true)
    (hpass : r.passOf? d = some size) :
    let images := (r.met d).images
    let rect := FieldRect.onSurface size r.options.padding
    let map := (Paint.scaledBy size.ratio).transform
    (r.call d).canvas.pictures =
      (images.baseImage?.map fun image => (image, rect.mapped map)).toList ++
        (images.altImage?.map fun image =>
          (image, (images.placement.within rect).mapped map)).toList := by
  obtain ⟨hcanvas, hoptions, -, -⟩ := r.met_keeps d
  have hmet : (r.met d).canvas.reportsTransform = true := by rw [hcanvas, htells]
  rw [call_of_passOf? hpass, pictures_render hone hmet, hoptions]

end Renderer

/-! ## Exact places

With exact numbers a rectangle is the set of its points, and a placement is a map between two of them. What
is said of art is then said of sets. -/

/-- The scale of a surface brings a rectangle to the device. -/
theorem FieldRect.mapped_scaledBy (ratio : ℝ) (rect : FieldRect ℝ) :
    rect.mapped (Paint.scaledBy ratio).transform = rect.onDevice ratio := by
  have hmap : (Paint.scaledBy ratio).transform = .scaling ratio ratio :=
    Affine.identity_mul (.scaling ratio ratio)
  simp [mapped, onDevice, hmap, Affine.onPoint, Affine.onVector, Affine.scaling]

namespace AltPlacement

variable (p : AltPlacement ℝ) (rect : FieldRect ℝ)

/-- It does not matter whether art is placed before the surface is scaled or behind that. -/
theorem within_onDevice (ratio : ℝ) :
    (p.within rect).onDevice ratio = p.within (rect.onDevice ratio) := by
  simp only [within, FieldRect.onDevice, FieldRect.mk.injEq]
  refine ⟨?_, ?_, ?_, ?_⟩ <;> ring

/-- From the reference field to the rectangle. -/
noncomputable def onField (q : Point ℝ) : Point ℝ :=
  ⟨rect.x + q.x * (rect.width / referenceSpan), rect.y + q.y * (rect.height / referenceSpan)⟩

/-- Each side of a place goes to a side of the art. -/
theorem image_side (start side left length : ℝ) :
    (fun t => start + t * side) '' Set.uIcc left (left + length) =
      Set.uIcc (start + left * side) (start + left * side + length * side) := by
  have hsteps : (fun t => start + t * side) = (fun t => start + t) ∘ fun t => t * side := rfl
  rw [hsteps, Set.image_comp, Set.image_mul_const_uIcc, Set.image_const_add_uIcc, add_mul, add_assoc]

/-- Art lies where the points of its place go. -/
theorem image_area : onField rect '' p.area.points = (p.within rect).points := by
  rw [FieldRect.points, FieldRect.points, area, within, ← image_side, ← image_side]
  exact Point.image_product_each (fun t => rect.x + t * (rect.width / referenceSpan))
    (fun t => rect.y + t * (rect.height / referenceSpan)) _ _

/-- The place that is the whole reference field is the whole rectangle. -/
theorem within_of_reference {p : AltPlacement ℝ} (hp : p.area = reference) : p.within rect = rect := by
  have hspan : (referenceSpan : ℝ) ≠ 0 := by
    rw [referenceSpan, Scalar.ofNat_real]
    norm_num
  simp only [area, reference, FieldRect.mk.injEq, Scalar.zero_real] at hp
  obtain ⟨hx, hy, hwidth, hheight⟩ := hp
  simp only [within, hx, hy, hwidth, hheight, zero_mul, add_zero, mul_div_cancel₀ _ hspan]

/-- The reference field fills the rectangle. -/
theorem image_reference : onField rect '' (reference : FieldRect ℝ).points = rect.points := by
  have himage := image_area ⟨Scalar.zero, Scalar.zero, referenceSpan, referenceSpan, false⟩ rect
  rw [within_of_reference rect rfl] at himage
  exact himage

/-- Art whose place lies on the reference field lies in the rectangle. -/
theorem within_subset {p : AltPlacement ℝ} (hp : p.area.points ⊆ (reference : FieldRect ℝ).points) :
    (p.within rect).points ⊆ rect.points := by
  rw [← image_area, ← image_reference rect]
  exact Set.image_mono hp

/-- In a square, art has the shape of its place. -/
theorem shape_within {rect : FieldRect ℝ} (hsquare : rect.height = rect.width) :
    (p.within rect).width * p.height = (p.within rect).height * p.width := by
  simp only [within, hsquare]
  ring

theorem extent_within_nonneg {p : AltPlacement ℝ} {rect : FieldRect ℝ} (hp : 0 ≤ p.width ∧ 0 ≤ p.height)
    (hrect : 0 ≤ rect.width ∧ 0 ≤ rect.height) :
    0 ≤ (p.within rect).width ∧ 0 ≤ (p.within rect).height := by
  have hspan : (0 : ℝ) ≤ referenceSpan := Nat.cast_nonneg 144
  exact ⟨mul_nonneg hp.1 (div_nonneg hrect.1 hspan), mul_nonneg hp.2 (div_nonneg hrect.2 hspan)⟩

end AltPlacement

namespace Renderer

/-- **Art fits the field.** In every pass, asked for or repeated, over a canvas that tells its map, the
images on the canvas are the base image over the field's rectangle and then the alternate image at its
place in there, as far as they are there, and with its height scaled by the height of the rectangle; on
any other canvas there are none. With exact numbers the base image covers the very rectangle of the device
that the base transform fills with the field. The alternate image has the shape of its placement; if that
lies on the reference field the image lies on the field, and no side of it is turned round unless the field
is; and the whole reference field is the whole field. -/
theorem art_fits_field :
    (∀ (r : Renderer Float ι) (d : RendererCall Float ι) (size : SurfaceSize Float),
      r.passOf? d = some size →
      let images := (r.met d).images
      let rect := FieldRect.onSurface size r.options.padding
      let map := (Paint.scaledBy size.ratio).transform
      (r.canvas.reportsTransform = true →
        (r.call d).canvas.pictures =
          (images.baseImage?.map fun image => (image, rect.mapped map)).toList ++
            (images.altImage?.map fun image =>
              (image, (images.placement.within rect).mapped map)).toList) ∧
      (r.canvas.reportsTransform = false → (r.call d).canvas.pictures = [])) ∧
    ∀ (r : Renderer ℝ ι) (d : RendererCall ℝ ι) (size : SurfaceSize ℝ),
      r.passOf? d = some size → r.canvas.reportsTransform = true →
      let images := (r.met d).images
      let field := (FieldRect.onSurface size r.options.padding).onDevice size.ratio
      let p := images.placement
      let place := p.within field
      (r.call d).canvas.pictures =
        (images.baseImage?.map fun image => (image, field)).toList ++
          (images.altImage?.map fun image => (image, place)).toList ∧
      (r.options.fieldSize ≠ 0 →
        (r.call d).base.onPoint '' FieldRect.square r.options.fieldSize = field.points) ∧
      place.width * p.height = place.height * p.width ∧
      (p.area.points ⊆ (AltPlacement.reference : FieldRect ℝ).points → place.points ⊆ field.points) ∧
      (0 < size.ratio → 0 ≤ (FieldRect.onSurface size r.options.padding).width →
        0 ≤ p.width ∧ 0 ≤ p.height → 0 ≤ place.width ∧ 0 ≤ place.height) ∧
      (p.area = AltPlacement.reference → place = field) := by
  refine ⟨?_, ?_⟩
  · intro r d size hpass images rect map
    refine ⟨fun htells => pictures_call_of_passOf? (by decide +kernel) htells hpass, fun hmute => ?_⟩
    have hmet : (r.met d).canvas.reportsTransform = false := by rw [(r.met_keeps d).1, hmute]
    rw [call_of_passOf? hpass, Canvas.pictures, commands_render_of_not_tells hmet,
      List.filterMap_cons_none rfl, List.filterMap_nil]
  · intro r d size hpass htells images field p place
    have hsquare : field.height = field.width := by
      simp only [field, FieldRect.onDevice, FieldRect.height_onSurface]
    refine ⟨?_, ?_, p.shape_within hsquare, AltPlacement.within_subset field, ?_,
      AltPlacement.within_of_reference field⟩
    · rw [pictures_call_of_passOf? Scalar.isOpacity_one_real htells hpass, FieldRect.mapped_scaledBy,
        FieldRect.mapped_scaledBy, AltPlacement.within_onDevice]
    · intro hfield
      rw [base_call_of_passOf? htells hpass, baseFor, FieldRect.image_square_onDevice hfield]
    · intro hratio hside hp
      have hwidth : 0 ≤ field.width := mul_nonneg hratio.le hside
      exact AltPlacement.extent_within_nonneg hp ⟨hwidth, hsquare ▸ hwidth⟩

/-- Art of half the field's width and a quarter of its height, behind the middle of the field; and a canvas
that does not tell its map. -/
theorem art_fits_field_behind_middle :
    let size : SurfaceSize ℝ := ⟨800, 600, 2⟩
    let options : Options ℝ := ⟨15, 1, 144, ⟨250, by decide⟩, 3, .black, "field.png"⟩
    let images : ImageCache ℝ String := ⟨some ⟨"field.png", .loaded "field"⟩,
      some ⟨"alt.png", .loaded "robot"⟩, ⟨36, 72, 72, 36, true⟩, none, []⟩
    let r : Renderer ℝ String := { new (.empty true) options with images }
    let mute : Renderer Float String := new (.empty false) .standard
    let small : SurfaceSize Float := ⟨Scalar.one, Scalar.one, Scalar.one⟩
    let field : FieldRect ℝ := ⟨130, 30, 540, 540⟩
    let place : FieldRect ℝ := ⟨265, 300, 270, 135⟩
    r.passOf? (.render size) = some size ∧ r.canvas.reportsTransform = true ∧
      r.options.fieldSize ≠ 0 ∧
      (r.call (.render size)).canvas.pictures = [("field", field), ("robot", place)] ∧
      (r.call (.render size)).base.onPoint '' FieldRect.square 144 = field.points ∧
      place.points ⊆ field.points ∧
      mute.passOf? (.render small) = some small ∧ mute.canvas.reportsTransform = false ∧
      (mute.call (.render small)).canvas.pictures = [] := by
  intro size options images r mute small field place
  have hfield : r.options.fieldSize ≠ 0 := by
    change (144 : ℝ) ≠ 0
    norm_num
  have hrect : (FieldRect.onSurface size r.options.padding).onDevice size.ratio = field := by
    change (FieldRect.onSurface size 15).onDevice 2 = _
    rw [FieldRect.onSurface_eq]
    norm_num [FieldRect.onDevice, SurfaceSize.room, SurfaceSize.logical, size, field]
  have hplace : images.placement.within field = place := by
    simp only [AltPlacement.within, AltPlacement.referenceSpan, Scalar.ofNat_real, images, field]
    norm_num [place]
  have harea : images.placement.area.points ⊆ (AltPlacement.reference : FieldRect ℝ).points := by
    rw [FieldRect.points_subset_iff]
    simp only [AltPlacement.area, AltPlacement.reference, AltPlacement.referenceSpan, images,
      Scalar.zero_real, Scalar.ofNat_real]
    norm_num [Set.mem_uIcc]
  obtain ⟨hmachine, hexact⟩ := art_fits_field (ι := String)
  obtain ⟨hpictures, hbase, -, hinside, -, -⟩ := hexact r (.render size) size rfl rfl
  obtain ⟨-, hmute⟩ := hmachine mute (.render small) small rfl
  rw [hrect] at hpictures hbase hinside
  have hpair : (r.call (.render size)).canvas.pictures =
      [("field", field), ("robot", images.placement.within field)] := hpictures
  rw [hplace] at hpair
  exact ⟨rfl, rfl, hfield, hpair, hbase hfield, hplace ▸ hinside harea, rfl, rfl, hmute rfl⟩

end Renderer

end FieldDiagram
