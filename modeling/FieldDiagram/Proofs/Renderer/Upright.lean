import Mathlib
import FieldDiagram.Proofs.Renderer.Colors
import FieldDiagram.Proofs.Scalar.Exact
/-!
# Texts are not mirrored

The field is flipped over on its surface, and a text flips its own axes once more, so that the glyphs stand
as they are read. Which way a map turns is the sign of its determinant. Origin, rotation and the angle of a
text leave that alone, and the two flips cancel; all that can turn a text over are the factors of a scale.

Main statement: `Renderer.text_upright`.
-/

namespace FieldDiagram

variable {α ι : Type} [Scalar α]

open Scalar (one)

/-! ## Texts among the commands

A text is one command, and it carries the map that was in force with the text's own turn and flip on top. -/

/-- What is stroked or filled is no text. -/
theorem Paint.finished_ne_text {p : Paint α} {content font : String} {place : Point α} {map : Affine α}
    {color : Color} {alpha : α} {outlined : Bool} (stroked : Bool) (path : List (PathElement α)) :
    (p.finished stroked path : DrawCommand α ι) ≠
      .text content place map font color alpha outlined := by
  unfold finished
  split <;> simp

/-- A text among the commands is that of an operation, and its map turns and flips the one in force. -/
theorem Paint.exists_of_draw?_eq_text {p : Paint α} {steps : Nat} {op : Op α} {content font : String}
    {place : Point α} {map : Affine α} {color : Color} {alpha : α} {outlined : Bool}
    (h : p.draw? steps op =
      some (.text content place map font color alpha outlined : DrawCommand α ι)) :
    ∃ point font? angle, op = .text content point font? angle outlined ∧
      map = p.transform * .rotation angle * .scaling one (-one) := by
  unfold draw? at h
  split at h
  · next content' point font? angle outlined' =>
    obtain ⟨rfl, -, rfl, -, -, -, rfl⟩ := DrawCommand.text.inj (Option.some.inj h)
    exact ⟨point, font?, angle, rfl, rfl⟩
  · obtain ⟨path, -, hpath⟩ := Option.map_eq_some_iff.1 h
    exact absurd hpath (finished_ne_text _ path)

/-- A text adds its command and leaves everything else of a pass as it was. -/
theorem Pass.step_text (setting : PassSetting α) (index : Nat) (content : String) (point : Point α)
    (font : Option String) (angle : α) (outlined : Bool) (p : Pass α ι) :
    ∃ d, p.step setting index (.text content point font angle outlined) =
      ({ p with canvas := p.canvas.record d }, none) := by
  -- what it saves at its start it restores at its end
  cases font <;> cases outlined <;> exact ⟨_, rfl⟩

/-! ## Which way a map turns

Orientation is the sign of the determinant, which is multiplied along the steps of a map. Each step has a
sign that is known. -/

/-- The axes of a text turn the other way than those that it is drawn in. -/
theorem Affine.determinant_glyphs (m : Affine ℝ) (angle : ℝ) :
    (m * .rotation angle * .scaling one (-one)).determinant = -m.determinant := by
  rw [determinant_mul, determinant_mul, determinant_rotation, determinant_scaling, Scalar.one_real]
  ring

namespace Renderer

/-- The base transform of a pass, which turns the other way than the surface. -/
theorem determinant_baseFor (size : SurfaceSize ℝ) (r : Renderer ℝ ι) :
    (r.baseFor size).determinant =
      -(size.ratio * ((FieldRect.onSurface size r.options.padding).width / r.options.fieldSize)) ^ 2 := by
  have hsquare : (FieldRect.onSurface size r.options.padding).height =
      (FieldRect.onSurface size r.options.padding).width := rfl
  rw [baseFor, Affine.determinant_baseTransform, Affine.determinant_mul, Affine.determinant_identity,
    Affine.determinant_scaling, hsquare]
  ring

/-- Of all that an overlay does to the map only the factors that are in force change areas. -/
theorem determinant_canvasBehind {r : Renderer ℝ ι} (htells : r.canvas.reportsTransform = true)
    (size : SurfaceSize ℝ) {ops : List (Op ℝ)} (hknown : ∀ op ∈ ops, op.fails true = false) :
    (r.canvasBehind size ops).paint.transform.determinant = (r.baseFor size).determinant *
      (Op.inForce? ops).elim 1 fun factors => factors.x * factors.y := by
  rw [transform_canvasBehind htells size hknown]
  rcases Op.inForce? ops with _ | factors
  · exact (Affine.determinant_layered _ _ _).trans (mul_one _).symm
  · rw [Affine.determinant_stretched, Affine.determinant_layered]
    rfl

/-- **Which way a text turns**: as the factors say that are in force where it is drawn. -/
theorem sign_determinant_glyphs {r : Renderer ℝ ι} (htells : r.canvas.reportsTransform = true)
    {size : SurfaceSize ℝ} (hratio : size.ratio ≠ 0)
    (hside : (FieldRect.onSurface size r.options.padding).width ≠ 0) (hfield : r.options.fieldSize ≠ 0)
    {ops : List (Op ℝ)} (hknown : ∀ op ∈ ops, op.fails true = false) (angle : ℝ) :
    let map := (r.canvasBehind size ops).paint.transform
    SignType.sign (map * .rotation angle * .scaling one (-one)).determinant =
      SignType.sign ((Op.inForce? ops).elim 1 fun factors => factors.x * factors.y) := by
  intro map
  have hbase : (r.baseFor size).determinant < 0 := by
    rw [determinant_baseFor]
    apply neg_neg_of_pos
    exact sq_pos_of_ne_zero (mul_ne_zero hratio (div_ne_zero hside hfield))
  rw [Affine.determinant_glyphs, determinant_canvasBehind htells size hknown, ← neg_mul, sign_mul,
    sign_pos (neg_pos.2 hbase), one_mul]

/-- **Texts are not mirrored**, with exact numbers, unless a scale mirrors them. Take any pass with a ratio,
a side of the field's square and a field size that are not zero. Every text among its commands is that of
an operation which stands at its place, and its map keeps the orientation of the surface if no factors are
in force there, whatever origins, rotations and angles there are; otherwise its determinant has the sign
of the product of the factors. Every text that is carried out is among the commands. And a text adds its
command and leaves everything else of a pass as it was: map, colours, widths, opacity and font, and what
was saved. -/
theorem text_upright (r : Renderer ℝ ι) (size : SurfaceSize ℝ) (hratio : size.ratio ≠ 0)
    (hside : (FieldRect.onSurface size r.options.padding).width ≠ 0)
    (hfield : r.options.fieldSize ≠ 0) :
    (∀ i content place map font color alpha outlined,
      (r.render size).1.canvas.commands.toList[i]? =
        some (.text content place map font color alpha outlined) →
      ∃ pre point font? angle post,
        r.overlay.executed = pre ++ .text content point font? angle outlined :: post ∧
        (r.canvasBehind size pre).commands.toList.length = i ∧
        (Op.inForce? pre = none → 0 < map.determinant) ∧
        ∀ factors, Op.inForce? pre = some factors →
          SignType.sign map.determinant = SignType.sign (factors.x * factors.y)) ∧
    (r.canvas.reportsTransform = true → ∀ pre content point font? angle outlined post,
      r.overlay.executed = pre ++ .text content point font? angle outlined :: post →
      ∃ place map font color alpha,
        (r.render size).1.canvas.commands.toList[(r.canvasBehind size pre).commands.toList.length]? =
          some (.text content place map font color alpha outlined)) ∧
    ∀ (setting : PassSetting ℝ) (index : Nat) content point font? angle outlined (p : Pass ℝ ι),
      ∃ d, p.step setting index (.text content point font? angle outlined) =
          ({ p with canvas := p.canvas.record d }, none) ∧
        (p.canvas.record d).paint = p.canvas.paint ∧ (p.canvas.record d).saved = p.canvas.saved := by
  refine ⟨?_, ?_, ?_⟩
  · intro i content place map font color alpha outlined hcommand
    by_cases htells : r.canvas.reportsTransform = true
    · rcases exists_of_getElem?_render htells size hcommand with hbackdrop | hgrid | hoverlay
      · -- a text has a colour, and nothing in the background has one
        exact absurd (color?_of_mem_backdrop Scalar.isOpacity_one_real hbackdrop)
          (Option.some_ne_none color)
      · obtain ⟨line, -, hline⟩ := List.mem_map.1 hgrid
        exact absurd hline (Paint.finished_ne_text true _)
      · obtain ⟨pre, op, post, hsplit, hplace, hdraw⟩ := hoverlay
        obtain ⟨point, font?, angle, rfl, rfl⟩ := Paint.exists_of_draw?_eq_text hdraw
        have hsign := sign_determinant_glyphs htells hratio hside hfield
          (Overlay.fails_of_split hsplit) angle
        refine ⟨pre, point, font?, angle, post, hsplit, hplace, ?_, ?_⟩
        · intro hfree
          rw [hfree] at hsign
          exact sign_eq_one_iff.1 (hsign.trans (sign_pos one_pos))
        · intro factors hfactors
          rw [hfactors] at hsign
          exact hsign
    · -- a canvas that does not tell its map is wiped, and no text is drawn
      rw [commands_render_of_not_tells (Bool.eq_false_iff.mpr htells)] at hcommand
      have hclear := List.mem_singleton.1 (List.mem_of_getElem? hcommand)
      exact absurd hclear (by simp)
  · intro htells pre content point font? angle outlined post hsplit
    have hplace := getElem?_render_split htells size hsplit rfl
    exact ⟨_, _, _, _, _, hplace⟩
  · intro setting index content point font? angle outlined p
    obtain ⟨d, hd⟩ := p.step_text setting index content point font? angle outlined
    exact ⟨d, hd, rfl, rfl⟩

/-- A text that is turned, behind a rotation and a scale that turns one axis round, is mirrored. -/
theorem text_upright_unless_turned_round :
    let size : SurfaceSize ℝ := ⟨800, 600, 2⟩
    let options : Options ℝ := ⟨15, 1, 144, ⟨250, by decide⟩, 3, .black, "field.png"⟩
    let pre : List (Op ℝ) := [.rotation 2, .scale (-2) 3]
    let r : Renderer ℝ String :=
      (new (.empty true) options).setOverlay ⟨pre ++ [.text "A" ⟨1, 2⟩ none 1 false]⟩
    size.ratio ≠ 0 ∧ (FieldRect.onSurface size r.options.padding).width ≠ 0 ∧
      r.options.fieldSize ≠ 0 ∧
      ∃ place map font color alpha, .text "A" place map font color alpha false ∈
        (r.render size).1.canvas.commands.toList ∧ map.determinant < 0 := by
  intro size options pre r
  have hratio : size.ratio ≠ 0 := by norm_num [size]
  have hfield : r.options.fieldSize ≠ 0 := by
    change (144 : ℝ) ≠ 0
    norm_num
  have hside : (FieldRect.onSurface size r.options.padding).width ≠ 0 := by
    change (FieldRect.onSurface size 15).width ≠ 0
    simp only [FieldRect.onSurface, FieldRect.centeredSquare, SurfaceSize.logical, size,
      Scalar.min_real, Scalar.ofNat_real]
    norm_num
  obtain ⟨hmaps, hrecorded, -⟩ := text_upright r size hratio hside hfield
  obtain ⟨place, map, font, color, alpha, hcommand⟩ :=
    hrecorded rfl pre "A" ⟨1, 2⟩ none 1 false [] rfl
  obtain ⟨pre', point, font?, angle, post, hsplit, -, -, hsign⟩ := hmaps _ _ _ _ _ _ _ _ hcommand
  -- there is only one text, so it is the one that the command belongs to
  have hpre : pre' = pre := by
    change ([.rotation 2, .scale (-2) 3, .text "A" ⟨1, 2⟩ none 1 false] : List (Op ℝ)) = _ at hsplit
    simp only [List.cons_eq_append_iff, List.cons.injEq, reduceCtorEq, false_and, and_false,
      Op.text.injEq, and_true, true_and, List.nil_eq, List.append_eq_nil_iff, exists_const, or_false,
      ↓existsAndEq, false_or] at hsplit
    exact hsplit.1
  refine ⟨hratio, hside, hfield, place, map, font, color, alpha, List.mem_of_getElem? hcommand, ?_⟩
  rw [hpre] at hsign
  have hnegative := hsign ⟨-2, 3⟩ rfl
  rw [← sign_eq_neg_one_iff, hnegative, sign_eq_neg_one_iff]
  norm_num

end Renderer

end FieldDiagram
