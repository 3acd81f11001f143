import FieldDiagram.Canvas.Basic
import FieldDiagram.Proofs.Decimal.Sign
/-!
# Paint that makes sense

A canvas ignores what makes no sense as an opacity or as the width of a line, so its paint keeps an opacity
between zero and one and a finite width above zero, and so does every paint that was saved. Whatever is
drawn, a command has such an opacity. The width of a stroke has been scaled by the map, so it may be zero
or infinite or no number at all, but it is not negative.

Main statement: `Canvas.Valid.calls`.
-/

namespace FieldDiagram

variable {ι : Type}

open Scalar (zero one isOpacity isWidth)

/-! ## What makes sense

The width of a stroke is the product of a width that makes sense and the scale of a map, which may overflow.
So what is asked of commands is less than what is asked of paint. -/

/-- An opacity, from zero to one. -/
def IsOpacity (alpha : Float) : Prop := zero ≤ alpha ∧ alpha ≤ one

/-- Paint whose opacity and line width make sense. -/
structure Paint.Valid (p : Paint Float) : Prop where
  opacity : IsOpacity p.alpha
  finite : p.lineWidth.isFinite = true
  positive : zero < p.lineWidth

/-- Commands with an opacity and without a negative width. -/
def DrawCommand.Valid : DrawCommand Float ι → Prop
  | clear _ _ => True
  | fill _ _ alpha => IsOpacity alpha
  | stroke _ _ alpha width _ => IsOpacity alpha ∧ ¬ width < zero
  | text _ _ _ _ _ alpha _ => IsOpacity alpha
  | image _ _ _ alpha => IsOpacity alpha

/-- A canvas whose paint makes sense, the present one and all that were saved, and whose commands do. -/
structure Canvas.Valid (c : Canvas Float ι) : Prop where
  paint : c.paint.Valid
  saved : ∀ p ∈ c.saved, p.Valid
  commands : ∀ d ∈ c.commands.toList, d.Valid

theorem isOpacity_iff {alpha : Float} : isOpacity alpha = true ↔ IsOpacity alpha := by
  unfold isOpacity IsOpacity
  rw [Bool.and_eq_true]
  exact and_congr decide_eq_true_iff decide_eq_true_iff

theorem isWidth_iff {width : Float} :
    isWidth width = true ↔ width.isFinite = true ∧ zero < width := by
  unfold isWidth
  rw [Bool.and_eq_true]
  exact and_congr_right' decide_eq_true_iff

namespace Paint

theorem valid_standard : (standard : Paint Float).Valid := by
  constructor
  · exact isOpacity_iff.1 (by decide +kernel)
  · decide +kernel
  · decide +kernel

variable {p : Paint Float}

/-- What is no part of the two settings may change. -/
theorem Valid.of_settings {q : Paint Float} (h : p.Valid) (halpha : q.alpha = p.alpha)
    (hwidth : q.lineWidth = p.lineWidth) : q.Valid := by
  constructor
  · rw [halpha]
    exact h.opacity
  · rw [hwidth]
    exact h.finite
  · rw [hwidth]
    exact h.positive

theorem Valid.setAlpha (h : p.Valid) {alpha : Float} (halpha : isOpacity alpha = true) :
    Valid { p with alpha } :=
  ⟨isOpacity_iff.1 halpha, h.finite, h.positive⟩

theorem Valid.setLineWidth (h : p.Valid) {width : Float} (hwidth : isWidth width = true) :
    Valid { p with lineWidth := width } :=
  ⟨h.opacity, (isWidth_iff.1 hwidth).1, (isWidth_iff.1 hwidth).2⟩

/-- However a map scales, it turns no width into a negative one. -/
theorem Valid.not_lt_zero (h : p.Valid) (m : Affine Float) : ¬ p.lineWidth * m.uniformScale < zero := by
  have hscale : (Double.parts m.uniformScale).Unsigned :=
    Double.unsigned_sqrt (Double.unsigned_abs m.determinant)
  have hwidth : (Double.parts p.lineWidth).Unsigned := Double.unsigned_of_zero_lt h.positive
  exact Double.not_lt_zero_of_unsigned (Double.unsigned_mul hwidth hscale)

end Paint

namespace Canvas

variable {c : Canvas Float ι}

theorem valid_empty (reportsTransform : Bool) : (empty reportsTransform : Canvas Float ι).Valid :=
  ⟨Paint.valid_standard, by simp [empty], by simp [empty]⟩

theorem Valid.withPaint (h : c.Valid) {change : Paint Float → Paint Float}
    (hchange : (change c.paint).Valid) : (c.withPaint change).Valid :=
  ⟨hchange, h.saved, h.commands⟩

theorem Valid.extend (h : c.Valid) (e : PathElement Float) : (c.extend e).Valid :=
  ⟨h.paint, h.saved, h.commands⟩

theorem Valid.record (h : c.Valid) {d : DrawCommand Float ι} (hd : d.Valid) : (c.record d).Valid := by
  refine ⟨h.paint, h.saved, ?_⟩
  intro d' hd'
  rw [Canvas.record, Array.toList_push, List.mem_append, List.mem_singleton] at hd'
  rcases hd' with hold | rfl
  · exact h.commands d' hold
  · exact hd

theorem Valid.takeCommands (h : c.Valid) : c.takeCommands.2.Valid :=
  ⟨h.paint, h.saved, by simp [Canvas.takeCommands]⟩

/-- Every call leaves a canvas that makes sense, whatever numbers it is made with. -/
theorem Valid.call (h : c.Valid) (d : CanvasCall Float ι) : (c.call d).Valid := by
  -- an opacity or a width that makes no sense is not taken over; drawing records the paint as it is
  cases d with
  | reset width height =>
    refine ⟨Paint.valid_standard, by simp [Canvas.call], ?_⟩
    intro d hd
    obtain rfl : d = .clear width height := by simpa [Canvas.call] using hd
    trivial
  | save =>
    refine ⟨h.paint, ?_, h.commands⟩
    intro p hp
    rcases List.mem_cons.1 hp with rfl | hold
    · exact h.paint
    · exact h.saved p hold
  | restore =>
    rw [Canvas.call]
    split
    · exact h
    · next paint saved hsaved =>
      have hall := h.saved
      rw [hsaved, List.forall_mem_cons] at hall
      exact ⟨hall.1, hall.2, h.commands⟩
  | setAlpha alpha =>
    rw [Canvas.call]
    by_cases halpha : isOpacity alpha = true
    · rw [if_pos halpha]
      exact h.withPaint (h.paint.setAlpha halpha)
    · rw [if_neg halpha]
      exact h
  | setLineWidth width =>
    rw [Canvas.call]
    by_cases hwidth : isWidth width = true
    · rw [if_pos hwidth]
      exact h.withPaint (h.paint.setLineWidth hwidth)
    · rw [if_neg hwidth]
      exact h
  | beginPath => exact ⟨h.paint, h.saved, h.commands⟩
  | moveTo x y => exact h.extend _
  | lineTo x y => exact h.extend _
  | arc x y radius startAngle endAngle => exact h.extend _
  | closePath => exact h.extend _
  | fill => exact h.record h.paint.opacity
  | stroke => exact h.record ⟨h.paint.opacity, h.paint.not_lt_zero _⟩
  | fillText content x y => exact h.record h.paint.opacity
  | strokeText content x y => exact h.record h.paint.opacity
  | drawImage image x y width height => exact h.record h.paint.opacity
  | _ => exact ⟨h.paint.of_settings rfl rfl, h.saved, h.commands⟩

/-- **Whatever is called, a canvas makes sense.** -/
theorem Valid.calls (h : c.Valid) (ds : List (CanvasCall Float ι)) : (c.calls ds).Valid := by
  induction ds generalizing c with
  | nil => exact h
  | cons d ds ih => exact ih (h.call d)

end Canvas

end FieldDiagram
