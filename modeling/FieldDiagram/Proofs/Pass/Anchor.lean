import FieldDiagram.Proofs.Geometry.Exact
import FieldDiagram.Proofs.Pass.Extent
/-!
# Where a text is anchored

A text turns its axes and flips them so that its glyphs are not mirrored. It does so about the origin
of the axes in force and not about the point where the text belongs, so the point is turned and flipped
with the glyphs: the text lands on the mirror image of its point, in the line through the origin at half
the angle of the text. A circle lands on the point itself.

Main statement: `Pass.text_mirrored`, with exact numbers.
-/

namespace FieldDiagram

variable {ι : Type}

/-- The mirror image of a point in the line through the origin at half an angle: first the point is
flipped over the first axis, then it is turned by the angle. -/
noncomputable def mirrored (angle : ℝ) (p : Point ℝ) : Point ℝ :=
  (Affine.rotation angle).onPoint ⟨p.x, -p.y⟩

/-- Only the points of the line are their own mirror images. -/
theorem mirrored_eq_self_iff (angle : ℝ) (p : Point ℝ) :
    mirrored angle p = p ↔ p.x * Real.sin (angle / 2) = p.y * Real.cos (angle / 2) := by
  obtain ⟨half, rfl⟩ : ∃ half, angle = 2 * half := ⟨angle / 2, by ring⟩
  rw [mul_div_cancel_left₀ half two_ne_zero, mirrored, Affine.onPoint_rotation, Point.ext_iff,
    Real.sin_two_mul, Real.cos_two_mul]
  dsimp only
  have hunit := Real.sin_sq_add_cos_sq half
  constructor
  · rintro ⟨hx, hy⟩
    -- both components are multiples of the distance from the line, by a sine and a cosine
    linear_combination (-Real.sin half / 2) * hx + (Real.cos half / 2) * hy +
      p.y * Real.cos half * hunit
  · intro hline
    constructor
    · linear_combination (-2 * Real.sin half) * hline + 2 * p.x * hunit
    · linear_combination (2 * Real.cos half) * hline

/-- What the axes of a text do to a point. -/
theorem onPoint_glyphs (m : Affine ℝ) (angle : ℝ) (p : Point ℝ) :
    (m * .rotation angle * .scaling Scalar.one (-Scalar.one)).onPoint p =
      m.onPoint (mirrored angle p) := by
  rw [Affine.onPoint_mul, Affine.onPoint_mul, Affine.onPoint_scaling, mirrored]
  simp only [Scalar.one_real, one_mul, neg_mul]

namespace Pass

/-- **Where a text lands.** Whatever operations and settings come before it, a text at a point is
recorded at the mirror image of that point under the map in force, and its glyphs are flipped and turned
by its angle under that map. A circle in its place would be recorded around the point itself. Unless the
map flattens the plane, the two are the same place exactly for the points of the line through the origin
at half the angle of the text. -/
theorem text_mirrored (setting : PassSetting ℝ) (p : Pass ℝ ι) {pre : List (Op ℝ)}
    (hpre : ∀ op ∈ pre, op.fails p.canvas.reportsTransform = false) (post : List (Op ℝ))
    (content : String) (point : Point ℝ) (font : Option String) (angle : ℝ) (outlined : Bool) :
    let before := (p.run setting pre).1.canvas
    let map := before.paint.transform
    let glyphs := map * .rotation angle * .scaling 1 (-1)
    (∃ rest,
        (p.run setting (pre ++ .text content point font angle outlined :: post)).1.canvas.commands.toList =
        before.commands.toList ++ [.text content (map.onPoint (mirrored angle point)) glyphs
          (font.getD before.paint.font) (if outlined then before.paint.stroke else before.paint.fill)
          before.paint.alpha outlined] ++ rest) ∧
      (∀ v, glyphs.onVector v = map.onVector ((Affine.rotation angle).onVector ⟨v.x, -v.y⟩)) ∧
      (∀ radius hollow, ∃ rest,
        (p.run setting (pre ++ .circle point radius hollow :: post)).1.canvas.commands.toList =
          before.commands.toList ++ [before.paint.finished hollow
            [.arc (map.onPoint point) (radius * map.uniformScale) 0 (2 * Real.pi)]] ++ rest) ∧
      (map.determinant ≠ 0 → (map.onPoint (mirrored angle point) = map.onPoint point ↔
        point.x * Real.sin (angle / 2) = point.y * Real.cos (angle / 2))) := by
  intro before map glyphs
  have hglyphs : map * .rotation angle * .scaling Scalar.one (-Scalar.one) = glyphs := by
    rw [Scalar.one_real]
  refine ⟨?_, ?_, ?_, ?_⟩
  · obtain ⟨rest, hrest⟩ := commands_run_append setting p hpre
      (.text content point font angle outlined) rfl post
    refine ⟨rest, hrest.trans ?_⟩
    -- the map of the glyphs is applied to the point as well, and that is what moves it
    have hdraw : before.paint.draw? setting.steps (.text content point font angle outlined) =
        some (DrawCommand.text (ι := ι) content (glyphs.onPoint point) glyphs
          (font.getD before.paint.font) (if outlined then before.paint.stroke else before.paint.fill)
          before.paint.alpha outlined) := by
      rw [← hglyphs]
      rfl
    rw [hdraw, ← hglyphs, onPoint_glyphs]
    rfl
  · intro v
    change (map * Affine.rotation angle * Affine.scaling 1 (-1)).onVector v = _
    rw [Affine.onVector_mul, Affine.onVector_mul]
    simp [Affine.onVector, Affine.scaling]
  · intro radius hollow
    obtain ⟨rest, hrest⟩ := commands_run_append setting p hpre (.circle point radius hollow) rfl post
    refine ⟨rest, hrest.trans ?_⟩
    have hcircle : before.paint.draw? setting.steps (.circle point radius hollow) =
        some (before.paint.finished (ι := ι) hollow
          [.arc (map.onPoint point) (radius * map.uniformScale) Scalar.zero Scalar.fullTurn]) := rfl
    rw [hcircle, Scalar.zero_real, Scalar.fullTurn_real]
    rfl
  · intro hmap
    rw [(Affine.onPoint_injective hmap).eq_iff, mirrored_eq_self_iff]

/-- An upright text at a point that is not on the first axis, behind an origin that has been moved. -/
theorem text_mirrored_upright :
    let p : Pass ℝ String := ⟨.empty true, .empty, .seeded .standard, []⟩
    let setting : PassSetting ℝ := ⟨.identity, 4⟩
    let pre : List (Op ℝ) := [.origin ⟨5, 5⟩]
    let map := (p.run setting pre).1.canvas.paint.transform
    (∀ op ∈ pre, op.fails p.canvas.reportsTransform = false) ∧ map.determinant ≠ 0 ∧
      map.onPoint (mirrored 0 ⟨10, 20⟩) ≠ map.onPoint ⟨10, 20⟩ := by
  intro p setting pre map
  have hpre : ∀ op ∈ pre, op.fails p.canvas.reportsTransform = false := by
    simp [pre, Op.fails, Op.isUnknown, Op.snaps]
  have hmap : map.determinant ≠ 0 := by
    have hlayered : map =
        Affine.identity * Affine.displacement ⟨5, 5⟩ * Affine.rotation Scalar.zero := rfl
    rw [hlayered, Affine.determinant_mul, Affine.determinant_mul, Affine.determinant_identity,
      Affine.determinant_displacement, Affine.determinant_rotation]
    norm_num
  obtain ⟨-, -, -, hiff⟩ := text_mirrored setting p hpre [] "A" ⟨10, 20⟩ none 0 false
  refine ⟨hpre, hmap, fun heq => ?_⟩
  have hline := (hiff hmap).mp heq
  norm_num at hline

/-- So the point of a text is not where the text is anchored. -/
theorem text_not_anchored :
    let p : Pass ℝ String := ⟨.empty true, .empty, .seeded .standard, []⟩
    ¬ ∀ (point : Point ℝ) (angle : ℝ), ∃ glyphs font color alpha,
      (p.run ⟨.identity, 4⟩ [.text "A" point none angle false]).1.canvas.commands.toList =
        [.text "A" (p.canvas.paint.transform.onPoint point) glyphs font color alpha false] := by
  intro p h
  obtain ⟨glyphs, font, color, alpha, hcommands⟩ := h ⟨10, 20⟩ 0
  let axes : Affine ℝ :=
    Affine.identity * Affine.rotation 0 * Affine.scaling Scalar.one (-Scalar.one)
  have hdrawn : (p.run ⟨.identity, 4⟩ [.text "A" ⟨10, 20⟩ none 0 false]).1.canvas.commands.toList =
      [.text "A" (axes.onPoint ⟨10, 20⟩) axes p.canvas.paint.font p.canvas.paint.fill
        p.canvas.paint.alpha false] := rfl
  have heq := (DrawCommand.text.inj (List.cons.inj (hdrawn.symm.trans hcommands)).1).2.1
  have hself : p.canvas.paint.transform.onPoint ⟨10, 20⟩ = (⟨10, 20⟩ : Point ℝ) :=
    Affine.onPoint_identity _
  rw [onPoint_glyphs, Affine.onPoint_identity, hself, mirrored_eq_self_iff] at heq
  norm_num at heq

end Pass

end FieldDiagram
