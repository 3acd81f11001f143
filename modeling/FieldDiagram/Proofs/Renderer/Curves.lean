import Mathlib
import FieldDiagram.Overlay.Codec
import FieldDiagram.Proofs.Ensures
import FieldDiagram.Proofs.Pass.Untold
import FieldDiagram.Proofs.Renderer.Place
import FieldDiagram.Proofs.Scalar.Exact
/-!
# Samples of a curve

A curve is drawn through evenly spaced samples, of which only the first is snapped to the pixels. With exact
numbers the samples lie on the polynomials of the coefficients, from the last coefficients at the start to
their sums at the end, and taking more steps keeps the samples of fewer ones among them. The twelve
coefficients come from one flat record, each by a name that tells its power and its axis.

Main statement: `Renderer.curve_samples`.
-/

namespace FieldDiagram

variable {ι : Type}

/-! ## Positions

Curves are evaluated by a scheme of their own. In exact numbers it gives the polynomial, and that is where
the coefficients get their meaning. -/

namespace SplineAxis

/-- The polynomial of the coefficients. -/
def position (s : SplineAxis ℝ) (t : ℝ) : ℝ :=
  s.a * t ^ 5 + s.b * t ^ 4 + s.c * t ^ 3 + s.d * t ^ 2 + s.e * t + s.f

/-- The two highest powers are taken out together, which makes no difference. -/
theorem eval_eq_position (s : SplineAxis ℝ) (t : ℝ) : s.eval t = s.position t := by
  simp only [eval, position]
  ring

theorem position_zero (s : SplineAxis ℝ) : s.position 0 = s.f := by
  simp [position]

theorem position_one (s : SplineAxis ℝ) : s.position 1 = s.a + s.b + s.c + s.d + s.e + s.f := by
  simp [position]

end SplineAxis

namespace SplineCurve

/-- The point of the two polynomials. -/
def position (curve : SplineCurve ℝ) (t : ℝ) : Point ℝ := ⟨curve.x.position t, curve.y.position t⟩

/-! ## Samples

The samples are told one by one, by their index, and everything else about them is read off that. -/

theorem sample_eq_map (curve : SplineCurve ℝ) (steps : Nat) :
    curve.sample steps = (List.range (steps + 1)).map fun i : Nat => curve.position (i / steps) := by
  simp only [sample, eval, position, SplineAxis.eval_eq_position, Scalar.ofNat_real]

theorem getElem?_sample (curve : SplineCurve ℝ) (steps i : Nat) :
    (curve.sample steps)[i]? = if i ≤ steps then some (curve.position (i / steps)) else none := by
  rw [sample_eq_map, List.getElem?_map]
  split
  · next hi => rw [List.getElem?_range (Nat.lt_succ_of_le hi), Option.map_some]
  · next hi =>
    rw [List.getElem?_eq_none (by rw [List.length_range]; omega), Option.map_none]

/-- The samples of fewer steps are among those of more, at equal distances. -/
theorem getElem?_sample_mul (curve : SplineCurve ℝ) (steps i : Nat) {k : Nat} (hk : 0 < k) :
    (curve.sample (k * steps))[k * i]? = (curve.sample steps)[i]? := by
  -- the parameter of a sample is a fraction, and the factor cancels in it
  have hparameter : ((k * i : Nat) : ℝ) / ((k * steps : Nat) : ℝ) = i / steps := by
    rw [Nat.cast_mul, Nat.cast_mul, mul_div_mul_left _ _ (Nat.cast_ne_zero.2 hk.ne')]
  rw [getElem?_sample, getElem?_sample, hparameter]
  simp only [Nat.mul_le_mul_left_iff hk]

/-- The first sample is the start of the curve, however many there are. -/
theorem sample_eq_cons (curve : SplineCurve ℝ) (steps : Nat) :
    curve.sample steps = ⟨curve.x.f, curve.y.f⟩ ::
      (List.range steps).map fun i : Nat => curve.position ((i + 1) / steps) := by
  rw [sample_eq_map, List.range_succ_eq_map, List.map_cons, List.map_map, Nat.cast_zero, zero_div,
    position, SplineAxis.position_zero, SplineAxis.position_zero]
  congr 1
  refine List.map_congr_left fun i _ => ?_
  rw [Function.comp_apply, Nat.succ_eq_add_one, Nat.cast_add_one]

theorem getLast?_sample (curve : SplineCurve ℝ) {steps : Nat} (hsteps : 0 < steps) :
    (curve.sample steps).getLast? = some (curve.position 1) := by
  rw [List.getLast?_eq_getElem?, length_sample, Nat.add_sub_cancel, getElem?_sample, if_pos le_rfl,
    div_self (Nat.cast_ne_zero.2 hsteps.ne')]

/-! ## Names

A curve is one flat record of twelve numbers; a letter tells the power and a letter tells the axis. An
exchange of two of them would be read without any error, so each name is tied to its place. -/

/-- A curve is read exactly if a number is read under each of the twelve names, and then it has each number
on its axis and at its power. -/
theorem ofFields_eq_ok_iff {ν : Type} {real : ν → Decoded Float} {fs : Fields ν}
    {curve : SplineCurve Float} :
    ofFields real fs = .ok curve ↔
      (fs.get "ax" real = .ok curve.x.a ∧ fs.get "bx" real = .ok curve.x.b ∧
        fs.get "cx" real = .ok curve.x.c ∧ fs.get "dx" real = .ok curve.x.d ∧
        fs.get "ex" real = .ok curve.x.e ∧ fs.get "fx" real = .ok curve.x.f) ∧
      fs.get "ay" real = .ok curve.y.a ∧ fs.get "by" real = .ok curve.y.b ∧
        fs.get "cy" real = .ok curve.y.c ∧ fs.get "dy" real = .ok curve.y.d ∧
        fs.get "ey" real = .ok curve.y.e ∧ fs.get "fy" real = .ok curve.y.f := by
  constructor
  · intro hread
    obtain ⟨_, hax, hread⟩ := exists_of_bind hread
    obtain ⟨_, hbx, hread⟩ := exists_of_bind hread
    obtain ⟨_, hcx, hread⟩ := exists_of_bind hread
    obtain ⟨_, hdx, hread⟩ := exists_of_bind hread
    obtain ⟨_, hex, hread⟩ := exists_of_bind hread
    obtain ⟨_, hfx, hread⟩ := exists_of_bind hread
    obtain ⟨_, hay, hread⟩ := exists_of_bind hread
    obtain ⟨_, hby, hread⟩ := exists_of_bind hread
    obtain ⟨_, hcy, hread⟩ := exists_of_bind hread
    obtain ⟨_, hdy, hread⟩ := exists_of_bind hread
    obtain ⟨_, hey, hread⟩ := exists_of_bind hread
    obtain ⟨_, hfy, hread⟩ := exists_of_bind hread
    obtain rfl := Except.ok.inj hread
    exact ⟨⟨hax, hbx, hcx, hdx, hex, hfx⟩, hay, hby, hcy, hdy, hey, hfy⟩
  · -- the names are asked for in this order, axis by axis
    rintro ⟨⟨hax, hbx, hcx, hdx, hex, hfx⟩, hay, hby, hcy, hdy, hey, hfy⟩
    rw [ofFields, hax, hbx, hcx, hdx, hex, hfx, hay, hby, hcy, hdy, hey, hfy]
    rfl

/-! ## The stroke

Snapping is asked for at the first sample alone, by the operation that begins the path; the others are added
as they are. -/

/-- The command of a curve: from its snapped start through the further samples as they are. -/
noncomputable def strokeWith (curve : SplineCurve ℝ) (p : Paint ℝ) (steps : Nat) : DrawCommand ℝ ι :=
  let map := p.transform
  .stroke (.moveTo (map.onPoint (map.align ⟨curve.x.f, curve.y.f⟩)) ::
      (List.range steps).map fun i : Nat => .lineTo (map.onPoint (curve.position ((i + 1) / steps))))
    p.stroke p.alpha (p.lineWidth * map.uniformScale) p.lineCap

theorem draw?_eq_strokeWith (curve : SplineCurve ℝ) (p : Paint ℝ) (steps : Nat) :
    p.draw? steps (.spline curve) = some (curve.strokeWith p steps : DrawCommand ℝ ι) := by
  rw [Paint.draw?_of_path? rfl, sample_eq_cons, Affine.curveChain, List.map_map]
  rfl

end SplineCurve

/-- A curve adds its stroke, whatever there is on the canvas, if the canvas tells its map. -/
theorem Pass.step_spline (setting : PassSetting ℝ) (index : Nat) (curve : SplineCurve ℝ) (p : Pass ℝ ι) :
    let after := p.step setting index (.spline curve)
    (p.canvas.reportsTransform = true → after.2 = none ∧ after.1.canvas.commands.toList =
      p.canvas.commands.toList ++ [curve.strokeWith p.canvas.paint setting.steps]) ∧
    (p.canvas.reportsTransform = false → after.2 = some (.surface .transformUnavailable) ∧
      after.1.canvas.commands = p.canvas.commands) := by
  intro after
  constructor
  · intro htells
    have hproceeds : (Op.spline curve).failure? p.canvas.reportsTransform index = none := by
      rw [htells]
      rfl
    obtain ⟨hok, hcanvas⟩ := canvas_step setting hproceeds
    refine ⟨hok, ?_⟩
    rw [hcanvas, Canvas.commands_afterOp, curve.draw?_eq_strokeWith, Option.toList_some]
  · intro huntold
    have hrefused : after = _ := step_of_needsMap setting index huntold (.spline curve)
    rw [hrefused]
    exact ⟨rfl, rfl⟩

namespace Renderer

/-- **Samples of a curve**, with exact numbers. Every number of steps gives one sample more, each at its
part of the way on the polynomials of the coefficients; the first is made of the last coefficients, the
last of their sums. A multiple of the steps gives the same samples at equal distances, with others in
between. A record is read with the number of each name on its axis and at its power. And a curve that a
pass carries out adds one stroke, from the snapped first sample through all further ones, which are not
snapped; it fails, and draws nothing, where the canvas does not tell its map. In the diagram of a renderer
that stroke stands at the place of its operation, with the steps of the options. -/
theorem curve_samples :
    (∀ (curve : SplineCurve ℝ) (steps : Nat), 0 < steps →
      (curve.sample steps).length = steps + 1 ∧
      (∀ i ≤ steps, (curve.sample steps)[i]? =
        some ⟨curve.x.position (i / steps), curve.y.position (i / steps)⟩) ∧
      (curve.sample steps).head? = some ⟨curve.x.f, curve.y.f⟩ ∧
      (curve.sample steps).getLast? =
        some ⟨curve.x.a + curve.x.b + curve.x.c + curve.x.d + curve.x.e + curve.x.f,
          curve.y.a + curve.y.b + curve.y.c + curve.y.d + curve.y.e + curve.y.f⟩ ∧
      ∀ k, 0 < k → ∀ i, (curve.sample steps)[i]? = (curve.sample (k * steps))[k * i]?) ∧
    (∀ (ν : Type) (real : ν → Decoded Float) (fs : Fields ν) (curve : SplineCurve Float),
      SplineCurve.ofFields real fs = .ok curve ↔
        (fs.get "ax" real = .ok curve.x.a ∧ fs.get "bx" real = .ok curve.x.b ∧
          fs.get "cx" real = .ok curve.x.c ∧ fs.get "dx" real = .ok curve.x.d ∧
          fs.get "ex" real = .ok curve.x.e ∧ fs.get "fx" real = .ok curve.x.f) ∧
        fs.get "ay" real = .ok curve.y.a ∧ fs.get "by" real = .ok curve.y.b ∧
          fs.get "cy" real = .ok curve.y.c ∧ fs.get "dy" real = .ok curve.y.d ∧
          fs.get "ey" real = .ok curve.y.e ∧ fs.get "fy" real = .ok curve.y.f) ∧
    (∀ (setting : PassSetting ℝ) (index : Nat) (curve : SplineCurve ℝ) (p : Pass ℝ ι),
      let after := p.step setting index (.spline curve)
      (p.canvas.reportsTransform = true → after.2 = none ∧ after.1.canvas.commands.toList =
        p.canvas.commands.toList ++ [curve.strokeWith p.canvas.paint setting.steps]) ∧
      (p.canvas.reportsTransform = false → after.2 = some (.surface .transformUnavailable) ∧
        after.1.canvas.commands = p.canvas.commands)) ∧
    ∀ (r : Renderer ℝ ι) (size : SurfaceSize ℝ), r.canvas.reportsTransform = true →
      ∀ pre curve post, r.overlay.executed = pre ++ .spline curve :: post →
        let before := r.canvasBehind size pre
        ∃ rest, (r.render size).1.canvas.commands.toList = before.commands.toList ++
          curve.strokeWith before.paint r.options.splineSamples.1 :: rest := by
  refine ⟨?_, ?_, ?_, ?_⟩
  · intro curve steps hsteps
    refine ⟨curve.length_sample steps, ?_, ?_, ?_, ?_⟩
    · intro i hi
      rw [curve.getElem?_sample, if_pos hi, SplineCurve.position]
    · rw [curve.sample_eq_cons, List.head?_cons]
    · rw [curve.getLast?_sample hsteps, SplineCurve.position, SplineAxis.position_one,
        SplineAxis.position_one]
    · intro k hk i
      exact (curve.getElem?_sample_mul steps i hk).symm
  · intro ν real fs curve
    exact SplineCurve.ofFields_eq_ok_iff
  · intro setting index curve p
    exact Pass.step_spline setting index curve p
  · intro r size htells pre curve post hsplit before
    obtain ⟨rest, hcommands⟩ := commands_render_split htells size hsplit
    refine ⟨rest, ?_⟩
    rw [hcommands, curve.draw?_eq_strokeWith, Option.toList_some, List.append_assoc,
      List.singleton_append]

/-- A curve with every power on one axis and a line on the other, sampled in four steps and in twelve; and
the same curve behind a rotation, in one step. -/
theorem curve_samples_of_quintic :
    let curve : SplineCurve ℝ := ⟨⟨1, 2, 3, 4, 5, 6⟩, ⟨0, 0, 0, 0, 2, -1⟩⟩
    let options : Options ℝ := ⟨15, 1, 144, ⟨1, by decide⟩, 3, .black, "field.png"⟩
    let size : SurfaceSize ℝ := ⟨800, 600, 2⟩
    let r : Renderer ℝ String :=
      (new (.empty true) options).setOverlay ⟨[.rotation 1, .spline curve, .alpha 1]⟩
    let before := r.canvasBehind size [.rotation 1]
    let mute : Pass ℝ String := ⟨.empty false, .empty, .seeded .standard, []⟩
    (curve.sample 4).length = 5 ∧ (curve.sample 4)[2]? = some ⟨321 / 32, 0⟩ ∧
      (curve.sample 4).head? = some ⟨6, -1⟩ ∧ (curve.sample 4).getLast? = some ⟨21, 1⟩ ∧
      (curve.sample 4)[3]? = (curve.sample 12)[9]? ∧
      r.canvas.reportsTransform = true ∧
      (∃ rest, (r.render size).1.canvas.commands.toList = before.commands.toList ++
        curve.strokeWith before.paint 1 :: rest) ∧
      (mute.step ⟨.identity, 4⟩ 0 (.spline curve)).1.canvas.commands = #[] := by
  intro curve options size r before mute
  obtain ⟨hsamples, -, hsteps, hstrokes⟩ := curve_samples (ι := String)
  obtain ⟨hlength, hplaces, hfirst, hlast, hmultiples⟩ := hsamples curve 4 (by decide)
  have hstroke := hstrokes r size rfl [.rotation 1] curve [.alpha 1] rfl
  obtain ⟨-, hmute⟩ := hsteps ⟨.identity, 4⟩ 0 curve mute
  refine ⟨hlength, ?_, hfirst, ?_, hmultiples 3 (by decide) 3, rfl, hstroke, (hmute rfl).2⟩
  · rw [hplaces 2 (by decide)]
    norm_num [curve, SplineAxis.position]
  · rw [hlast]
    norm_num [curve]

end Renderer

end FieldDiagram
