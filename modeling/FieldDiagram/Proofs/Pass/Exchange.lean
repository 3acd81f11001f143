import FieldDiagram.Proofs.Renderer.Stages
import FieldDiagram.Scalar.Machine
/-!
# Operations that may change places

An operation that draws nothing sets something, and two that set different things may come in either
order: each gives its own setting the same value, or is ignored, whatever was set just before. Origin and
rotation are both part of the map, but each of them builds it anew from what both were last set to. Only
factors are lost when the map is built anew, so a scale has to stay on its side of an origin or a
rotation.

Main statement: `Pass.run_exchange`.
-/

namespace FieldDiagram

variable {α ι γ : Type}

/-! ## Two events of a history

Settings are told by the last event that concerns them; so exchanging two events is about these two alone,
whatever stands around them. -/

/-- Two events may change places if one of them says nothing, and also if both say the same. -/
theorem latest?_pair_comm {tells : γ → Option α} {a b : γ}
    (h : tells a = none ∨ tells b = none ∨ tells a = tells b) :
    latest? tells [a, b] = latest? tells [b, a] := by
  have hpair : ∀ c d : γ, latest? tells [c, d] = (tells d).or (tells c) := by
    intro c d
    rw [← List.singleton_append, latest?_concat, latest?_singleton]
  rw [hpair, hpair]
  rcases h with ha | hb | hsame
  · rw [ha, Option.none_or, Option.or_none]
  · rw [hb, Option.none_or, Option.or_none]
  · rw [hsame]

theorem filterMap_pair_comm {tells : γ → Option α} {a b : γ} (h : tells a = none ∨ tells b = none) :
    [a, b].filterMap tells = [b, a].filterMap tells := by
  rcases h with hnone | hnone
  · simp [List.filterMap_cons, hnone]
  · simp [List.filterMap_cons, hnone]

namespace Op

/-! ## Operations that set something

Two operations of different kinds never say something about the same setting, as each setting is said by one
kind only. The factors are the one thing that two kinds have a say in, and there it is checked by cases. -/

/-- Whether an operation sets something and draws nothing. -/
def isSetting : Op α → Bool
  | image .. => true
  | grid .. => true
  | scale .. => true
  | rotation _ => true
  | origin _ => true
  | alpha _ => true
  | fill _ => true
  | stroke _ => true
  | strokeWidth _ => true
  | _ => false

/-- Operations that may change places: they set different things, and they are not a scale and the
rotation or origin that drops its factors. -/
structure Exchangeable (a b : Op α) : Prop where
  left : a.isSetting = true
  right : b.isSetting = true
  kinds : a.kind ≠ b.kind
  scale_left : a.kind = "scale" → b.kind ≠ "rotation" ∧ b.kind ≠ "origin"
  scale_right : b.kind = "scale" → a.kind ≠ "rotation" ∧ a.kind ≠ "origin"

theorem exchangeable_origin_rotation (point : Point α) (angle : α) :
    (origin point).Exchangeable (rotation angle) :=
  ⟨rfl, rfl, by simp [kind], by simp [kind], by simp [kind]⟩

/-- An operation that only sets something never fails. -/
theorem failure?_of_isSetting {op : Op α} (h : op.isSetting = true) (tells : Bool) (index : Nat) :
    op.failure? tells index = none := by
  cases op <;> first | rfl | exact absurd h Bool.false_ne_true

/-- What only one kind of operation says anything about. -/
def SaidOnlyBy (only : String) (tells : Op α → Option γ) : Prop :=
  ∀ op : Op α, op.kind ≠ only → tells op = none

theorem saidOnlyBy_fill : SaidOnlyBy "fill" (fillColor? (α := α)) := by
  intro op h
  cases op <;> simp_all [kind, fillColor?]

theorem saidOnlyBy_stroke : SaidOnlyBy "stroke" (strokeColor? (α := α)) := by
  intro op h
  cases op <;> simp_all [kind, strokeColor?]

theorem saidOnlyBy_origin : SaidOnlyBy "origin" (newOrigin? (α := α)) := by
  intro op h
  cases op <;> simp_all [kind, newOrigin?]

theorem saidOnlyBy_rotation : SaidOnlyBy "rotation" (newRotation? (α := α)) := by
  intro op h
  cases op <;> simp_all [kind, newRotation?]

theorem saidOnlyBy_grid : SaidOnlyBy "grid" (newGrid? (α := α)) := by
  intro op h
  cases op <;> simp_all [kind, newGrid?]

theorem saidOnlyBy_image : SaidOnlyBy "image" (newArt? (α := α)) := by
  intro op h
  cases op <;> simp_all [kind, newArt?]

theorem saidOnlyBy_strokeWidth [Scalar α] : SaidOnlyBy "strokeWidth" (lineWidth? (α := α)) := by
  intro op h
  cases op <;> simp_all [kind, lineWidth?]

theorem saidOnlyBy_alpha [Scalar α] : SaidOnlyBy "alpha" (opacity? (α := α)) := by
  intro op h
  cases op <;> simp_all [kind, opacity?]

/-- Of two operations of different kinds, at most one says anything about such a thing. -/
theorem Exchangeable.silent {a b : Op α} (h : a.Exchangeable b) {only : String}
    {tells : Op α → Option γ} (honly : SaidOnlyBy only tells) : tells a = none ∨ tells b = none := by
  by_cases ha : a.kind = only
  · right
    apply honly
    rw [← ha]
    exact h.kinds.symm
  · left
    exact honly a ha

theorem Exchangeable.latest?_comm {a b : Op α} (h : a.Exchangeable b) {only : String}
    {tells : Op α → Option γ} (honly : SaidOnlyBy only tells) :
    FieldDiagram.latest? tells [a, b] = FieldDiagram.latest? tells [b, a] := by
  apply latest?_pair_comm
  rcases h.silent honly with ha | hb
  · exact Or.inl ha
  · exact Or.inr (Or.inl hb)

/-- Only a scale puts factors on top of the map; an origin or a rotation can only take them away. -/
theorem stretch?_of_kind {op : Op α} (h : op.kind ≠ "scale") :
    op.stretch? = none ∨ op.stretch? = some none := by
  cases op <;> simp_all [kind, stretch?]

theorem stretch?_of_kinds {op : Op α} (hscale : op.kind ≠ "scale")
    (hothers : op.kind ≠ "rotation" ∧ op.kind ≠ "origin") : op.stretch? = none := by
  cases op <;> simp_all [kind, stretch?]

/-- Of two operations that may change places, one leaves the factors alone, or both take them away. -/
theorem Exchangeable.stretch?_cases {a b : Op α} (h : a.Exchangeable b) :
    a.stretch? = none ∨ b.stretch? = none ∨ a.stretch? = b.stretch? := by
  by_cases ha : a.kind = "scale"
  · have hb : b.kind ≠ "scale" := ha ▸ h.kinds.symm
    exact Or.inr (Or.inl (stretch?_of_kinds hb (h.scale_left ha)))
  · by_cases hb : b.kind = "scale"
    · exact Or.inl (stretch?_of_kinds ha (h.scale_right hb))
    · -- neither is a scale, so what they say about the factors can only be the same
      rcases stretch?_of_kind ha with hnone | hdrop
      · exact Or.inl hnone
      · rcases stretch?_of_kind hb with hnone | hdrop'
        · exact Or.inr (Or.inl hnone)
        · exact Or.inr (Or.inr (hdrop.trans hdrop'.symm))

end Op

/-! ## Settings, paint and images

What the parts of a pass are after two operations, in either order. -/

theorem ImageCache.after_exchange {a b : Op α} (h : a.Exchangeable b) (c : ImageCache α ι) :
    c.after [a, b] = c.after [b, a] := by
  have hsource : a.source? = none ∨ b.source? = none := by
    simpa only [Op.source?, Option.map_eq_none_iff] using h.silent Op.saidOnlyBy_image
  rw [after, after, h.latest?_comm Op.saidOnlyBy_image, filterMap_pair_comm hsource]

variable [Scalar α]

open Scalar (ofNat zero one)

theorem OverlayState.after_exchange {a b : Op α} (h : a.Exchangeable b) (s : OverlayState α) :
    s.after [a, b] = s.after [b, a] := by
  rw [after, after, h.latest?_comm Op.saidOnlyBy_fill, h.latest?_comm Op.saidOnlyBy_stroke,
    h.latest?_comm Op.saidOnlyBy_strokeWidth, h.latest?_comm Op.saidOnlyBy_alpha,
    h.latest?_comm Op.saidOnlyBy_origin, h.latest?_comm Op.saidOnlyBy_rotation, h.latest?_comm Op.saidOnlyBy_grid]

/-- The map is built from origin, rotation and factors, and these do not hang on the order. -/
theorem Paint.after_exchange {a b : Op α} (h : a.Exchangeable b) (p : Paint α) (base : Affine α)
    (s : OverlayState α) : p.after base s [a, b] = p.after base s [b, a] := by
  rw [after, after, s.after_exchange h, latest?_pair_comm h.stretch?_cases, h.latest?_comm Op.saidOnlyBy_fill,
    h.latest?_comm Op.saidOnlyBy_stroke, h.latest?_comm Op.saidOnlyBy_strokeWidth,
    h.latest?_comm Op.saidOnlyBy_alpha]

/-- An operation that only sets something changes nothing of a canvas but its paint. -/
theorem Canvas.afterOp_of_isSetting {op : Op α} (h : op.isSetting = true) (c : Canvas α ι)
    (setting : PassSetting α) (s : OverlayState α) :
    c.afterOp setting s op = { c with paint := c.paint.after setting.base s [op] } := by
  cases op <;> first | rfl | exact absurd h Bool.false_ne_true

namespace Pass

/-! ## Passes that differ in their log

An operation may leave a line in the log, about a colour that is none or a grid that is too fine, and an
exchange brings two such lines into the other order. So passes are compared up to their logs, and steps keep
them comparable because no step reads the log. -/

/-- Passes that have come to the same, whatever they have put in the log. -/
structure SameButLog (p q : Pass α ι) : Prop where
  canvas : p.canvas = q.canvas
  images : p.images = q.images
  state : p.state = q.state

/-- A step does not look at the log. -/
theorem SameButLog.step {p q : Pass α ι} (h : SameButLog p q) (setting : PassSetting α) (index : Nat)
    (op : Op α) :
    (p.step setting index op).2 = (q.step setting index op).2 ∧
      SameButLog (p.step setting index op).1 (q.step setting index op).1 := by
  refine ⟨?_, ?_, ?_, ?_⟩
  · rw [failure_step, failure_step, h.canvas]
  · rcases hfails : op.failure? p.canvas.reportsTransform index with _ | e
    · have hfails' := hfails
      rw [h.canvas] at hfails'
      rw [(canvas_step setting hfails).2, (canvas_step setting hfails').2, h.canvas, h.state]
    · have hfails' := hfails
      rw [h.canvas] at hfails'
      rw [(canvas_step_of_failure hfails).2, (canvas_step_of_failure hfails').2, h.canvas]
  · rw [images_step, images_step, h.images]
  · rw [state_step, state_step, h.state]

theorem SameButLog.runFrom {p q : Pass α ι} (h : SameButLog p q) (setting : PassSetting α)
    (index : Nat) (ops : List (Op α)) :
    (p.runFrom setting index ops).2 = (q.runFrom setting index ops).2 ∧
      SameButLog (p.runFrom setting index ops).1 (q.runFrom setting index ops).1 := by
  induction ops generalizing index p q with
  | nil => exact ⟨rfl, h⟩
  | cons op ops ih =>
    obtain ⟨hfailure, hnext⟩ := h.step setting index op
    rw [Pass.runFrom, Pass.runFrom]
    rcases hp : p.step setting index op with ⟨p', _ | e⟩ <;>
      rcases hq : q.step setting index op with ⟨q', _ | e'⟩ <;>
      rw [hp, hq] at hfailure hnext
    · exact ih hnext (index + 1)
    · exact absurd hfailure (Option.some_ne_none e').symm
    · exact absurd hfailure (Option.some_ne_none e)
    · exact ⟨hfailure, hnext⟩

/-! ## Two steps

Both orders come to the same pass but for its log. -/

/-- Two operations that only set something are both carried out, and the canvas is changed by their
paint alone. -/
theorem steps_of_isSetting (setting : PassSetting α) (index : Nat) {a b : Op α}
    (ha : a.isSetting = true) (hb : b.isSetting = true) (p : Pass α ι) :
    ∃ q : Pass α ι,
      (∀ post, p.runFrom setting index (a :: b :: post) = q.runFrom setting (index + 2) post) ∧
      q.canvas = { p.canvas with paint := p.canvas.paint.after setting.base p.state [a, b] } ∧
      q.images = p.images.after [a, b] ∧ q.state = p.state.after [a, b] := by
  have hok : ∀ {op : Op α}, op.isSetting = true → ∀ i (p : Pass α ι),
      p.step setting i op = ((p.step setting i op).1, none) := by
    intro op hop i p
    rw [Prod.ext_iff]
    exact ⟨rfl, (canvas_step setting (Op.failure?_of_isSetting hop _ i)).1⟩
  have hcanvas : ∀ {op : Op α}, op.isSetting = true → ∀ i (p : Pass α ι),
      (p.step setting i op).1.canvas =
        { p.canvas with paint := p.canvas.paint.after setting.base p.state [op] } := by
    intro op hop i p
    rw [(canvas_step setting (Op.failure?_of_isSetting hop _ i)).2, Canvas.afterOp_of_isSetting hop]
  have hsplit : [a, b] = [a] ++ [b] := rfl
  refine ⟨((p.step setting index a).1.step setting (index + 1) b).1, ?_, ?_, ?_, ?_⟩
  · intro post
    rw [runFrom_cons_of_ok (hok ha index p), runFrom_cons_of_ok (hok hb (index + 1) _)]
  · rw [hcanvas hb, hcanvas ha, state_step, hsplit, Paint.after_append]
  · rw [images_step, images_step, hsplit, ImageCache.after_append, ImageCache.after_singleton,
      ImageCache.after_singleton]
  · rw [state_step, state_step, hsplit, OverlayState.after_append]

theorem runFrom_exchange (setting : PassSetting α) (index : Nat) {a b : Op α}
    (hab : a.Exchangeable b) (post : List (Op α)) (p : Pass α ι) :
    (p.runFrom setting index (a :: b :: post)).2 = (p.runFrom setting index (b :: a :: post)).2 ∧
      SameButLog (p.runFrom setting index (a :: b :: post)).1
        (p.runFrom setting index (b :: a :: post)).1 := by
  obtain ⟨q, hrun, hcanvas, himages, hstate⟩ := steps_of_isSetting setting index hab.left hab.right p
  obtain ⟨r, hrun', hcanvas', himages', hstate'⟩ :=
    steps_of_isSetting setting index hab.right hab.left p
  rw [hrun, hrun']
  have hsame : SameButLog q r := by
    constructor
    · rw [hcanvas, hcanvas', Paint.after_exchange hab]
    · rw [himages, himages', ImageCache.after_exchange hab]
    · rw [hstate, hstate', OverlayState.after_exchange hab]
  exact hsame.runFrom setting (index + 2) post

/-! ## Runs and frames

What comes before the two operations is the same run, and what comes behind them starts from passes that
differ in their log alone. -/

theorem sameButLog_run (setting : PassSetting α) (pre post : List (Op α)) {a b : Op α}
    (hab : a.Exchangeable b) (p : Pass α ι) :
    (p.run setting (pre ++ a :: b :: post)).2 = (p.run setting (pre ++ b :: a :: post)).2 ∧
      SameButLog (p.run setting (pre ++ a :: b :: post)).1
        (p.run setting (pre ++ b :: a :: post)).1 := by
  rw [run, run, runFrom_append, runFrom_append]
  rcases p.runFrom setting 0 pre with ⟨q, _ | e⟩
  · exact runFrom_exchange setting (0 + pre.length) hab post q
  · -- the operations before have failed, and neither of the two is looked at
    exact ⟨rfl, rfl, rfl, rfl⟩

end Pass

namespace Renderer

/-- The renderer of a frame comes out the same if the passes over its overlays differ in their log
alone. -/
theorem render_of_sameButLog {ops more : List (Op α)}
    (h : ∀ (setting : PassSetting α) (p : Pass α ι),
      (p.run setting ops).2 = (p.run setting more).2 ∧
        Pass.SameButLog (p.run setting ops).1 (p.run setting more).1)
    (r : Renderer α ι) (size : SurfaceSize α) :
    let one := (r.setOverlay ⟨ops⟩).render size
    let other := (r.setOverlay ⟨more⟩).render size
    one.2 = other.2 ∧ one.1.canvas = other.1.canvas ∧ one.1.images = other.1.images ∧
      one.1.base = other.1.base ∧ one.1.grid = other.1.grid := by
  rcases htells : r.canvas.reportsTransform with _ | _
  · rw [render_of_not_tells (by exact htells), render_of_not_tells (by exact htells)]
    exact ⟨rfl, rfl, rfl, rfl, rfl⟩
  · rw [render_of_tells (by exact htells), render_of_tells (by exact htells),
      drawOverlay_of_tells (by rw [reportsTransform_beneath]; exact htells),
      drawOverlay_of_tells (by rw [reportsTransform_beneath]; exact htells)]
    -- the overlay has no part in what is beneath it, so both passes start from the same
    let under := r.beneath size
    let base := (FieldRect.onSurface size r.options.padding).baseTransform
      under.canvas.paint.transform r.options.fieldSize
    obtain ⟨hfailure, hsame⟩ := h ⟨base, r.options.splineSamples.1⟩ (under.overlayStart base)
    exact ⟨hfailure, congrArg (Canvas.call · .restore) hsame.canvas, hsame.images, rfl,
      congrArg OverlayState.grid hsame.state⟩

end Renderer

/-- **Operations that only set something may change places.** Let two operations that are next to each
other in an overlay set different things, and let them not be a scale and a rotation or origin. Then in
every pass, whatever was drawn before and is drawn after, on every canvas and with all values, also those
that are ignored, exchanging the two changes neither how the pass ends nor anything it leaves but lines
of the log: canvas (commands, map and paint, saved paints, path), settings, and images (slots, placement,
requests). So a frame stays the same too. -/
theorem Pass.run_exchange {a b : Op α} (hab : a.Exchangeable b) (pre post : List (Op α)) :
    (∀ (setting : PassSetting α) (p : Pass α ι),
      let one := p.run setting (pre ++ a :: b :: post)
      let other := p.run setting (pre ++ b :: a :: post)
      one.2 = other.2 ∧ one.1.canvas = other.1.canvas ∧ one.1.state = other.1.state ∧
        one.1.images = other.1.images) ∧
    ∀ (r : Renderer α ι) (size : SurfaceSize α),
      let one := (r.setOverlay ⟨pre ++ a :: b :: post⟩).render size
      let other := (r.setOverlay ⟨pre ++ b :: a :: post⟩).render size
      one.2 = other.2 ∧ one.1.canvas = other.1.canvas ∧ one.1.images = other.1.images ∧
        one.1.base = other.1.base ∧ one.1.grid = other.1.grid := by
  have hrun := fun setting (p : Pass α ι) => Pass.sameButLog_run setting pre post hab p
  constructor
  · intro setting p
    obtain ⟨hfailure, hsame⟩ := hrun setting p
    exact ⟨hfailure, hsame.canvas, hsame.state, hsame.images⟩
  · exact Renderer.render_of_sameButLog hrun

/-- An origin and a rotation in the midst of drawing, on a canvas in use. -/
theorem Pass.run_exchange_origin_rotation :
    let used : Pass Float String :=
      ⟨(Canvas.empty true).calls [.save, .setAlpha zero], .empty, .seeded .standard, []⟩
    let pre : List (Op Float) := [.fill "red", .circle .zero one false, .scale (ofNat 2) one]
    let post : List (Op Float) := [.strokeWidth zero, .polyline [one, zero] [one, one]]
    let moved : Op Float := .origin ⟨one, ofNat 3⟩
    let turned : Op Float := .rotation (ofNat 30)
    moved.Exchangeable turned ∧
      (used.run ⟨.identity, 4⟩ (pre ++ moved :: turned :: post)).1.canvas =
        (used.run ⟨.identity, 4⟩ (pre ++ turned :: moved :: post)).1.canvas := by
  intro used pre post moved turned
  have hab : moved.Exchangeable turned := Op.exchangeable_origin_rotation _ _
  obtain ⟨hruns, -⟩ := Pass.run_exchange (ι := String) hab pre post
  exact ⟨hab, (hruns ⟨.identity, 4⟩ used).2.1⟩

end FieldDiagram
