import FieldDiagram.Pass
import FieldDiagram.Proofs.Canvas.SnappedPath
import FieldDiagram.Proofs.History
/-!
# What one operation of an overlay does

Everything a step of a pass can do, said once and part by part: to the settings, to the map and paint
of the canvas, to the images, to the commands, and how it fails. Settings and paint after any
operations are as the last operations that concern them say, so a step is the case of a single
operation.
-/

namespace FieldDiagram

variable {α ι : Type}

open Scalar (zero one isOpacity isWidth)

/-! ## What an operation says

An operation that gives a setting a value that makes no sense says nothing about it. -/

namespace Op

/-- The fill colour from now on. -/
def fillColor? : Op α → Option Color
  | fill name => (Color.parse name).toOption
  | _ => none

/-- The stroke colour from now on. -/
def strokeColor? : Op α → Option Color
  | stroke name => (Color.parse name).toOption
  | _ => none

/-- The width of lines from now on. -/
def lineWidth? [Scalar α] : Op α → Option α
  | strokeWidth width => if isWidth width then some width else none
  | _ => none

/-- The opacity from now on. -/
def opacity? [Scalar α] : Op α → Option α
  | alpha a => if isOpacity a then some a else none
  | _ => none

/-- The origin from now on. -/
def newOrigin? : Op α → Option (Point α)
  | origin point => some point
  | _ => none

/-- The rotation from now on. -/
def newRotation? : Op α → Option α
  | rotation angle => some angle
  | _ => none

/-- The grid from now on. -/
def newGrid? : Op α → Option GridTicks
  | grid horizontal vertical => some (.ofCounts horizontal vertical)
  | _ => none

/-- The art from now on, and where it goes. -/
def newArt? : Op α → Option (String × AltPlacement α)
  | image url placement => some (url, placement)
  | _ => none

/-- The address of the art that an operation asks for. -/
def source? (op : Op α) : Option String := op.newArt?.map Prod.fst

/-- The factors that are put on top of origin and rotation from now on; inside, `none` takes the
present factors away. -/
def stretch? : Op α → Option (Option (Point α))
  | scale x y => some (some ⟨x, y⟩)
  | rotation _ => some none
  | origin _ => some none
  | _ => none

/-- An operation that leaves the factors alone sets neither origin nor rotation. -/
theorem newOrigin?_of_no_stretch {op : Op α} (h : op.stretch? = none) :
    op.newOrigin? = none ∧ op.newRotation? = none := by
  cases op <;> simp_all [stretch?, newOrigin?, newRotation?]

/-- No grid that an operation asks for is below the fewest lines. -/
theorem fewest_le_of_newGrid? {op : Op α} {grid : GridTicks} (h : op.newGrid? = some grid) :
    GridTicks.fewest ≤ grid.horizontal ∧ GridTicks.fewest ≤ grid.vertical := by
  cases op with
  | grid horizontal vertical =>
    obtain rfl := Option.some.inj h
    exact GridTicks.fewest_le_ofCounts horizontal vertical
  | _ => exact absurd h (by simp [newGrid?])

/-! ## How an operation fails

There are two ways to fail, an unknown kind and a canvas that cannot be asked for its map, and the second
concerns the operations that snap. Nothing else about the pass matters, so failures can be told from the
operations alone. -/

/-- Whether an operation snaps a point to the pixels. -/
def snaps : Op α → Bool
  | polygon xs ys _ => !(Point.pair xs ys).isEmpty
  | polyline xs ys => !(Point.pair xs ys).isEmpty
  | spline _ => true
  | _ => false

/-- Why an operation at a place fails on a canvas that tells its map or does not. -/
def failure? (tells : Bool) (index : Nat) (op : Op α) : Option RenderError :=
  match op with
  | unknown kind => some (.unknownOperation kind index)
  | _ => if op.snaps && !tells then some (.surface .transformUnavailable) else none

theorem tells_or_not_snaps {op : Op α} {tells : Bool} {index : Nat}
    (h : op.failure? tells index = none) : tells = true ∨ op.snaps = false := by
  cases tells <;> cases op <;> simp_all [failure?, snaps]

/-- Whether an operation fails. That does not hang on its place. -/
def fails (tells : Bool) (op : Op α) : Bool := op.isUnknown || (op.snaps && !tells)

theorem fails_true (op : Op α) : op.fails true = op.isUnknown := by
  rw [fails, Bool.not_true, Bool.and_false, Bool.or_false]

theorem isSome_failure? (tells : Bool) (index : Nat) (op : Op α) :
    (op.failure? tells index).isSome = op.fails tells := by
  cases op with
  | unknown kind => rfl
  | _ =>
    unfold failure? fails
    cases hsnaps : snaps _ && !tells <;> simp [isUnknown]

theorem failure?_eq_none_iff {tells : Bool} {index : Nat} {op : Op α} :
    op.failure? tells index = none ↔ op.fails tells = false := by
  rw [← isSome_failure? tells index op, ← Option.not_isSome_iff_eq_none, Bool.not_eq_true]

end Op

/-! ## Images after operations

Operations change the images in one way, by asking for art. The slot then is that of the last request, while
the list of requests keeps all of them. -/

namespace ImageCache

/-- The images after an operation. -/
def afterOp (c : ImageCache α ι) : Op α → ImageCache α ι
  | .image url placement => c.setAlt url placement
  | _ => c

/-- The images after operations: the alternate slot is as the last art that was asked for, and every
art has been requested. -/
def after (c : ImageCache α ι) (ops : List (Op α)) : ImageCache α ι :=
  { c with
    alt := ((latest? Op.newArt? ops).map fun art => .wanting art.1).or c.alt
    placement := ((latest? Op.newArt? ops).map Prod.snd).getD c.placement
    requests := c.requests ++ ops.filterMap Op.source? }

theorem after_nil (c : ImageCache α ι) : c.after [] = c := by
  simp [after]

theorem after_append (c : ImageCache α ι) (ops more : List (Op α)) :
    c.after (ops ++ more) = (c.after ops).after more := by
  simp only [after, latest?_append, List.filterMap_append, List.append_assoc, mk.injEq, true_and,
    and_true]
  cases latest? Op.newArt? more <;> exact ⟨rfl, rfl⟩

theorem after_singleton (c : ImageCache α ι) (op : Op α) : c.after [op] = c.afterOp op := by
  cases op with
  | image url placement => rfl
  | _ => exact c.after_nil

end ImageCache

/-! ## Settings and paint after operations

Both are told by the last operation that says something, so no run is needed to know them. The map is the
exception that makes `Paint.after` longer: it is built anew from origin and rotation as they were last set,
with the factors since then. -/

variable [Scalar α]

/-- The settings after operations. -/
def OverlayState.after (s : OverlayState α) (ops : List (Op α)) : OverlayState α where
  fill := (latest? Op.fillColor? ops).getD s.fill
  stroke := (latest? Op.strokeColor? ops).getD s.stroke
  strokeWidth := (latest? Op.lineWidth? ops).getD s.strokeWidth
  alpha := (latest? Op.opacity? ops).getD s.alpha
  origin := (latest? Op.newOrigin? ops).getD s.origin
  rotation := (latest? Op.newRotation? ops).getD s.rotation
  grid := (latest? Op.newGrid? ops).getD s.grid

/-- A map with factors on top of it. -/
def Affine.stretched (m : Affine α) : Option (Point α) → Affine α
  | none => m
  | some factors => m * .scaling factors.x factors.y

/-- Map and paint after operations of a pass with these settings. The map stays until an operation
changes it, and from then on it is the base with origin, rotation and factors. Cap and font stay. -/
def Paint.after (p : Paint α) (base : Affine α) (s : OverlayState α) (ops : List (Op α)) :
    Paint α where
  transform :=
    match latest? Op.stretch? ops with
    | none => p.transform
    | some factors => (base.layered (s.after ops).origin (s.after ops).rotation).stretched factors
  fill := (latest? Op.fillColor? ops).getD p.fill
  stroke := (latest? Op.strokeColor? ops).getD p.stroke
  lineWidth := (latest? Op.lineWidth? ops).getD p.lineWidth
  lineCap := p.lineCap
  font := p.font
  alpha := (latest? Op.opacity? ops).getD p.alpha

@[simp] theorem OverlayState.after_nil (s : OverlayState α) : s.after [] = s := rfl

@[simp] theorem Paint.after_nil (p : Paint α) (base : Affine α) (s : OverlayState α) :
    p.after base s [] = p := rfl

theorem OverlayState.after_append (s : OverlayState α) (ops more : List (Op α)) :
    s.after (ops ++ more) = (s.after ops).after more := by
  simp only [after, getD_latest?_append]

/-- Operations that leave the factors alone leave origin and rotation alone too. -/
theorem OverlayState.after_of_no_stretch {ops : List (Op α)} (h : latest? Op.stretch? ops = none)
    (s : OverlayState α) : (s.after ops).origin = s.origin ∧ (s.after ops).rotation = s.rotation := by
  rw [latest?_eq_none_iff] at h
  have horigin : latest? Op.newOrigin? ops = none :=
    latest?_eq_none_iff.2 fun op hop => (Op.newOrigin?_of_no_stretch (h op hop)).1
  have hrotation : latest? Op.newRotation? ops = none :=
    latest?_eq_none_iff.2 fun op hop => (Op.newOrigin?_of_no_stretch (h op hop)).2
  constructor
  · rw [after, horigin, Option.getD_none]
  · rw [after, hrotation, Option.getD_none]

theorem Paint.after_append (p : Paint α) (base : Affine α) (s : OverlayState α)
    (ops more : List (Op α)) :
    p.after base s (ops ++ more) = (p.after base s ops).after base (s.after ops) more := by
  simp only [after, getD_latest?_append, OverlayState.after_append, mk.injEq, and_true]
  rw [latest?_append]
  -- without new factors the map is the one before, but origin and rotation must not have moved either
  rcases h : latest? Op.stretch? more with _ | factors
  · obtain ⟨horigin, hrotation⟩ := (s.after ops).after_of_no_stretch h
    rw [horigin, hrotation, Option.none_or]
  · rfl

/-! ## What an operation draws

At most one command, made of the operation's own parts under the paint that it finds. The two functions here
are the specification of all drawing operations. -/

/-- The path of an operation that draws one, under a map from user space. Nothing but the operation's
own parts is in it. -/
def Op.path? (m : Affine α) (steps : Nat) : Op α → Option (List (PathElement α))
  | circle center radius _ =>
    some [.arc (m.onPoint center) (radius * m.uniformScale) zero Scalar.fullTurn]
  | polygon xs ys _ =>
    some (m.snappedChain (Point.pair xs ys) ++
      if (Point.pair xs ys).isEmpty then [] else [.close])
  | polyline xs ys => some (m.snappedChain (Point.pair xs ys))
  | spline curve => some (m.curveChain (curve.sample steps))
  | _ => none

/-- Whether the path of an operation is stroked. -/
def Op.isStroked : Op α → Bool
  | circle _ _ outlined => outlined
  | polygon _ _ outlined => outlined
  | _ => true

/-- The command that strokes or fills a path with some paint. -/
def Paint.finished (p : Paint α) (stroked : Bool) (path : List (PathElement α)) :
    DrawCommand α ι :=
  if stroked then .stroke path p.stroke p.alpha (p.lineWidth * p.transform.uniformScale) p.lineCap
  else .fill path p.fill p.alpha

/-- The one command of an operation that draws, with some map and paint. A text turns and flips its own
axes. -/
def Paint.draw? (p : Paint α) (steps : Nat) : Op α → Option (DrawCommand α ι)
  | .text content point font angle outlined =>
    let glyphs := p.transform * .rotation angle * .scaling one (-one)
    some (.text content (glyphs.onPoint point) glyphs (font.getD p.font)
      (if outlined then p.stroke else p.fill) p.alpha outlined)
  | op => (op.path? p.transform steps).map (p.finished op.isStroked)

/-- Records a command, if there is one. -/
def Canvas.recordAny (c : Canvas α ι) (d? : Option (DrawCommand α ι)) : Canvas α ι :=
  d?.elim c c.record

/-- The canvas after an operation that does not fail. -/
def Canvas.afterOp (c : Canvas α ι) (setting : PassSetting α) (s : OverlayState α) (op : Op α) :
    Canvas α ι :=
  Canvas.recordAny
    { c with
      paint := c.paint.after setting.base s [op]
      path := ((op.path? c.paint.transform setting.steps).map List.toArray).getD c.path }
    (c.paint.draw? setting.steps op)

namespace Canvas

@[simp] theorem paint_afterOp (c : Canvas α ι) (setting : PassSetting α) (s : OverlayState α)
    (op : Op α) : (c.afterOp setting s op).paint = c.paint.after setting.base s [op] := by
  rw [afterOp, recordAny]
  cases c.paint.draw? setting.steps op <;> rfl

@[simp] theorem saved_afterOp (c : Canvas α ι) (setting : PassSetting α) (s : OverlayState α)
    (op : Op α) : (c.afterOp setting s op).saved = c.saved := by
  rw [afterOp, recordAny]
  cases c.paint.draw? setting.steps op <;> rfl

@[simp] theorem reportsTransform_afterOp (c : Canvas α ι) (setting : PassSetting α)
    (s : OverlayState α) (op : Op α) :
    (c.afterOp setting s op).reportsTransform = c.reportsTransform := by
  rw [afterOp, recordAny]
  cases c.paint.draw? setting.steps op <;> rfl

theorem commands_afterOp (c : Canvas α ι) (setting : PassSetting α) (s : OverlayState α)
    (op : Op α) :
    (c.afterOp setting s op).commands.toList =
      c.commands.toList ++ (c.paint.draw? setting.steps op).toList := by
  rw [afterOp, recordAny]
  cases c.paint.draw? setting.steps op <;> simp [record]

end Canvas

/-- A curve is added whole, or refused at its start. -/
theorem Canvas.curvePath_eq (c : Canvas α ι) (ps : List (Point α)) :
    Pass.curvePath ps c =
      if c.reportsTransform || ps.isEmpty then .ok (c.extendBy (c.paint.transform.curveChain ps))
      else .error .transformUnavailable := by
  cases ps with
  | nil => rw [Affine.curveChain, extendBy_nil, List.isEmpty_nil, Bool.or_true]; rfl
  | cons p ps =>
    rw [List.isEmpty_cons, Bool.or_false, Pass.curvePath]
    rcases h : c.reportsTransform with _ | _
    · rw [alignedMoveTo_of_not_tells h]
      rfl
    · rw [alignedMoveTo_of_tells h]
      have hrest := calls_lineTo (c.extendBy [.moveTo (c.paint.transform.snapped p)]) ps
      rw [paint_extendBy, extendBy_extendBy] at hrest
      exact congrArg Except.ok hrest

namespace Pass

/-! ## Settings and images

These two do not depend on the canvas, so they are as specified even where the operation fails. -/

/-- Drawing a path leaves everything but the canvas alone. -/
theorem drawPath_fst (build : Canvas α ι → Except SurfaceError (Canvas α ι))
    (rest : List (CanvasCall α ι)) (p : Pass α ι) :
    (p.drawPath build rest).1.state = p.state ∧ (p.drawPath build rest).1.images = p.images := by
  rw [drawPath]
  cases build (p.canvas.call .beginPath) <;> exact ⟨rfl, rfl⟩

theorem state_and_images_step (setting : PassSetting α) (index : Nat) (op : Op α) (p : Pass α ι) :
    (p.step setting index op).1.state = p.state.after [op] ∧
      (p.step setting index op).1.images = p.images.afterOp op := by
  -- a colour, an opacity or a width is taken or ignored, and every other operation says what it says
  cases op with
  | fill text =>
    simp only [step, setColor, OverlayState.after, latest?_singleton, Op.fillColor?, Except.toOption]
    cases Color.parse text <;> exact ⟨rfl, rfl⟩
  | stroke text =>
    simp only [step, setColor, OverlayState.after, latest?_singleton, Op.strokeColor?, Except.toOption]
    cases Color.parse text <;> exact ⟨rfl, rfl⟩
  | alpha a =>
    simp only [step, OverlayState.after, latest?_singleton, Op.opacity?]
    split <;> exact ⟨rfl, rfl⟩
  | strokeWidth width =>
    simp only [step, OverlayState.after, latest?_singleton, Op.lineWidth?]
    split <;> exact ⟨rfl, rfl⟩
  | grid horizontal vertical =>
    simp only [step]
    split <;> exact ⟨rfl, rfl⟩
  | polygon xs ys outlined => exact drawPath_fst _ _ p
  | polyline xs ys => exact drawPath_fst _ _ p
  | spline curve => exact drawPath_fst _ _ p
  | _ => exact ⟨rfl, rfl⟩

theorem state_step (setting : PassSetting α) (index : Nat) (op : Op α) (p : Pass α ι) :
    (p.step setting index op).1.state = p.state.after [op] :=
  (state_and_images_step setting index op p).1

theorem images_step (setting : PassSetting α) (index : Nat) (op : Op α) (p : Pass α ι) :
    (p.step setting index op).1.images = p.images.afterOp op :=
  (state_and_images_step setting index op p).2

/-! ## Canvas and failure

An operation either does all of `Canvas.afterOp` or none of it, but for a path that it may have begun. -/

theorem drawPath_of_ok {build : Canvas α ι → Except SurfaceError (Canvas α ι)}
    (rest : List (CanvasCall α ι)) {p : Pass α ι} {es : List (PathElement α)}
    (h : build (p.canvas.call .beginPath) = .ok ((p.canvas.call .beginPath).extendBy es)) :
    p.drawPath build rest =
      ({ p with canvas := (p.canvas.withPath es).calls rest }, none) := by
  rw [drawPath, h, Canvas.extendBy_beginPath]

theorem call_finish (stroked : Bool) (c : Canvas α ι) :
    c.call (finish stroked) = c.record (c.paint.finished stroked c.path.toList) := by
  cases stroked <;> rfl

/-- An operation that does not fail changes the canvas as `Canvas.afterOp` says. -/
theorem canvas_step (setting : PassSetting α) {index : Nat} {op : Op α} {p : Pass α ι}
    (h : op.failure? p.canvas.reportsTransform index = none) :
    (p.step setting index op).2 = none ∧
      (p.step setting index op).1.canvas = p.canvas.afterOp setting p.state op := by
  cases op with
  | image url placement => exact ⟨rfl, rfl⟩
  | grid horizontal vertical =>
    rw [step]
    refine ⟨rfl, ?_⟩
    split <;> rfl
  | scale x y => exact ⟨rfl, rfl⟩
  | rotation angle => exact ⟨rfl, rfl⟩
  | origin point => exact ⟨rfl, rfl⟩
  | alpha a =>
    rw [step]
    refine ⟨rfl, ?_⟩
    rw [Canvas.afterOp, Paint.after]
    simp only [calls, Canvas.calls_cons, Canvas.calls_nil, Canvas.call, latest?_singleton, Op.opacity?]
    split <;> rfl
  | fill name =>
    rw [step, setColor, Canvas.afterOp, Paint.after]
    simp only [latest?_singleton, Op.fillColor?]
    cases Color.parse name <;> exact ⟨trivial, rfl⟩
  | stroke name =>
    rw [step, setColor, Canvas.afterOp, Paint.after]
    simp only [latest?_singleton, Op.strokeColor?]
    cases Color.parse name <;> exact ⟨trivial, rfl⟩
  | strokeWidth width =>
    rw [step]
    refine ⟨rfl, ?_⟩
    rw [Canvas.afterOp, Paint.after]
    simp only [calls, Canvas.calls_cons, Canvas.calls_nil, Canvas.call, latest?_singleton,
      Op.lineWidth?]
    split <;> rfl
  | text content point font angle outlined =>
    -- what a text does to the paint is undone before the next operation
    cases font <;> cases outlined <;> exact ⟨rfl, rfl⟩
  | circle center radius outlined =>
    cases outlined <;> exact ⟨rfl, rfl⟩
  | polygon xs ys outlined =>
    have hbuild := Canvas.alignedPolyline_eq (p.canvas.call .beginPath) (Point.pair xs ys)
    rw [if_pos (by simpa [Op.snaps] using Op.tells_or_not_snaps h)] at hbuild
    rw [step, drawPath_of_ok _ hbuild]
    refine ⟨rfl, ?_⟩
    -- an empty polygon is not closed, so its path stays empty
    have hclosed : ∀ es : List (PathElement α),
        (p.canvas.withPath es).calls (if (Point.pair xs ys).isEmpty then [] else [.closePath]) =
          p.canvas.withPath (es ++ if (Point.pair xs ys).isEmpty then [] else [.close]) := by
      intro es
      split
      · rw [List.append_nil]
        rfl
      · exact Canvas.withPath_closePath _ _
    rw [Canvas.calls_append, hclosed, Canvas.calls_cons, call_finish]
    rfl
  | polyline xs ys =>
    have hbuild := Canvas.alignedPolyline_eq (p.canvas.call .beginPath) (Point.pair xs ys)
    rw [if_pos (by simpa [Op.snaps] using Op.tells_or_not_snaps h)] at hbuild
    rw [step, drawPath_of_ok _ hbuild]
    exact ⟨rfl, rfl⟩
  | spline curve =>
    have htells : p.canvas.reportsTransform = true := by
      simpa [Op.snaps] using Op.tells_or_not_snaps h
    have hbuild := Canvas.curvePath_eq (p.canvas.call .beginPath) (curve.sample setting.steps)
    rw [Canvas.reportsTransform_call, htells, Bool.true_or, if_pos rfl] at hbuild
    rw [step, drawPath_of_ok _ hbuild]
    exact ⟨rfl, rfl⟩
  | unknown kind => simp [Op.failure?] at h

/-- An operation that fails has at most begun a path. -/
theorem canvas_step_of_failure {setting : PassSetting α} {index : Nat} {op : Op α} {p : Pass α ι}
    {e : RenderError} (h : op.failure? p.canvas.reportsTransform index = some e) :
    (p.step setting index op).2 = some e ∧
      (p.step setting index op).1.canvas =
        if op.isUnknown then p.canvas else p.canvas.call .beginPath := by
  have hrefuses : op.isUnknown = false →
      p.canvas.reportsTransform = false ∧ op.snaps = true ∧
        e = .surface .transformUnavailable := by
    intro hknown
    cases htells : p.canvas.reportsTransform <;> cases hsnaps : op.snaps <;> cases op <;>
      simp_all [Op.failure?, Op.isUnknown]
  have hrefused : ∀ (build : Canvas α ι → Except SurfaceError (Canvas α ι))
      (rest : List (CanvasCall α ι)),
      build (p.canvas.call .beginPath) = .error .transformUnavailable →
      p.drawPath build rest = ({ p with canvas := p.canvas.call .beginPath },
        some (.surface .transformUnavailable)) := by
    intro build rest hbuild
    rw [drawPath, hbuild]
  cases op with
  | unknown kind =>
    refine ⟨?_, rfl⟩
    rw [← h]
    rfl
  | polygon xs ys outlined =>
    obtain ⟨htells, hsnaps, rfl⟩ := hrefuses rfl
    have hbuild := Canvas.alignedPolyline_eq (p.canvas.call .beginPath) (Point.pair xs ys)
    rw [if_neg (by simpa [htells, Op.snaps] using hsnaps)] at hbuild
    rw [step, hrefused _ _ hbuild]
    exact ⟨rfl, rfl⟩
  | polyline xs ys =>
    obtain ⟨htells, hsnaps, rfl⟩ := hrefuses rfl
    have hbuild := Canvas.alignedPolyline_eq (p.canvas.call .beginPath) (Point.pair xs ys)
    rw [if_neg (by simpa [htells, Op.snaps] using hsnaps)] at hbuild
    rw [step, hrefused _ _ hbuild]
    exact ⟨rfl, rfl⟩
  | spline curve =>
    obtain ⟨htells, -, rfl⟩ := hrefuses rfl
    -- a curve always has a start, and the start is what is refused
    have hsome : (curve.sample setting.steps).isEmpty = false := by
      rw [List.isEmpty_eq_false_iff, ← List.length_pos_iff, curve.length_sample]
      exact Nat.succ_pos _
    have hbuild := Canvas.curvePath_eq (p.canvas.call .beginPath) (curve.sample setting.steps)
    rw [if_neg (by simp [htells, hsome])] at hbuild
    rw [step, hrefused _ _ hbuild]
    exact ⟨rfl, rfl⟩
  | _ => exact absurd (hrefuses rfl).2.1 (by simp [Op.snaps])

theorem failure_step (setting : PassSetting α) (index : Nat) (op : Op α) (p : Pass α ι) :
    (p.step setting index op).2 = op.failure? p.canvas.reportsTransform index := by
  rcases h : op.failure? p.canvas.reportsTransform index with _ | e
  · exact (canvas_step setting h).1
  · exact (canvas_step_of_failure h).1

theorem reportsTransform_step (setting : PassSetting α) (index : Nat) (op : Op α) (p : Pass α ι) :
    (p.step setting index op).1.canvas.reportsTransform = p.canvas.reportsTransform := by
  rcases h : op.failure? p.canvas.reportsTransform index with _ | e
  · rw [(canvas_step setting h).2, Canvas.reportsTransform_afterOp]
  · rw [(canvas_step_of_failure h).2]
    split
    · rfl
    · exact Canvas.reportsTransform_call _ _

end Pass

end FieldDiagram
