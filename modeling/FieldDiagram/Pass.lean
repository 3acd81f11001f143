import FieldDiagram.Canvas.Aligned
import FieldDiagram.Color.Css
import FieldDiagram.Geometry.Spline
import FieldDiagram.Images
import FieldDiagram.Overlay.Basic
/-!
# Carrying out the operations of an overlay

A pass carries out operations in order on a canvas that already has the base transform. Besides the
canvas it keeps the settings of the overlay, and it stops at the first operation that fails: what was
drawn before stays drawn, and nothing after it is looked at.
-/

namespace FieldDiagram

/-- The settings of an overlay, each as its last operation left it. -/
structure OverlayState (α : Type) where
  fill : Color
  stroke : Color
  strokeWidth : α
  alpha : α
  /-- In inches of the field. -/
  origin : Point α
  /-- An angle. -/
  rotation : α
  grid : GridTicks

/-- Why a pass ended early. -/
inductive RenderError where
  | unknownOperation (kind : String) (index : Nat)
  | surface (cause : SurfaceError)
  deriving DecidableEq, Repr

/-- The message of an error. -/
def RenderError.message : RenderError → String
  | .unknownOperation kind _ => "unknown operation: " ++ kind
  | .surface cause => cause.message

/-- What does not change during a pass: the base transform and the number of lines for a spline. -/
structure PassSetting (α : Type) where
  base : Affine α
  steps : Nat

/-- A pass under way. -/
structure Pass (α ι : Type) where
  canvas : Canvas α ι
  images : ImageCache α ι
  state : OverlayState α
  log : List LogLine

variable {α ι : Type} [Scalar α]

open Scalar (zero one isOpacity isWidth)

namespace OverlayState

/-- The settings at the start of a pass, with the grid that earlier passes have left. -/
def seeded (grid : GridTicks) : OverlayState α where
  fill := .black
  stroke := .black
  strokeWidth := one
  alpha := one
  origin := .zero
  rotation := zero
  grid

end OverlayState

namespace Pass

/-- A pass ended at an operation that is not known. -/
def unknownOperation : LogLine := ⟨.error, "unknown overlay operation, aborting render pass"⟩

/-- A text that is no colour left the colour as it was. -/
def invalidColor : LogLine := ⟨.warn, "ignoring invalid overlay color"⟩

/-- More grid lines than a diagram can show were asked for. -/
def excessiveGrid : LogLine := ⟨.warn, "grid line count is unusually large"⟩

/-- Adds a line to the log. -/
def note (line : LogLine) (p : Pass α ι) : Pass α ι := { p with log := p.log ++ [line] }

/-- Makes calls on the canvas. -/
def calls (cs : List (CanvasCall α ι)) (p : Pass α ι) : Pass α ι :=
  { p with canvas := p.canvas.calls cs }

/-- Puts the base transform with origin and rotation back, and drops everything on top of it. -/
def resetTransform (setting : PassSetting α) (p : Pass α ι) : Pass α ι :=
  p.calls [.setTransform (setting.base.layered p.state.origin p.state.rotation)]

/-- Fills or strokes the path. -/
def finish (outlined : Bool) : CanvasCall α ι := if outlined then .stroke else .fill

/-- The calls that draw a text, in axes that are turned by an angle and then flipped, so that the flip
of the field does not turn the glyphs over. -/
def textCalls (content : String) (point : Point α) (font : Option String) (angle : α)
    (outlined : Bool) : List (CanvasCall α ι) :=
  [.save, .rotate angle] ++ (font.toList.map .setFont) ++
    [.scale one (-one),
      if outlined then .strokeText content point.x point.y
      else .fillText content point.x point.y,
      .restore]

/-- Sets a colour, or leaves it as it is where a text is no colour. -/
def setColor (text : String) (set : Color → Pass α ι → Pass α ι) (p : Pass α ι) : Pass α ι :=
  match Color.parse text with
  | .ok color => set color p
  | .error _ => p.note invalidColor

/-- Draws a path: `build` is given the canvas with an empty path, `rest` are the calls that follow. -/
def drawPath (build : Canvas α ι → Except SurfaceError (Canvas α ι)) (rest : List (CanvasCall α ι))
    (p : Pass α ι) : Pass α ι × Option RenderError :=
  let begun := p.canvas.call .beginPath
  match build begun with
  | .ok canvas => ({ p with canvas := canvas.calls rest }, none)
  | .error e => ({ p with canvas := begun }, some (.surface e))

/-- The snapped start of a curve and its further samples, which are not snapped: snapping each of
them would make the curve jagged. -/
def curvePath : List (Point α) → Canvas α ι → Except SurfaceError (Canvas α ι)
  | [], c => .ok c
  | first :: rest, c => do
    let c ← c.alignedMoveTo first
    return c.calls (rest.map fun q => .lineTo q.x q.y)

/-- Carries out the operation at a place of the overlay. -/
def step (setting : PassSetting α) (index : Nat) (op : Op α) (p : Pass α ι) :
    Pass α ι × Option RenderError :=
  match op with
  | .image url placement => ({ p with images := p.images.setAlt url placement }, none)
  | .grid horizontal vertical =>
    let grid := GridTicks.ofCounts horizontal vertical
    let q := { p with state := { p.state with grid } }
    (if grid.isExcessive then q.note excessiveGrid else q, none)
  | .scale x y => ((p.resetTransform setting).calls [.scale x y], none)
  | .rotation rotation =>
    (resetTransform setting { p with state := { p.state with rotation } }, none)
  | .origin origin => (resetTransform setting { p with state := { p.state with origin } }, none)
  | .alpha alpha =>
    let q := p.calls [.setAlpha alpha]
    (if isOpacity alpha then { q with state := { q.state with alpha } } else q, none)
  | .fill color =>
    (p.setColor color fun c p =>
      calls [.setFill c] { p with state := { p.state with fill := c } }, none)
  | .stroke color =>
    (p.setColor color fun c p =>
      calls [.setStroke c] { p with state := { p.state with stroke := c } }, none)
  | .strokeWidth width =>
    let q := p.calls [.setLineWidth width]
    (if isWidth width then { q with state := { q.state with strokeWidth := width } } else q, none)
  | .text content point font angle outlined =>
    (p.calls (textCalls content point font angle outlined), none)
  | .circle center radius outlined =>
    (p.calls [.beginPath, .arc center.x center.y radius zero Scalar.fullTurn, finish outlined],
      none)
  | .polygon xs ys outlined =>
    let points := Point.pair xs ys
    p.drawPath (·.alignedPolyline points)
      ((if points.isEmpty then [] else [.closePath]) ++ [finish outlined])
  | .polyline xs ys => p.drawPath (·.alignedPolyline (Point.pair xs ys)) [.stroke]
  | .spline curve => p.drawPath (curvePath (curve.sample setting.steps)) [.stroke]
  | .unknown kind => (p.note unknownOperation, some (.unknownOperation kind index))

/-- Carries out operations in order, the first of them being at place `index`. -/
def runFrom (setting : PassSetting α) (index : Nat) :
    List (Op α) → Pass α ι → Pass α ι × Option RenderError
  | [], p => (p, none)
  | op :: ops, p =>
    match p.step setting index op with
    | (q, none) => runFrom setting (index + 1) ops q
    | (q, some e) => (q, some e)

/-- Carries out an overlay. -/
def run (setting : PassSetting α) (ops : List (Op α)) (p : Pass α ι) :
    Pass α ι × Option RenderError :=
  p.runFrom setting 0 ops

@[simp] theorem runFrom_nil (setting : PassSetting α) (index : Nat) (p : Pass α ι) :
    p.runFrom setting index [] = (p, none) := rfl

theorem runFrom_cons_of_ok {setting : PassSetting α} {index : Nat} {op : Op α} {p q : Pass α ι}
    (h : p.step setting index op = (q, none)) (ops : List (Op α)) :
    p.runFrom setting index (op :: ops) = q.runFrom setting (index + 1) ops := by
  simp [runFrom, h]

/-- Operations in two parts are carried out one part after the other. -/
theorem runFrom_append (setting : PassSetting α) (index : Nat) (pre post : List (Op α))
    (p : Pass α ι) :
    p.runFrom setting index (pre ++ post) =
      match p.runFrom setting index pre with
      | (q, none) => q.runFrom setting (index + pre.length) post
      | (q, some e) => (q, some e) := by
  induction pre generalizing index p with
  | nil => simp
  | cons op pre ih =>
    simp only [List.cons_append, runFrom]
    rcases p.step setting index op with ⟨q, _ | e⟩
    · simp only [ih]
      rw [show index + 1 + pre.length = index + (op :: pre).length by
        simp only [List.length_cons]; omega]
    · rfl

end Pass

end FieldDiagram
