import FieldDiagram.Canvas.Command
/-!
# A canvas that records

A canvas keeps a map from user space to device pixels, paint, and a path under construction. Drawing
on it appends commands in device pixels to a list. Map and paint together can be saved and restored;
path and commands are not part of what is saved. Values that make no sense for a setting are ignored.

The operations are the constructors of `CanvasCall`, and `Canvas.call` carries one out.
-/

namespace FieldDiagram

/-- Map and paint: what saving keeps. -/
structure Paint (α : Type) where
  transform : Affine α
  fill : Color
  stroke : Color
  lineWidth : α
  lineCap : LineCap
  font : String
  alpha : α

/-- Everything a canvas can be asked to do. -/
inductive CanvasCall (α ι : Type) where
  /-- Wipes the canvas and all settings, for a target of this size. -/
  | reset (width height : α)
  | save
  | restore
  | setTransform (transform : Affine α)
  | translate (x y : α)
  | scale (x y : α)
  | rotate (angle : α)
  | setAlpha (alpha : α)
  | setFill (color : Color)
  | setStroke (color : Color)
  | setLineWidth (width : α)
  | setLineCap (cap : LineCap)
  | setFont (font : String)
  | beginPath
  | moveTo (x y : α)
  | lineTo (x y : α)
  | arc (x y radius startAngle endAngle : α)
  | closePath
  | fill
  | stroke
  | fillText (content : String) (x y : α)
  | strokeText (content : String) (x y : α)
  | drawImage (image : ι) (x y width height : α)

/-- A canvas with what has been drawn on it. -/
structure Canvas (α ι : Type) where
  paint : Paint α
  /-- What has been saved, last first. -/
  saved : List (Paint α)
  path : Array (PathElement α)
  commands : Array (DrawCommand α ι)
  /-- Whether the canvas tells its map to those who ask. -/
  reportsTransform : Bool

/-- A canvas cannot tell its map, so nothing can be snapped to its pixels. -/
inductive SurfaceError where
  | transformUnavailable
  deriving DecidableEq, Repr

/-- The message of an error. -/
def SurfaceError.message : SurfaceError → String
  | .transformUnavailable => "unable to find surface transform"

variable {α ι : Type} [Scalar α]

open Scalar (one isOpacity isWidth)

/-- The settings of a canvas that nothing has been set on. -/
def Paint.standard : Paint α where
  transform := .identity
  fill := .black
  stroke := .black
  lineWidth := one
  lineCap := .butt
  font := "10px sans-serif"
  alpha := one

namespace Canvas

/-- A canvas on which nothing has been drawn. -/
def empty (reportsTransform : Bool) : Canvas α ι := ⟨.standard, [], #[], #[], reportsTransform⟩

/-- The map from user space, if the canvas tells it. -/
def transform? (c : Canvas α ι) : Except SurfaceError (Affine α) :=
  if c.reportsTransform then .ok c.paint.transform else .error .transformUnavailable

/-- Changes map and paint. -/
def withPaint (c : Canvas α ι) (change : Paint α → Paint α) : Canvas α ι :=
  { c with paint := change c.paint }

/-- Lets a map act before the present one. -/
def compose (c : Canvas α ι) (m : Affine α) : Canvas α ι :=
  c.withPaint fun p => { p with transform := p.transform * m }

/-- Appends to the path. -/
def extend (c : Canvas α ι) (e : PathElement α) : Canvas α ι := { c with path := c.path.push e }

/-- Appends to the commands. -/
def record (c : Canvas α ι) (d : DrawCommand α ι) : Canvas α ι :=
  { c with commands := c.commands.push d }

/-- Where a point of user space lies on the device. -/
def toDevice (c : Canvas α ι) (x y : α) : Point α := c.paint.transform.onPoint ⟨x, y⟩

/-- Records a text. -/
def recordText (c : Canvas α ι) (content : String) (x y : α) (outlined : Bool) : Canvas α ι :=
  c.record <| .text content (c.toDevice x y) c.paint.transform c.paint.font
    (if outlined then c.paint.stroke else c.paint.fill) c.paint.alpha outlined

/-- Carries out one call. -/
def call (c : Canvas α ι) : CanvasCall α ι → Canvas α ι
  | .reset width height =>
    { c with paint := .standard, saved := [], path := #[], commands := #[.clear width height] }
  | .save => { c with saved := c.paint :: c.saved }
  | .restore =>
    match c.saved with
    | [] => c
    | paint :: saved => { c with paint, saved }
  | .setTransform m => c.withPaint fun p => { p with transform := m }
  | .translate x y => c.compose (.displacement ⟨x, y⟩)
  | .scale x y => c.compose (.scaling x y)
  | .rotate angle => c.compose (.rotation angle)
  | .setAlpha alpha => if isOpacity alpha then c.withPaint fun p => { p with alpha } else c
  | .setFill color => c.withPaint fun p => { p with fill := color }
  | .setStroke color => c.withPaint fun p => { p with stroke := color }
  | .setLineWidth width =>
    if isWidth width then c.withPaint fun p => { p with lineWidth := width } else c
  | .setLineCap cap => c.withPaint fun p => { p with lineCap := cap }
  | .setFont font => c.withPaint fun p => { p with font }
  | .beginPath => { c with path := #[] }
  | .moveTo x y => c.extend (.moveTo (c.toDevice x y))
  | .lineTo x y => c.extend (.lineTo (c.toDevice x y))
  | .arc x y radius startAngle endAngle =>
    c.extend (.arc (c.toDevice x y) (radius * c.paint.transform.uniformScale) startAngle endAngle)
  | .closePath => c.extend .close
  | .fill => c.record (.fill c.path.toList c.paint.fill c.paint.alpha)
  | .stroke => c.record <| .stroke c.path.toList c.paint.stroke c.paint.alpha
      (c.paint.lineWidth * c.paint.transform.uniformScale) c.paint.lineCap
  | .fillText content x y => c.recordText content x y false
  | .strokeText content x y => c.recordText content x y true
  | .drawImage image x y width height => c.record <|
      .image image (c.toDevice x y) (c.paint.transform.onVector ⟨width, height⟩) c.paint.alpha

/-- Carries out calls in order. -/
def calls (c : Canvas α ι) (cs : List (CanvasCall α ι)) : Canvas α ι := cs.foldl call c

@[simp] theorem calls_nil (c : Canvas α ι) : c.calls [] = c := rfl

@[simp] theorem calls_cons (c : Canvas α ι) (d : CanvasCall α ι) (ds : List (CanvasCall α ι)) :
    c.calls (d :: ds) = (c.call d).calls ds := rfl

theorem calls_append (c : Canvas α ι) (ds es : List (CanvasCall α ι)) :
    c.calls (ds ++ es) = (c.calls ds).calls es := List.foldl_append

/-- No call changes whether the canvas tells its map. -/
@[simp] theorem reportsTransform_call (c : Canvas α ι) (d : CanvasCall α ι) :
    (c.call d).reportsTransform = c.reportsTransform := by
  cases d <;> simp only [call, withPaint, compose, extend, record, recordText] <;> split <;> rfl

/-- Hands out the commands and goes on with none. -/
def takeCommands (c : Canvas α ι) : List (DrawCommand α ι) × Canvas α ι :=
  (c.commands.toList, { c with commands := #[] })

end Canvas

end FieldDiagram
