import FieldDiagram.Canvas.Aligned
/-!
# Paths of snapped points

A canvas snaps every corner of a path by the map that it has when the corner is added. Adding to the
path does not change that map, so a whole chain of lines is snapped by one map, and it is refused, if at
all, at its first point: main statement `alignedPolyline_eq`.
-/

namespace FieldDiagram

variable {α ι : Type}

/-! ## Longer paths

The path of a canvas is an array to which elements are pushed one by one. Seen as a list it is appended to,
which is what can be said of several elements at once. -/

namespace Canvas

/-- Appends several parts to the path. -/
def extendBy (c : Canvas α ι) (es : List (PathElement α)) : Canvas α ι :=
  { c with path := c.path ++ es.toArray }

@[simp] theorem extendBy_nil (c : Canvas α ι) : c.extendBy [] = c := by
  simp [extendBy]

@[simp] theorem paint_extendBy (c : Canvas α ι) (es : List (PathElement α)) :
    (c.extendBy es).paint = c.paint := rfl

@[simp] theorem reportsTransform_extendBy (c : Canvas α ι) (es : List (PathElement α)) :
    (c.extendBy es).reportsTransform = c.reportsTransform := rfl

theorem extendBy_extendBy (c : Canvas α ι) (es fs : List (PathElement α)) :
    (c.extendBy es).extendBy fs = c.extendBy (es ++ fs) := by
  simp [extendBy, Array.append_assoc]

theorem extend_eq_extendBy (c : Canvas α ι) (e : PathElement α) : c.extend e = c.extendBy [e] := by
  simp [extend, extendBy]

/-- A canvas with another path. -/
def withPath (c : Canvas α ι) (es : List (PathElement α)) : Canvas α ι := { c with path := es.toArray }

end Canvas

/-- A path that is one chain of corners. -/
def chainPath : List (Point α) → List (PathElement α)
  | [] => []
  | first :: rest => .moveTo first :: rest.map .lineTo

/-! ## Snapped points

Snapping looks at the map and adds to the path, and neither changes the other. So the points of a chain can
be snapped all together, by the map that was there at its start. -/

variable [Scalar α]

/-- The device point of a point that is snapped first. -/
def Affine.snapped (m : Affine α) (p : Point α) : Point α := m.onPoint (m.align p)

/-- The path of a chain of lines between snapped points. -/
def Affine.snappedChain (m : Affine α) : List (Point α) → List (PathElement α)
  | [] => []
  | first :: rest => .moveTo (m.snapped first) :: rest.map fun p => .lineTo (m.snapped p)

/-- The path of a curve: only its start is snapped. -/
def Affine.curveChain (m : Affine α) : List (Point α) → List (PathElement α)
  | [] => []
  | first :: rest => .moveTo (m.snapped first) :: rest.map fun p => .lineTo (m.onPoint p)

/-- The corners of a curve: only its start is snapped. -/
def Affine.curveCorners (m : Affine α) : List (Point α) → List (Point α)
  | [] => []
  | first :: rest => m.snapped first :: rest.map m.onPoint

theorem snappedChain_eq (m : Affine α) (ps : List (Point α)) :
    m.snappedChain ps = chainPath (ps.map m.snapped) := by
  cases ps with
  | nil => rfl
  | cons p ps =>
    rw [Affine.snappedChain, List.map_cons, chainPath, List.map_map]
    rfl

theorem curveChain_eq (m : Affine α) (ps : List (Point α)) :
    m.curveChain ps = chainPath (m.curveCorners ps) := by
  cases ps with
  | nil => rfl
  | cons p ps =>
    rw [Affine.curveChain, Affine.curveCorners, chainPath, List.map_map]
    rfl

namespace Canvas

theorem align_of_tells {c : Canvas α ι} (h : c.reportsTransform = true) (p : Point α) :
    c.align p = .ok (c.paint.transform.align p) := by
  rw [align, transform?, if_pos h]
  rfl

theorem align_of_not_tells {c : Canvas α ι} (h : c.reportsTransform = false) (p : Point α) :
    c.align p = .error .transformUnavailable := by
  rw [align, transform?, if_neg (by rw [h]; decide)]
  rfl

theorem alignedMoveTo_of_tells {c : Canvas α ι} (h : c.reportsTransform = true) (p : Point α) :
    c.alignedMoveTo p = .ok (c.extendBy [.moveTo (c.paint.transform.snapped p)]) := by
  rw [alignedMoveTo, align_of_tells h, ← extend_eq_extendBy]
  rfl

theorem alignedMoveTo_of_not_tells {c : Canvas α ι} (h : c.reportsTransform = false) (p : Point α) :
    c.alignedMoveTo p = .error .transformUnavailable := by
  rw [alignedMoveTo, align_of_not_tells h]
  rfl

theorem alignedLineTo_of_tells {c : Canvas α ι} (h : c.reportsTransform = true) (p : Point α) :
    c.alignedLineTo p = .ok (c.extendBy [.lineTo (c.paint.transform.snapped p)]) := by
  rw [alignedLineTo, align_of_tells h, ← extend_eq_extendBy]
  rfl

/-- Each further point of a chain adds one snapped line; the map that snaps it stays the same. -/
theorem foldlM_alignedLineTo {c : Canvas α ι} (h : c.reportsTransform = true) (ps : List (Point α)) :
    ps.foldlM alignedLineTo c =
      .ok (c.extendBy (ps.map fun p => .lineTo (c.paint.transform.snapped p))) := by
  induction ps generalizing c with
  | nil => rw [List.map_nil, extendBy_nil]; rfl
  | cons p ps ih =>
    rw [List.foldlM_cons, alignedLineTo_of_tells h]
    have hrest := ih (c := c.extendBy [.lineTo (c.paint.transform.snapped p)]) h
    rw [paint_extendBy, extendBy_extendBy] at hrest
    exact hrest

/-- A chain of lines is added whole, or refused at its first point. -/
theorem alignedPolyline_eq (c : Canvas α ι) (ps : List (Point α)) :
    c.alignedPolyline ps =
      if c.reportsTransform || ps.isEmpty then .ok (c.extendBy (c.paint.transform.snappedChain ps))
      else .error .transformUnavailable := by
  cases ps with
  | nil => rw [Affine.snappedChain, extendBy_nil, List.isEmpty_nil, Bool.or_true]; rfl
  | cons p ps =>
    rw [List.isEmpty_cons, Bool.or_false, alignedPolyline]
    rcases h : c.reportsTransform with _ | _
    · rw [alignedMoveTo_of_not_tells h]
      rfl
    · rw [alignedMoveTo_of_tells h]
      have hrest := foldlM_alignedLineTo
        (c := c.extendBy [.moveTo (c.paint.transform.snapped p)]) h ps
      rw [paint_extendBy, extendBy_extendBy] at hrest
      exact hrest

theorem extendBy_beginPath (c : Canvas α ι) (es : List (PathElement α)) :
    (c.call .beginPath).extendBy es = c.withPath es := by
  simp [call, extendBy, withPath]

theorem withPath_closePath (c : Canvas α ι) (es : List (PathElement α)) :
    (c.withPath es).call .closePath = c.withPath (es ++ [.close]) := by
  simp [call, extend, withPath]

theorem calls_lineTo (c : Canvas α ι) (ps : List (Point α)) :
    c.calls (ps.map fun p => .lineTo p.x p.y) =
      c.extendBy (ps.map fun p => .lineTo (c.paint.transform.onPoint p)) := by
  induction ps generalizing c with
  | nil => rw [List.map_nil, List.map_nil, extendBy_nil]; rfl
  | cons p ps ih =>
    rw [List.map_cons, calls_cons, ih, call, extend_eq_extendBy, extendBy_extendBy]
    rfl

end Canvas

end FieldDiagram
