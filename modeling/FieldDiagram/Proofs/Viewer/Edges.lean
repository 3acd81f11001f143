import FieldDiagram.Proofs.Pass.Extent
import FieldDiagram.Proofs.Renderer.Anatomy
import FieldDiagram.Viewer.Window
import Mathlib.Data.List.Rotate
/-!
# Edges in a window

A window draws the edges of a shape as lines and the inside of one as triangles around its first corner.
Every edge of an operation is drawn, each once and in order, a closed shape with the edge that leads back
to its start; and no line or triangle has corners of two operations.

Main statements: `Paint.windowCalls_draw?` for one operation, `Pass.edges_run` for all.
-/

namespace FieldDiagram

variable {ι : Type}

open Scalar (zero one)

/-! ## Corners and edges

Edges are pairs of neighbours. Chains are lists here, whatever the corners are, and a closed chain is an
open one with the edge that leads back. -/

section Edges

variable {β : Type}

/-- The edges of an open chain of corners: each corner and the next one. -/
def chainEdges (corners : List β) : List (β × β) := corners.zip corners.tail

/-- The edges of a closed chain of corners: each corner and the next one, and the last and the first. -/
def ringEdges (corners : List β) : List (β × β) := corners.zip (corners.rotate 1)

/-- The triangles between the first corner and each edge that does not touch it. -/
def fanTriangles : List β → List (β × β × β)
  | [] => []
  | first :: rest => (chainEdges rest).map fun (p, q) => (first, p, q)

theorem length_chainEdges (corners : List β) : (chainEdges corners).length = corners.length - 1 := by
  rw [chainEdges, List.length_zip, List.length_tail]
  omega

theorem length_ringEdges (corners : List β) : (ringEdges corners).length = corners.length := by
  rw [ringEdges, List.length_zip, List.length_rotate, Nat.min_self]

theorem length_fanTriangles (corners : List β) : (fanTriangles corners).length = corners.length - 2 := by
  cases corners with
  | nil => rfl
  | cons first rest =>
    rw [fanTriangles, List.length_map, length_chainEdges, List.length_cons]
    omega

theorem zip_concat (first last : β) (rest : List β) :
    (first :: rest).zip (rest ++ [last]) =
      (first :: rest).zip rest ++ [((first :: rest).getLast (List.cons_ne_nil _ _), last)] := by
  induction rest generalizing first with
  | nil => rfl
  | cons next rest ih =>
    rw [List.cons_append, List.zip_cons_cons, ih next, List.zip_cons_cons, List.cons_append,
      List.getLast_cons (List.cons_ne_nil _ _)]

/-- A closed chain has the edges of the open one, and then the one that leads from its end to its
start. -/
theorem ringEdges_eq (first : β) (rest : List β) :
    ringEdges (first :: rest) =
      chainEdges (first :: rest) ++ [((first :: rest).getLast (List.cons_ne_nil _ _), first)] := by
  rw [ringEdges, List.rotate_cons_succ, List.rotate_zero, zip_concat]
  rfl

theorem mem_of_mem_chainEdges {corners : List β} {e : β × β} (h : e ∈ chainEdges corners) :
    e.1 ∈ corners ∧ e.2 ∈ corners :=
  ⟨(List.of_mem_zip h).1, List.mem_of_mem_tail (List.of_mem_zip h).2⟩

theorem mem_of_mem_ringEdges {corners : List β} {e : β × β} (h : e ∈ ringEdges corners) :
    e.1 ∈ corners ∧ e.2 ∈ corners :=
  ⟨(List.of_mem_zip h).1, List.mem_rotate.1 (List.of_mem_zip h).2⟩

theorem mem_of_mem_fanTriangles {corners : List β} {t : β × β × β} (h : t ∈ fanTriangles corners) :
    t.1 ∈ corners ∧ t.2.1 ∈ corners ∧ t.2.2 ∈ corners := by
  cases corners with
  | nil => exact absurd h List.not_mem_nil
  | cons first rest =>
    obtain ⟨e, he, rfl⟩ := List.mem_map.1 h
    obtain ⟨hp, hq⟩ := mem_of_mem_chainEdges he
    exact ⟨List.mem_cons_self, List.mem_cons_of_mem _ hp, List.mem_cons_of_mem _ hq⟩

end Edges

/-! ## Flattened paths

Operations make paths of few shapes: a chain, a chain that is closed, and an arc. Each of them is one
subpath, so nothing has to be said here about paths in general. -/

theorem flattenFrom_lineTo (current : Array (Point Float32)) (ps : List (Point Float))
    (rest : List (PathElement Float)) :
    flattenFrom current (ps.map .lineTo ++ rest) =
      flattenFrom (current.appendList (ps.map Point.toSingle)) rest := by
  induction ps generalizing current with
  | nil => simp
  | cons p ps ih =>
    rw [List.map_cons, List.cons_append, flattenFrom, ih]
    · simp [PathElement.points]
    all_goals simp

/-- Points that are there make one subpath. -/
theorem ofPoints_eq {points : Array (Point Float32)} {corners : List (Point Float32)}
    (hpoints : points.toList = corners) (hcorners : corners ≠ []) (closed : Bool) :
    Subpath.ofPoints points closed = [⟨corners, closed⟩] := by
  have hsome : points.isEmpty = false := by
    rw [← Array.isEmpty_toList, hpoints, List.isEmpty_eq_false_iff]
    exact hcorners
  rw [Subpath.ofPoints, hsome, if_neg Bool.false_ne_true, hpoints]

theorem ofPoints_start (first : Point Float) (rest : List (Point Float)) (closed : Bool) :
    Subpath.ofPoints (#[first.toSingle].appendList (rest.map Point.toSingle)) closed =
      [⟨(first :: rest).map Point.toSingle, closed⟩] :=
  ofPoints_eq (by simp) (List.cons_ne_nil _ _) closed

/-- An open chain of corners is one subpath; without corners there is none. -/
theorem flatten_chainPath (corners : List (Point Float)) :
    flatten (chainPath corners) =
      if corners.isEmpty then [] else [⟨corners.map Point.toSingle, false⟩] := by
  cases corners with
  | nil => rfl
  | cons first rest =>
    have hrest := flattenFrom_lineTo #[first.toSingle] rest []
    rw [List.append_nil] at hrest
    rw [flatten, chainPath, flattenFrom, hrest, flattenFrom, ofPoints_start]
    rfl

/-- A chain of corners that is closed is one subpath. -/
theorem flatten_chainPath_close {corners : List (Point Float)} (h : corners ≠ []) :
    flatten (chainPath corners ++ [.close]) = [⟨corners.map Point.toSingle, true⟩] := by
  obtain ⟨first, rest, rfl⟩ := List.exists_cons_of_ne_nil h
  rw [chainPath, List.cons_append, flatten, flattenFrom, flattenFrom_lineTo, flattenFrom,
    ofPoints_start, flattenFrom]
  rfl

/-- An arc is one subpath of the ends of its segments. -/
theorem flatten_arc (center : Point Float) (radius startAngle endAngle : Float) :
    flatten [.arc center radius startAngle endAngle] =
      [⟨(arcPoints center radius startAngle endAngle).map Point.toSingle, false⟩] := by
  have hsome : (arcPoints center radius startAngle endAngle).map Point.toSingle ≠ [] := by
    rw [ne_eq, ← List.length_eq_zero_iff, List.length_map, length_arcPoints]
    exact Nat.succ_ne_zero _
  have hpoints : (#[].appendList ((arcPoints center radius startAngle endAngle).map
      Point.toSingle)).toList = (arcPoints center radius startAngle endAngle).map Point.toSingle := by
    simp
  exact ofPoints_eq hpoints hsome false

namespace Subpath

theorem lines_open (corners : List (Point Float32)) (width : Float32) (color : Color) :
    (Subpath.mk corners false).lines width color =
      (chainEdges corners).map fun e => (.line e.1 e.2 width color : WindowCall ι) :=
  List.append_nil _

theorem lines_closed (corners : List (Point Float32)) (width : Float32) (color : Color) :
    (Subpath.mk corners true).lines width color =
      (ringEdges corners).map fun e => (.line e.1 e.2 width color : WindowCall ι) := by
  cases corners with
  | nil => rfl
  | cons first rest =>
    rw [ringEdges_eq, List.map_append, lines]
    dsimp only
    rw [List.getLast?_eq_some_getLast (List.cons_ne_nil _ _)]
    rfl

theorem triangles_eq (corners : List (Point Float32)) (closed : Bool) (color : Color) :
    (Subpath.mk corners closed).triangles color =
      (fanTriangles corners).map fun t => (.triangle t.1 t.2.1 t.2.2 color : WindowCall ι) := by
  cases corners with
  | nil => rfl
  | cons first rest =>
    rw [triangles, fanTriangles, List.map_map]
    rfl

end Subpath

/-! ## One operation

What a window is asked for by one operation, first as a specification (`shown`) and then for each kind of
operation that draws. -/

/-- The corners that an operation has on the device, under a map from user space. -/
def Op.corners (m : Affine Float) (steps : Nat) : Op Float → List (Point Float)
  | polygon xs ys _ => (Point.pair xs ys).map m.snapped
  | polyline xs ys => (Point.pair xs ys).map m.snapped
  | spline curve => m.curveCorners (curve.sample steps)
  | circle center radius _ =>
    arcPoints (m.onPoint center) (radius * m.uniformScale) zero Scalar.fullTurn
  | _ => []

/-- The corners that a window is given. -/
def Op.windowCorners (m : Affine Float) (steps : Nat) (op : Op Float) : List (Point Float32) :=
  (op.corners m steps).map Point.toSingle

namespace Paint

variable (p : Paint Float) (steps : Nat)

/-- The line that shows an edge. -/
def edgeCall (e : Point Float32 × Point Float32) : WindowCall ι :=
  .line e.1 e.2 (p.lineWidth * p.transform.uniformScale).toFloat32 (p.stroke.faded p.alpha)

/-- The triangle that shows a part of the inside. -/
def insideCall (t : Point Float32 × Point Float32 × Point Float32) : WindowCall ι :=
  .triangle t.1 t.2.1 t.2.2 (p.fill.faded p.alpha)

/-- What a window is asked for by an operation. -/
def shown (op : Op Float) : List (WindowCall ι) :=
  (p.draw? steps op : Option (DrawCommand Float ι)).toList.flatMap DrawCommand.windowCalls

/-- A path without parts shows nothing. -/
theorem windowCalls_finished_nil (stroked : Bool) :
    (p.finished stroked [] : DrawCommand Float ι).windowCalls = [] := by
  cases stroked <;> rfl

theorem windowCalls_stroked (path : List (PathElement Float)) :
    (p.finished true path : DrawCommand Float ι).windowCalls =
      (flatten path).flatMap fun s => s.lines (p.lineWidth * p.transform.uniformScale).toFloat32
        (p.stroke.faded p.alpha) := rfl

/-- A path that is no single arc is filled with triangles. -/
theorem windowCalls_filled {path : List (PathElement Float)}
    (h : ∀ center radius startAngle endAngle, path ≠ [.arc center radius startAngle endAngle]) :
    (p.finished false path : DrawCommand Float ι).windowCalls =
      (flatten path).flatMap fun s => s.triangles (p.fill.faded p.alpha) := by
  rw [finished, if_neg Bool.false_ne_true, DrawCommand.windowCalls.eq_3]
  intro center radius startAngle endAngle heq
  exact h center radius startAngle endAngle heq

theorem shown_of_draw? {op : Op Float} {d : DrawCommand Float ι} (h : p.draw? steps op = some d) :
    p.shown steps op = d.windowCalls := by
  rw [shown, h, Option.toList_some, List.flatMap_singleton]

/-- An open chain of corners is shown by its edges. -/
theorem windowCalls_chain (corners : List (Point Float)) :
    (p.finished true (chainPath corners) : DrawCommand Float ι).windowCalls =
      (chainEdges (corners.map Point.toSingle)).map p.edgeCall := by
  rw [windowCalls_stroked, flatten_chainPath]
  cases corners with
  | nil => rfl
  | cons first rest =>
    rw [List.isEmpty_cons, if_neg Bool.false_ne_true, List.flatMap_singleton, Subpath.lines_open]
    rfl

/-- A closed chain of corners is shown by its edges or by the triangles inside it. -/
theorem windowCalls_ring (corners : List (Point Float)) (stroked : Bool) :
    (p.finished stroked (chainPath corners ++ if corners.isEmpty then [] else [.close]) :
        DrawCommand Float ι).windowCalls =
      if stroked then (ringEdges (corners.map Point.toSingle)).map p.edgeCall
      else (fanTriangles (corners.map Point.toSingle)).map p.insideCall := by
  cases corners with
  | nil => cases stroked <;> rfl
  | cons first rest =>
    have hsome : first :: rest ≠ [] := List.cons_ne_nil _ _
    rw [List.isEmpty_cons, if_neg Bool.false_ne_true]
    cases stroked with
    | true =>
      rw [windowCalls_stroked, flatten_chainPath_close hsome, List.flatMap_singleton,
        Subpath.lines_closed, if_pos rfl]
      rfl
    | false =>
      have hnoArc : ∀ center radius startAngle endAngle, chainPath (first :: rest) ++ [.close] ≠
          [.arc center radius startAngle endAngle] := by
        intro center radius startAngle endAngle heq
        cases (List.cons.inj heq).1
      rw [windowCalls_filled p hnoArc, flatten_chainPath_close hsome, List.flatMap_singleton,
        Subpath.triangles_eq, if_neg Bool.false_ne_true]
      rfl

/-- An arc is shown by its segments. -/
theorem windowCalls_arc (center : Point Float) (radius startAngle endAngle : Float) :
    (p.finished true [.arc center radius startAngle endAngle] : DrawCommand Float ι).windowCalls =
      (chainEdges ((arcPoints center radius startAngle endAngle).map Point.toSingle)).map
        p.edgeCall := by
  rw [windowCalls_stroked, flatten_arc, List.flatMap_singleton, Subpath.lines_open]
  rfl

theorem shown_polygon (xs ys : List Float) (outlined : Bool) :
    p.shown steps (.polygon xs ys outlined) =
      (if outlined then
        (ringEdges ((Op.polygon xs ys outlined).windowCorners p.transform steps)).map p.edgeCall
      else (fanTriangles ((Op.polygon xs ys outlined).windowCorners p.transform steps)).map
        p.insideCall : List (WindowCall ι)) := by
  have hdraw : (p.draw? steps (.polygon xs ys outlined) : Option (DrawCommand Float ι)) =
      some (p.finished outlined (chainPath ((Point.pair xs ys).map p.transform.snapped) ++
        if ((Point.pair xs ys).map p.transform.snapped).isEmpty then [] else [.close])) := by
    rw [← snappedChain_eq, List.isEmpty_map]
    rfl
  rw [p.shown_of_draw? steps hdraw, windowCalls_ring]
  rfl

theorem shown_polyline (xs ys : List Float) :
    p.shown steps (.polyline xs ys) =
      ((chainEdges ((Op.polyline xs ys).windowCorners p.transform steps)).map p.edgeCall :
        List (WindowCall ι)) := by
  have hdraw : (p.draw? steps (.polyline xs ys) : Option (DrawCommand Float ι)) =
      some (p.finished true (chainPath ((Point.pair xs ys).map p.transform.snapped))) := by
    rw [← snappedChain_eq]
    rfl
  rw [p.shown_of_draw? steps hdraw, windowCalls_chain]
  rfl

theorem shown_spline (curve : SplineCurve Float) :
    p.shown steps (.spline curve) =
      ((chainEdges ((Op.spline curve).windowCorners p.transform steps)).map p.edgeCall :
        List (WindowCall ι)) := by
  have hdraw : (p.draw? steps (.spline curve) : Option (DrawCommand Float ι)) =
      some (p.finished true (chainPath (p.transform.curveCorners (curve.sample steps)))) := by
    rw [← curveChain_eq]
    rfl
  rw [p.shown_of_draw? steps hdraw, windowCalls_chain]
  rfl

theorem shown_circle (center : Point Float) (radius : Float) (outlined : Bool) :
    p.shown steps (.circle center radius outlined) =
      (if outlined then
        (chainEdges ((Op.circle center radius outlined).windowCorners p.transform steps)).map p.edgeCall
      else [.circle (p.transform.onPoint center).toSingle
        (radius * p.transform.uniformScale).toFloat32 (p.fill.faded p.alpha)] :
        List (WindowCall ι)) := by
  have hdraw : (p.draw? steps (.circle center radius outlined) : Option (DrawCommand Float ι)) =
      some (p.finished outlined [.arc (p.transform.onPoint center) (radius * p.transform.uniformScale)
        zero Scalar.fullTurn]) := rfl
  rw [p.shown_of_draw? steps hdraw]
  cases outlined with
  | true =>
    rw [windowCalls_arc, if_pos rfl]
    rfl
  | false => rfl

/-- A text is shown as a text. -/
theorem shown_text (content : String) (point : Point Float) (font : Option String) (angle : Float)
    (outlined : Bool) : ∃ place size rotation color,
    p.shown steps (.text content point font angle outlined) =
      ([.text content place size rotation color] : List (WindowCall ι)) := by
  let glyphs := p.transform * Affine.rotation angle * Affine.scaling one (-one)
  have hdraw : (p.draw? steps (.text content point font angle outlined) : Option (DrawCommand Float ι)) =
      some (.text content (glyphs.onPoint point) glyphs (font.getD p.font)
        (if outlined then p.stroke else p.fill) p.alpha outlined) := rfl
  rw [p.shown_of_draw? steps hdraw, DrawCommand.windowCalls]
  exact ⟨_, _, _, _, rfl⟩

end Paint

/-! ## How many

As many edges as there are corners that both lists of coordinates have. -/

theorem Point.length_pair {α : Type} (xs ys : List α) :
    (Point.pair xs ys).length = min xs.length ys.length :=
  List.length_zipWith

namespace Op

variable (m : Affine Float) (steps : Nat)

theorem length_corners_polygon (xs ys : List Float) (outlined : Bool) :
    ((polygon xs ys outlined).windowCorners m steps).length = min xs.length ys.length := by
  rw [windowCorners, List.length_map, corners, List.length_map, Point.length_pair]

theorem length_corners_spline (curve : SplineCurve Float) :
    ((spline curve).windowCorners m steps).length = steps + 1 := by
  have hcurve : ∀ ps : List (Point Float), (m.curveCorners ps).length = ps.length := by
    intro ps
    cases ps with
    | nil => rfl
    | cons p ps => rw [Affine.curveCorners, List.length_cons, List.length_map, List.length_cons]
  rw [windowCorners, List.length_map, corners, hcurve, curve.length_sample]

theorem length_corners_circle (center : Point Float) (radius : Float) (outlined : Bool) :
    ((circle center radius outlined).windowCorners m steps).length = 49 := by
  have hsegments : arcSegments (Scalar.fullTurn - zero : Float) = 48 := by decide +kernel
  rw [windowCorners, List.length_map, corners, length_arcPoints, hsegments]

end Op

/-! ## All operations

The commands of a pass are those of its operations in order, and each command becomes calls by itself; so
the calls are those of the operations, and no call has corners of two of them. -/

/-- The corners of what is drawn with corners. -/
def WindowCall.corners : WindowCall ι → List (Point Float32)
  | line p q _ _ => [p, q]
  | triangle p q r _ => [p, q, r]
  | _ => []

namespace Paint

variable {p : Paint Float} {steps : Nat}

theorem corners_of_mem_edges {edges : List (Point Float32 × Point Float32)}
    {corners : List (Point Float32)} (h : ∀ e ∈ edges, e.1 ∈ corners ∧ e.2 ∈ corners) {call : WindowCall ι}
    (hcall : call ∈ edges.map p.edgeCall) : ∀ corner ∈ call.corners, corner ∈ corners := by
  obtain ⟨e, he, rfl⟩ := List.mem_map.1 hcall
  simpa [edgeCall, WindowCall.corners] using h e he

/-- What is drawn for an operation has no corners but its own. -/
theorem corners_of_mem_shown {op : Op Float} {call : WindowCall ι} (h : call ∈ p.shown steps op) :
    ∀ corner ∈ call.corners, corner ∈ op.windowCorners p.transform steps := by
  -- edges and triangles are made of the corners they are given; the rest shows a circle, a text or nothing
  cases op with
  | polygon xs ys outlined =>
    rw [shown_polygon] at h
    cases outlined with
    | true =>
      rw [if_pos rfl] at h
      exact corners_of_mem_edges (fun e he => mem_of_mem_ringEdges he) h
    | false =>
      rw [if_neg Bool.false_ne_true] at h
      obtain ⟨t, ht, rfl⟩ := List.mem_map.1 h
      simpa [insideCall, WindowCall.corners] using mem_of_mem_fanTriangles ht
  | polyline xs ys =>
    rw [shown_polyline] at h
    exact corners_of_mem_edges (fun e he => mem_of_mem_chainEdges he) h
  | spline curve =>
    rw [shown_spline] at h
    exact corners_of_mem_edges (fun e he => mem_of_mem_chainEdges he) h
  | circle center radius outlined =>
    rw [shown_circle] at h
    cases outlined with
    | true =>
      rw [if_pos rfl] at h
      exact corners_of_mem_edges (fun e he => mem_of_mem_chainEdges he) h
    | false =>
      rw [if_neg Bool.false_ne_true, List.mem_singleton] at h
      simp [h, WindowCall.corners]
  | text content point font angle outlined =>
    obtain ⟨place, size, rotation, color, hshown⟩ := p.shown_text (ι := ι) steps content point font
      angle outlined
    rw [hshown, List.mem_singleton] at h
    simp [h, WindowCall.corners]
  | _ => exact absurd h List.not_mem_nil

/-- What a window is asked for by operations is what it is asked for by each. -/
theorem windowCalls_drawing (p : Paint Float) (setting : PassSetting Float) (s : OverlayState Float)
    (ops : List (Op Float)) :
    (p.drawing setting s ops : List (DrawCommand Float ι)).flatMap DrawCommand.windowCalls =
      ops.zipIdx.flatMap fun (op, i) =>
        (p.after setting.base s (ops.take i)).shown setting.steps op := by
  rw [drawing, List.filterMap_eq_flatMap_toList, List.flatMap_assoc]
  rfl

end Paint

/-- A grid line is shown by one line between its snapped ends. -/
theorem Renderer.windowCalls_gridStroke (size : SurfaceSize Float) (r : Renderer Float ι)
    (line : Point Float × Point Float) :
    let map := (Paint.scaledBy size.ratio).transform
    ∃ width, (r.gridStroke size line : DrawCommand Float ι).windowCalls =
      [.line (map.snapped line.1).toSingle (map.snapped line.2).toSingle width
        (r.options.gridLineColor.faded one)] := by
  intro map
  have hpath : ([.moveTo (map.snapped line.1), .lineTo (map.snapped line.2)] :
      List (PathElement Float)) = chainPath [map.snapped line.1, map.snapped line.2] := rfl
  rw [gridStroke, DrawCommand.windowCalls, hpath, flatten_chainPath]
  exact ⟨_, rfl⟩

namespace Pass

/-- **What a window shows of an overlay.** However a pass ends, the window is asked for what it was
asked for before, and then for what each executed operation shows by itself, in order, with map and paint
as the operations before it leave them.

Under any paint, a stroked polygon shows the edges of the closed chain of its snapped corners, one for
each; a filled one the triangles around its first corner; a polyline the edges of the open chain; a
spline one edge for each step; a stroked circle forty-eight edges, a filled one a circle; and what has an
empty path shows nothing. Every line and every triangle has corners of the one operation only. A line of
the grid is shown by one line between its snapped ends. -/
theorem edges_run (setting : PassSetting Float) (ops : List (Op Float)) (p : Pass Float ι) :
    let done := Op.executed p.canvas.reportsTransform ops
    ((p.run setting ops).1.canvas.commands.toList.flatMap DrawCommand.windowCalls =
        p.canvas.commands.toList.flatMap DrawCommand.windowCalls ++ done.zipIdx.flatMap fun (op, i) =>
          (p.canvas.paint.after setting.base p.state (done.take i)).shown setting.steps op) ∧
      ∀ (q : Paint Float) (steps : Nat),
        (∀ xs ys,
          let corners := (Point.pair xs ys).map fun point => (q.transform.snapped point).toSingle
          corners.length = min xs.length ys.length ∧
            q.shown steps (.polygon xs ys true) = (ringEdges corners).map (q.edgeCall (ι := ι)) ∧
            q.shown steps (.polygon xs ys false) = (fanTriangles corners).map (q.insideCall (ι := ι)) ∧
            q.shown steps (.polyline xs ys) = (chainEdges corners).map (q.edgeCall (ι := ι)) ∧
            (ringEdges corners).length = corners.length ∧
            (fanTriangles corners).length = corners.length - 2 ∧
            (chainEdges corners).length = corners.length - 1) ∧
        (∀ curve : SplineCurve Float,
          let edges := chainEdges ((Op.spline curve).windowCorners q.transform steps)
          q.shown steps (.spline curve) = edges.map (q.edgeCall (ι := ι)) ∧ edges.length = steps) ∧
        (∀ center radius,
          let edges := chainEdges ((Op.circle center radius true).windowCorners q.transform steps)
          q.shown steps (.circle center radius true) = edges.map (q.edgeCall (ι := ι)) ∧
            edges.length = 48 ∧
            q.shown steps (.circle center radius false) =
              ([.circle (q.transform.onPoint center).toSingle
                (radius * q.transform.uniformScale).toFloat32 (q.fill.faded q.alpha)] :
                List (WindowCall ι))) ∧
        (∀ stroked, (q.finished stroked [] : DrawCommand Float ι).windowCalls = []) ∧
        (∀ (op : Op Float) (call : WindowCall ι), call ∈ q.shown steps op →
          ∀ corner ∈ call.corners, corner ∈ op.windowCorners q.transform steps) ∧
        ∀ (size : SurfaceSize Float) (r : Renderer Float ι) (line : Point Float × Point Float),
          let map := (Paint.scaledBy size.ratio).transform
          ∃ width, (r.gridStroke size line : DrawCommand Float ι).windowCalls =
            [.line (map.snapped line.1).toSingle (map.snapped line.2).toSingle width
              (r.options.gridLineColor.faded one)] := by
  intro done
  refine ⟨?_, fun q steps => ⟨fun xs ys => ?_, fun curve => ?_, fun center radius => ?_,
    q.windowCalls_finished_nil, fun op call => Paint.corners_of_mem_shown,
    fun size r line => r.windowCalls_gridStroke size line⟩⟩
  · obtain ⟨hreached, -⟩ := reaches_run setting ops p
    rw [hreached.commands, List.flatMap_append, Paint.windowCalls_drawing]
  · intro corners
    -- a polyline has the corners of a polygon; the two differ in the edge that closes it
    have hcorners : ∀ outlined,
        (Op.polygon xs ys outlined).windowCorners q.transform steps = corners := by
      intro outlined
      rw [Op.windowCorners, Op.corners, List.map_map]
      rfl
    have hline : (Op.polyline xs ys).windowCorners q.transform steps = corners := hcorners true
    refine ⟨?_, ?_, ?_, ?_, length_ringEdges _, length_fanTriangles _, length_chainEdges _⟩
    · rw [← hcorners true, Op.length_corners_polygon]
    · rw [q.shown_polygon, if_pos rfl, hcorners]
    · rw [q.shown_polygon, if_neg Bool.false_ne_true, hcorners]
    · rw [q.shown_polyline, hline]
  · intro edges
    refine ⟨q.shown_spline steps curve, ?_⟩
    rw [length_chainEdges, Op.length_corners_spline, Nat.add_sub_cancel]
  · intro edges
    refine ⟨?_, ?_, ?_⟩
    · rw [q.shown_circle, if_pos rfl]
    · rw [length_chainEdges, Op.length_corners_circle]
    · rw [q.shown_circle, if_neg Bool.false_ne_true]

/-- A polygon whose lists of coordinates differ in length has two corners and two edges, and what stands
behind an unknown operation is not shown. -/
theorem edges_run_on_aborted :
    let p : Pass Float String := ⟨.empty true, .empty, .seeded .standard, []⟩
    let ops : List (Op Float) := [.polygon [zero, one, one] [zero, one] true, .unknown "hexagon",
      .polyline [zero, one] [zero, one]]
    let corners := (Point.pair [zero, one, one] [zero, one]).map fun point =>
      (p.canvas.paint.transform.snapped point).toSingle
    (p.run ⟨.identity, 4⟩ ops).1.canvas.commands.toList.flatMap DrawCommand.windowCalls =
        (ringEdges corners).map (p.canvas.paint.edgeCall (ι := String)) ∧
      (ringEdges corners).length = 2 := by
  intro p ops corners
  obtain ⟨hcalls, hshown⟩ := edges_run ⟨.identity, 4⟩ ops p
  obtain ⟨hpolygon, -⟩ := hshown p.canvas.paint 4
  obtain ⟨hlength, hstroked, -, -, hring, -⟩ := hpolygon [zero, one, one] [zero, one]
  refine ⟨?_, hring.trans hlength⟩
  have hdone : Op.executed p.canvas.reportsTransform ops =
      [.polygon [zero, one, one] [zero, one] true] := rfl
  rw [hcalls, hdone, ← hstroked]
  exact (List.nil_append _).trans (List.append_nil _)

end Pass

end FieldDiagram
