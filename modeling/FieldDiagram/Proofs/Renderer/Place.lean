import FieldDiagram.Proofs.Pass.Axes
import FieldDiagram.Proofs.Renderer.Outcome
/-!
# Each command at its place

A pass draws its background, the grid, and then the operations of its overlay one after the other. So
between any two operations there is a canvas that only those before have worked on, `canvasBehind`, and
the command of an operation is told by the operation and the paint of that canvas. It stands where the
commands of that canvas end (`commands_render_split`), and behind background and grid there are no other
commands (`exists_of_getElem?_render`).
-/

namespace FieldDiagram

variable {α ι : Type}

/-- What comes before an operation that a pass carries out does not fail. -/
theorem Overlay.fails_of_split {o : Overlay α} {pre post : List (Op α)} {op : Op α}
    (hsplit : o.executed = pre ++ op :: post) : ∀ op' ∈ pre, op'.fails true = false := by
  intro op' hop'
  apply Op.fails_of_mem_executed
  change op' ∈ o.executed
  rw [hsplit]
  exact List.mem_append_left _ hop'

variable [Scalar α]

namespace Renderer

/-- The canvas of a pass when these operations of its overlay have been carried out. -/
def canvasBehind (size : SurfaceSize α) (r : Renderer α ι) (ops : List (Op α)) : Canvas α ι :=
  (((r.beneath size).overlayStart (r.baseFor size)).run
    ⟨r.baseFor size, r.options.splineSamples.1⟩ ops).1.canvas

section Behind

variable {r : Renderer α ι} (h : r.canvas.reportsTransform = true) (size : SurfaceSize α)
  {ops : List (Op α)} (hknown : ∀ op ∈ ops, op.fails true = false)

include h hknown

theorem reaches_canvasBehind :
    Pass.Reaches ⟨r.baseFor size, r.options.splineSamples.1⟩
      ((r.beneath size).overlayStart (r.baseFor size)) ops
      (((r.beneath size).overlayStart (r.baseFor size)).run
        ⟨r.baseFor size, r.options.splineSamples.1⟩ ops).1 := by
  have hrun := (Pass.reaches_run ⟨r.baseFor size, r.options.splineSamples.1⟩ ops
    ((r.beneath size).overlayStart (r.baseFor size))).1
  rwa [tells_overlayStart h, Op.executed_of_none_fails hknown] at hrun

/-- Background and grid leave no trace in the paint. -/
theorem paint_canvasBehind :
    (r.canvasBehind size ops).paint =
      { Paint.standard with transform := r.baseFor size }.after (r.baseFor size) (.seeded r.grid) ops := by
  rw [canvasBehind, (reaches_canvasBehind h size hknown).paint, paint_overlayStart]
  rfl

theorem commands_canvasBehind :
    (r.canvasBehind size ops).commands.toList =
      (r.backdrop size).commands.toList ++ r.gridStrokes size ++
        { Paint.standard with transform := r.baseFor size }.drawing
          ⟨r.baseFor size, r.options.splineSamples.1⟩ (.seeded r.grid) ops := by
  rw [canvasBehind, (reaches_canvasBehind h size hknown).commands, paint_overlayStart,
    ← (r.canvas_beneath size).2.2]
  rfl

end Behind

section Split

variable {r : Renderer α ι} (h : r.canvas.reportsTransform = true) (size : SurfaceSize α)

include h

/-- **The command of an operation at its place.** Behind what the operations before it have left stands
the command of the operation, if it draws, and then come those of the operations behind it. -/
theorem commands_render_split {pre post : List (Op α)} {op : Op α}
    (hsplit : r.overlay.executed = pre ++ op :: post) :
    ∃ rest, (r.render size).1.canvas.commands.toList =
      (r.canvasBehind size pre).commands.toList ++
        ((r.canvasBehind size pre).paint.draw? r.options.splineSamples.1 op).toList ++ rest := by
  have hknown := Overlay.fails_of_split hsplit
  rw [commands_render h, overlayDrawing, hsplit, List.append_cons, Paint.drawing_append,
    Paint.drawing_concat, ← List.append_assoc, ← List.append_assoc, paint_canvasBehind h size hknown,
    commands_canvasBehind h size hknown]
  exact ⟨_, rfl⟩

/-- So it has a number of its own among the commands: that of the commands before it. -/
theorem getElem?_render_split {pre post : List (Op α)} {op : Op α} {d : DrawCommand α ι}
    (hsplit : r.overlay.executed = pre ++ op :: post)
    (hdraw : (r.canvasBehind size pre).paint.draw? r.options.splineSamples.1 op = some d) :
    (r.render size).1.canvas.commands.toList[(r.canvasBehind size pre).commands.toList.length]? =
      some d := by
  obtain ⟨rest, hcommands⟩ := commands_render_split h size hsplit
  rw [hcommands, hdraw, List.append_assoc, List.getElem?_append_right (Nat.le_refl _), Nat.sub_self]
  rfl

/-- Every command behind background and grid is the command of one operation and stands at its place. -/
theorem exists_of_getElem?_render {i : Nat} {d : DrawCommand α ι}
    (hd : (r.render size).1.canvas.commands.toList[i]? = some d) :
    d ∈ (r.backdrop size).commands.toList ∨ d ∈ r.gridStrokes size ∨
      ∃ pre op post, r.overlay.executed = pre ++ op :: post ∧
        (r.canvasBehind size pre).commands.toList.length = i ∧
        (r.canvasBehind size pre).paint.draw? r.options.splineSamples.1 op = some d := by
  rw [commands_render h] at hd
  by_cases hbelow : i < ((r.backdrop size).commands.toList ++ r.gridStrokes size).length
  · rw [List.getElem?_append_left hbelow] at hd
    rcases List.mem_append.1 (List.mem_of_getElem? hd) with hmem | hmem
    · exact .inl hmem
    · exact .inr (.inl hmem)
  · right; right
    rw [List.getElem?_append_right (Nat.le_of_not_lt hbelow), overlayDrawing] at hd
    obtain ⟨pre, op, post, hsplit, hlength, hdraw⟩ := Paint.exists_of_getElem?_drawing hd
    have hknown := Overlay.fails_of_split hsplit
    refine ⟨pre, op, post, hsplit, ?_, ?_⟩
    · rw [commands_canvasBehind h size hknown, List.length_append, hlength]
      omega
    · rw [paint_canvasBehind h size hknown]
      exact hdraw

end Split

/-- With exact numbers: origin and rotation on top of the base transform, and then the factors that are in
force. -/
theorem transform_canvasBehind {r : Renderer ℝ ι} (h : r.canvas.reportsTransform = true)
    (size : SurfaceSize ℝ) {ops : List (Op ℝ)} (hknown : ∀ op ∈ ops, op.fails true = false) :
    (r.canvasBehind size ops).paint.transform =
      ((r.baseFor size).layered (Op.originBehind ops) (Op.rotationBehind ops)).stretched
        (Op.inForce? ops) := by
  rw [paint_canvasBehind h size hknown]
  exact Paint.transform_after rfl r.grid ops

end Renderer

end FieldDiagram
