import FieldDiagram.Proofs.Pass.Step
import FieldDiagram.Scalar.Machine
import Mathlib.Data.List.Basic
/-!
# What an overlay draws

A pass carries out operations one by one on a canvas that all of them share. What it draws can be said
without it: an operation that draws makes one command, and that command is told by the operation, by
the last effective settings among the operations before it, and by map and paint at the start of the
pass. Nothing of an earlier path and no paint of an earlier text gets into it. Main statement:
`run_draws`.
-/

namespace FieldDiagram

variable {α ι : Type} [Scalar α]

open Scalar (zero one)

/-- Whether an operation draws. -/
def Op.isDrawing : Op α → Bool
  | text .. => true
  | circle .. => true
  | polygon .. => true
  | polyline .. => true
  | spline _ => true
  | _ => false

/-- What operations draw, in a pass that starts with this paint and these settings: each by itself,
with map and paint as the operations before it leave them. -/
def Paint.drawing (p : Paint α) (setting : PassSetting α) (s : OverlayState α) (ops : List (Op α)) :
    List (DrawCommand α ι) :=
  ops.zipIdx.filterMap fun (op, i) => (p.after setting.base s (ops.take i)).draw? setting.steps op

theorem Paint.isSome_draw? (p : Paint α) (steps : Nat) (op : Op α) :
    (p.draw? steps op : Option (DrawCommand α ι)).isSome = op.isDrawing := by
  cases op <;> rfl

/-- An operation with a path strokes or fills it. -/
theorem Paint.draw?_of_path? {p : Paint α} {steps : Nat} {op : Op α} {path : List (PathElement α)}
    (h : op.path? p.transform steps = some path) :
    p.draw? steps op = some (p.finished op.isStroked path : DrawCommand α ι) := by
  unfold draw?
  split
  · exact absurd h (Option.some_ne_none path).symm
  · rw [h, Option.map_some]

/-- One more operation draws at most one more command, with what all operations before it have set. -/
theorem Paint.drawing_concat (p : Paint α) (setting : PassSetting α) (s : OverlayState α)
    (ops : List (Op α)) (op : Op α) :
    (p.drawing setting s (ops ++ [op]) : List (DrawCommand α ι)) =
      p.drawing setting s ops ++ ((p.after setting.base s ops).draw? setting.steps op).toList := by
  rw [drawing, List.zipIdx_append, List.filterMap_append, drawing]
  congr 1
  · -- for the operations before, one more operation at the end is not among those before them
    refine List.filterMap_congr ?_
    rintro ⟨op', i⟩ hmem
    have hlt : i < ops.length := by
      simpa using List.snd_lt_of_mem_zipIdx hmem
    dsimp only
    rw [List.take_append_of_le_length (Nat.le_of_lt hlt)]
  · rw [Nat.zero_add, List.zipIdx_singleton, List.filterMap_cons]
    dsimp only
    rw [List.take_left' rfl]
    cases (p.after setting.base s ops).draw? setting.steps op <;> rfl

/-- Operations in two parts draw one part after the other. -/
theorem Paint.drawing_append (p : Paint α) (setting : PassSetting α) (s : OverlayState α)
    (ops more : List (Op α)) :
    (p.drawing setting s (ops ++ more) : List (DrawCommand α ι)) =
      p.drawing setting s ops ++
        (p.after setting.base s ops).drawing setting (s.after ops) more := by
  induction more using List.reverseRecOn with
  | nil =>
    rw [List.append_nil]
    exact (List.append_nil _).symm
  | append_singleton more op ih =>
    rw [← List.append_assoc, drawing_concat, ih, drawing_concat, List.append_assoc, after_append]

theorem Paint.length_drawing (p : Paint α) (setting : PassSetting α) (s : OverlayState α)
    (ops : List (Op α)) :
    (p.drawing setting s ops : List (DrawCommand α ι)).length = ops.countP Op.isDrawing := by
  induction ops using List.reverseRecOn with
  | nil => rfl
  | append_singleton ops op ih =>
    rw [drawing_concat, List.length_append, ih, List.countP_append, List.countP_singleton]
    congr 1
    rw [← isSome_draw? (ι := ι) (p.after setting.base s ops) setting.steps op]
    cases (p.after setting.base s ops).draw? setting.steps op <;> rfl

/-- Every command that is drawn is that of one operation, with what the operations before it have set, and
it stands behind what these draw. -/
theorem Paint.exists_of_getElem?_drawing {p : Paint α} {setting : PassSetting α} {s : OverlayState α}
    {ops : List (Op α)} {i : Nat} {d : DrawCommand α ι} (h : (p.drawing setting s ops)[i]? = some d) :
    ∃ pre op post, ops = pre ++ op :: post ∧
      (p.drawing setting s pre : List (DrawCommand α ι)).length = i ∧
      (p.after setting.base s pre).draw? setting.steps op = some d := by
  induction ops using List.reverseRecOn with
  | nil => exact absurd h (Option.some_ne_none d).symm
  | append_singleton ops op ih =>
    rw [drawing_concat] at h
    by_cases hbefore : i < (p.drawing setting s ops : List (DrawCommand α ι)).length
    · rw [List.getElem?_append_left hbefore] at h
      obtain ⟨pre, op', post, rfl, hlength, hdraw⟩ := ih h
      exact ⟨pre, op', post ++ [op], List.append_assoc .., hlength, hdraw⟩
    · -- the last operation has drawn it, and nothing else
      rw [List.getElem?_append_right (Nat.le_of_not_lt hbefore)] at h
      obtain ⟨hplace, hmem⟩ := List.getElem?_eq_some_iff.1 h
      have hone : ((p.after setting.base s ops).draw? setting.steps op :
          Option (DrawCommand α ι)).toList.length ≤ 1 := Option.length_toList_le
      refine ⟨ops, op, [], rfl, by omega, ?_⟩
      rw [← Option.mem_toList, ← hmem]
      exact List.getElem_mem hplace

namespace Pass

theorem run_concat {setting : PassSetting α} {ops : List (Op α)} {p q : Pass α ι}
    (h : p.run setting ops = (q, none)) (op : Op α) :
    p.run setting (ops ++ [op]) = q.step setting ops.length op := by
  rw [run] at h ⊢
  rw [runFrom_append, h]
  simp only [Nat.zero_add, runFrom]
  rcases q.step setting ops.length op with ⟨r, _ | e⟩ <;> rfl

/-- What holds between the start of a pass and a place in it, when these operations have been carried
out: settings, paint and images are as the operations say, what was saved is still saved, and the
commands are those of the start and what was drawn. -/
structure Reaches (setting : PassSetting α) (p : Pass α ι) (ops : List (Op α)) (q : Pass α ι) :
    Prop where
  tells : q.canvas.reportsTransform = p.canvas.reportsTransform
  state : q.state = p.state.after ops
  paint : q.canvas.paint = p.canvas.paint.after setting.base p.state ops
  saved : q.canvas.saved = p.canvas.saved
  images : q.images = p.images.after ops
  commands : q.canvas.commands.toList =
    p.canvas.commands.toList ++ p.canvas.paint.drawing setting p.state ops

/-- A step that does not fail reaches the next place. -/
theorem Reaches.step {setting : PassSetting α} {p q : Pass α ι} {ops : List (Op α)}
    (h : Reaches setting p ops q) (index : Nat) {op : Op α}
    (hop : op.fails p.canvas.reportsTransform = false) :
    (q.step setting index op).2 = none ∧ Reaches setting p (ops ++ [op]) (q.step setting index op).1 := by
  rw [← h.tells] at hop
  obtain ⟨hok, hcanvas⟩ := canvas_step setting (Op.failure?_eq_none_iff.2 hop)
  refine ⟨hok, ?_, ?_, ?_, ?_, ?_, ?_⟩
  · rw [hcanvas, Canvas.reportsTransform_afterOp, h.tells]
  · rw [state_step, h.state, OverlayState.after_append]
  · rw [hcanvas, Canvas.paint_afterOp, h.paint, h.state, Paint.after_append]
  · rw [hcanvas, Canvas.saved_afterOp, h.saved]
  · rw [images_step, h.images, ImageCache.after_append, ImageCache.after_singleton]
  · rw [hcanvas, Canvas.commands_afterOp, h.commands, h.paint, Paint.drawing_concat,
      List.append_assoc]

/-- Operations of which none fails are all carried out. -/
theorem run_of_none_fails (setting : PassSetting α) (ops : List (Op α)) (p : Pass α ι)
    (hops : ∀ op ∈ ops, op.fails p.canvas.reportsTransform = false) :
    ∃ q, p.run setting ops = (q, none) ∧ Reaches setting p ops q := by
  -- the next step needs `Reaches` of all operations before it, so the induction is from the end
  induction ops using List.reverseRecOn with
  | nil => exact ⟨p, rfl, rfl, rfl, rfl, rfl, p.images.after_nil.symm, (List.append_nil _).symm⟩
  | append_singleton ops op ih =>
    obtain ⟨q, hrun, hq⟩ := ih fun op' hop' => hops op' (List.mem_append_left _ hop')
    obtain ⟨hok, hnext⟩ := hq.step ops.length (hops op (by simp))
    refine ⟨(q.step setting ops.length op).1, ?_, hnext⟩
    rw [run_concat hrun, ← hok]

theorem run_known (setting : PassSetting α) (ops : List (Op α)) (p : Pass α ι)
    (hknown : ∀ op ∈ ops, op.isUnknown = false) (htells : p.canvas.reportsTransform = true) :
    ∃ q, p.run setting ops = (q, none) ∧ Reaches setting p ops q := by
  apply run_of_none_fails
  intro op hop
  rw [htells, Op.fails_true]
  exact hknown op hop

/-- **What an overlay draws.** A pass over known operations succeeds on every canvas that tells its
map, whatever its paint, its saved paints, its path and its commands are. The earlier commands stay,
and after them there is exactly one for each operation that draws, in their order: the command that
the operation makes by itself, with map and paint as the operations before it leave those of the
start. -/
theorem run_draws (setting : PassSetting α) (ops : List (Op α)) (p : Pass α ι)
    (hknown : ∀ op ∈ ops, op.isUnknown = false) (htells : p.canvas.reportsTransform = true) :
    ∃ q drawn, p.run setting ops = (q, none) ∧
      q.canvas.commands.toList = p.canvas.commands.toList ++ drawn ∧
      drawn.length = ops.countP Op.isDrawing ∧
      drawn = ops.zipIdx.filterMap fun (op, i) =>
        (p.canvas.paint.after setting.base p.state (ops.take i)).draw? setting.steps op := by
  obtain ⟨q, hrun, hq⟩ := run_known setting ops p hknown htells
  exact ⟨q, p.canvas.paint.drawing setting p.state ops, hrun, hq.commands,
    Paint.length_drawing _ _ _ _, rfl⟩

/-- On a canvas in use, with a circle left in its path and a text already drawn. -/
theorem run_draws_on_used :
    let used : Canvas Float String := (Canvas.empty true).calls
      [.fillText "A" zero zero, .beginPath, .arc zero zero one zero Scalar.fullTurn]
    let ops : List (Op Float) := [.fill "red", .alpha (Scalar.ofNat 2), .circle .zero one false,
      .origin ⟨one, one⟩, .stroke "no colour", .polyline [one, zero] [one],
      .grid ⟨3, by decide, by decide⟩ ⟨4, by decide, by decide⟩]
    let p : Pass Float String := ⟨used, .empty, .seeded .standard, []⟩
    (∀ op ∈ ops, op.isUnknown = false) ∧ used.reportsTransform = true ∧
      ∃ q drawn, p.run ⟨.identity, 4⟩ ops = (q, none) ∧
        q.canvas.commands.toList = used.commands.toList ++ drawn ∧ drawn.length = 2 := by
  intro used ops p
  have hknown : ∀ op ∈ ops, op.isUnknown = false := by
    simp [ops, Op.isUnknown]
  have htells : used.reportsTransform = true := rfl
  obtain ⟨q, drawn, hrun, hcommands, hlength, -⟩ := run_draws ⟨.identity, 4⟩ ops p hknown htells
  exact ⟨hknown, htells, q, drawn, hrun, hcommands, hlength⟩

end Pass

end FieldDiagram
