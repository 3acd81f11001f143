import FieldDiagram.Proofs.Pass.Drawing
import Mathlib.Data.List.TakeWhile
/-!
# How far a pass gets

A pass carries out the operations before the first that fails, and it never looks at those behind it.
The operation that fails may have begun a path, but settings, paint, images and commands stay as the
operations before it left them. So what is true of a run over operations that do not fail is true of
every run, with the operations that are executed in place of all of them: `Pass.reaches_run`.

Main statement: `transform_run`, the map that any operations leave, however they end.
-/

namespace FieldDiagram

variable {α ι : Type}

/-! ## Executed operations

Which operations are carried out can be told without running them, as failing does not depend on what was
done before. -/

namespace Op

/-- The operations that a pass carries out on a canvas that tells its map or does not. -/
def executed (tells : Bool) (ops : List (Op α)) : List (Op α) :=
  ops.takeWhile fun op => !op.fails tells

theorem fails_of_mem_executed {tells : Bool} {ops : List (Op α)} {op : Op α}
    (h : op ∈ executed tells ops) : op.fails tells = false := by
  simpa using List.mem_takeWhile_imp h

theorem mem_of_mem_executed {tells : Bool} {ops : List (Op α)} {op : Op α}
    (h : op ∈ executed tells ops) : op ∈ ops :=
  (List.takeWhile_sublist _).subset h

/-- Operations before those that are looked at are executed if none of them fails. -/
theorem executed_append {tells : Bool} {pre : List (Op α)} (h : ∀ op ∈ pre, op.fails tells = false)
    (post : List (Op α)) : executed tells (pre ++ post) = pre ++ executed tells post := by
  rw [executed, List.takeWhile_append_of_pos]
  · rfl
  · intro op hop
    rw [h op hop, Bool.not_false]

theorem executed_of_none_fails {tells : Bool} {ops : List (Op α)}
    (h : ∀ op ∈ ops, op.fails tells = false) : executed tells ops = ops := by
  rw [executed, List.takeWhile_eq_self_iff]
  intro op hop
  rw [h op hop, Bool.not_false]

/-- Operations are executed all, or up to one that fails. -/
theorem executed_cases (tells : Bool) (ops : List (Op α)) :
    executed tells ops = ops ∨
      ∃ op post, op.fails tells = true ∧ ops = executed tells ops ++ op :: post := by
  rcases hrest : ops.dropWhile fun op => !op.fails tells with _ | ⟨op, post⟩
  · left
    rw [← List.takeWhile_append_dropWhile (p := fun op => !op.fails tells) (l := ops), hrest,
      List.append_nil]
    exact executed_of_none_fails fun op hop => fails_of_mem_executed hop
  · right
    refine ⟨op, post, ?_, ?_⟩
    · -- what is left starts with an operation that was not passed over
      have hhead := List.head_dropWhile_not (p := fun op : Op α => !op.fails tells) (l := ops)
        (by rw [hrest]; exact List.cons_ne_nil _ _)
      simpa [hrest] using hhead
    · rw [executed, ← hrest, List.takeWhile_append_dropWhile]

/-- The failure that ends a pass over operations: that of the one behind those that are executed. -/
def ending? (tells : Bool) (ops : List (Op α)) : Option RenderError :=
  let done := executed tells ops
  ops[done.length]?.bind fun op => op.failure? tells done.length

/-- Where the canvas tells its map, a pass is ended by the first unknown operation and by nothing else. -/
theorem ending?_true (ops : List (Op α)) :
    ending? true ops =
      (ops.zipIdx.find? (·.1.isUnknown)).map fun (op, i) => .unknownOperation op.kind i := by
  -- the operations that are passed over count for the place of those behind them
  have hfrom : ∀ start, (ops[(executed true ops).length]?.bind fun op =>
        op.failure? true (start + (executed true ops).length)) =
      ((ops.zipIdx start).find? (·.1.isUnknown)).map fun (op, i) => .unknownOperation op.kind i := by
    induction ops with
    | nil => exact fun _ => rfl
    | cons op ops ih =>
      intro start
      rw [executed, List.zipIdx_cons, List.takeWhile_cons, List.find?_cons, fails_true, ← executed]
      cases op with
      | unknown kind => rfl
      | _ =>
        have hrest := ih (start + 1)
        rw [Nat.add_right_comm, Nat.add_assoc] at hrest
        exact hrest
  have hzero := hfrom 0
  rw [Nat.zero_add] at hzero
  exact hzero

/-- An operation that can fail sets nothing and asks for no art. -/
theorem sets_nothing_of_fails [Scalar α] {op : Op α} {tells : Bool} (h : op.fails tells = true)
    (s : OverlayState α) (c : ImageCache α ι) : s.after [op] = s ∧ c.afterOp op = c := by
  cases op with
  | unknown kind => exact ⟨rfl, rfl⟩
  | polygon xs ys outlined => exact ⟨rfl, rfl⟩
  | polyline xs ys => exact ⟨rfl, rfl⟩
  | spline curve => exact ⟨rfl, rfl⟩
  | _ => exact absurd h (by simp [fails, isUnknown, snaps])

end Op

/-! ## What a run leaves

Operations that fail set nothing, so the run up to a failure is a run without one. That reduces every run to
those that `reaches_run` is about. -/

variable [Scalar α]

open Scalar (one)

namespace Pass

/-- A step that fails stays at its place. -/
theorem Reaches.step_of_fails {setting : PassSetting α} {p q : Pass α ι} {ops : List (Op α)}
    (h : Reaches setting p ops q) (index : Nat) {op : Op α}
    (hop : op.fails p.canvas.reportsTransform = true) :
    Reaches setting p ops (q.step setting index op).1 := by
  obtain ⟨hstate, himages⟩ := Op.sets_nothing_of_fails hop q.state q.images
  rw [← h.tells, ← Op.isSome_failure? _ index] at hop
  obtain ⟨e, he⟩ := Option.isSome_iff_exists.1 hop
  -- the path may have been begun anew, which is why `Reaches` says nothing of it
  obtain ⟨path, hcanvas⟩ : ∃ path, (q.step setting index op).1.canvas = { q.canvas with path } := by
    rw [(canvas_step_of_failure he).2]
    split
    · exact ⟨q.canvas.path, rfl⟩
    · exact ⟨#[], rfl⟩
  refine ⟨?_, ?_, ?_, ?_, ?_, ?_⟩
  · rw [hcanvas, ← h.tells]
  · rw [state_step, hstate, h.state]
  · rw [hcanvas, ← h.paint]
  · rw [hcanvas, ← h.saved]
  · rw [images_step, himages, h.images]
  · rw [hcanvas, ← h.commands]

/-- Behind an operation that fails nothing is looked at. -/
theorem run_append_of_fails {setting : PassSetting α} {pre : List (Op α)} {p q : Pass α ι}
    (hrun : p.run setting pre = (q, none)) {op : Op α}
    (hop : op.fails q.canvas.reportsTransform = true) (post : List (Op α)) :
    p.run setting (pre ++ op :: post) = q.step setting pre.length op := by
  rw [← Op.isSome_failure? _ pre.length, ← failure_step setting pre.length op q] at hop
  obtain ⟨e, he⟩ := Option.isSome_iff_exists.1 hop
  rw [run] at hrun ⊢
  rw [runFrom_append, hrun]
  simp only [Nat.zero_add, runFrom]
  rcases hstep : q.step setting pre.length op with ⟨r, e'⟩
  rw [hstep] at he
  cases e' with
  | none => exact absurd he (by simp)
  | some e' => rfl

/-- **What a run leaves.** Whichever way operations end, the pass is where those that are executed
lead, and it reports the failure of the one behind them. -/
theorem reaches_run (setting : PassSetting α) (ops : List (Op α)) (p : Pass α ι) :
    let tells := p.canvas.reportsTransform
    Reaches setting p (Op.executed tells ops) (p.run setting ops).1 ∧
      (p.run setting ops).2 = Op.ending? tells ops := by
  intro tells
  obtain ⟨q, hrun, hq⟩ := run_of_none_fails setting (Op.executed tells ops) p
    fun op hop => Op.fails_of_mem_executed hop
  unfold Op.ending?
  rcases Op.executed_cases tells ops with hall | ⟨op, post, hop, hsplit⟩
  · -- nothing fails, and there is no operation behind those that are executed
    rw [hall] at hrun hq ⊢
    rw [hrun]
    dsimp only
    rw [List.getElem?_eq_none (Nat.le_refl _)]
    exact ⟨hq, rfl⟩
  · have htells : q.canvas.reportsTransform = tells := hq.tells
    -- only the whole list is split up, the part that is executed keeps its name
    generalize Op.executed tells ops = done at hrun hq hsplit
    rw [hsplit, run_append_of_fails hrun (by rw [htells]; exact hop)]
    refine ⟨hq.step_of_fails _ hop, ?_⟩
    rw [failure_step, htells]
    simp

/-- **The command of an operation at its place.** Before an operation that does not fail, and behind
others that do not, stands what those have drawn; then comes the one command of the operation, if it
draws, with map and paint as they are at its place. -/
theorem commands_run_append (setting : PassSetting α) (p : Pass α ι) {pre : List (Op α)}
    (hpre : ∀ op' ∈ pre, op'.fails p.canvas.reportsTransform = false) (op : Op α)
    (hop : op.fails p.canvas.reportsTransform = false) (post : List (Op α)) :
    let before := (p.run setting pre).1.canvas
    ∃ rest, (p.run setting (pre ++ op :: post)).1.canvas.commands.toList =
      before.commands.toList ++ (before.paint.draw? setting.steps op).toList ++ rest := by
  intro before
  obtain ⟨hbefore, -⟩ := reaches_run setting pre p
  obtain ⟨hall, -⟩ := reaches_run setting (pre ++ op :: post) p
  have hboth : ∀ op' ∈ pre ++ [op], op'.fails p.canvas.reportsTransform = false := by
    intro op' hop'
    rcases List.mem_append.1 hop' with hmem | hmem
    · exact hpre op' hmem
    · rw [List.mem_singleton.1 hmem]
      exact hop
  rw [Op.executed_of_none_fails hpre] at hbefore
  rw [List.append_cons, Op.executed_append hboth] at hall
  have hcommands := hall.commands
  rw [Paint.drawing_append, Paint.drawing_concat, ← List.append_assoc, ← List.append_assoc,
    ← hbefore.commands, ← hbefore.paint] at hcommands
  rw [List.append_cons]
  exact ⟨_, hcommands⟩

end Pass

/-! ## The map

The map is what the last operations on origin, rotation and factors say. Only the last operation that sets
axes can have left factors. -/

namespace Op

/-- Whether an operation sets the axes that later operations are drawn in. -/
def setsAxes : Op α → Bool
  | scale _ _ => true
  | rotation _ => true
  | origin _ => true
  | _ => false

/-- The factors of an operation that scales. -/
def factors? : Op α → Option (Point α)
  | scale x y => some ⟨x, y⟩
  | _ => none

omit [Scalar α] in
/-- Only the last operation that sets axes decides what is on top of origin and rotation. -/
theorem latest?_stretch? (ops : List (Op α)) :
    latest? stretch? ops = (ops.filter setsAxes).getLast?.map factors? := by
  -- from the end, where the operation stands that decides
  induction ops using List.reverseRecOn with
  | nil => rfl
  | append_singleton ops op ih =>
    rw [latest?_concat, ih, List.filter_append, List.getLast?_append]
    cases op with
    | scale x y => rfl
    | rotation angle => rfl
    | origin point => rfl
    | _ => exact Option.none_or.trans rfl

omit [Scalar α] in
theorem stretch?_of_isDrawing {op : Op α} (h : op.isDrawing = true) : op.stretch? = none := by
  cases op <;> first | rfl | exact absurd h (by simp [isDrawing])

end Op

namespace Pass

/-- No operation that draws changes the map, even if it fails. -/
theorem transform_step_of_isDrawing (setting : PassSetting α) (index : Nat) {op : Op α}
    (hop : op.isDrawing = true) (p : Pass α ι) :
    (p.step setting index op).1.canvas.paint.transform = p.canvas.paint.transform := by
  rcases hfailure : op.failure? p.canvas.reportsTransform index with _ | e
  · rw [(canvas_step setting hfailure).2, Canvas.paint_afterOp, Paint.after]
    dsimp only
    rw [latest?_singleton, Op.stretch?_of_isDrawing hop]
  · rw [(canvas_step_of_failure hfailure).2]
    split <;> rfl

/-- **The map that operations leave.** Take those that are executed, whether a failure ends them or
not. Without one that sets axes among them the map is as it was. Otherwise it is the base with the last
origin and the last rotation, as they were at the start where none was set, and with factors on top
exactly if the last operation that sets axes is the one that scales. No operation that draws has a
part in it. -/
theorem transform_run (setting : PassSetting α) (ops : List (Op α)) (p : Pass α ι) :
    let done := Op.executed p.canvas.reportsTransform ops
    let map := (p.run setting ops).1.canvas.paint.transform
    let origin := (latest? Op.newOrigin? done).getD p.state.origin
    let angle := (latest? Op.newRotation? done).getD p.state.rotation
    let layered := setting.base * .displacement origin * .rotation angle
    (match (done.filter Op.setsAxes).getLast? with
      | none => map = p.canvas.paint.transform
      | some (.scale x y) => map = layered * .scaling x y
      | some _ => map = layered) ∧
    ∀ (q : Pass α ι) (index : Nat) (op : Op α), op.isDrawing = true →
      (q.step setting index op).1.canvas.paint.transform = q.canvas.paint.transform := by
  intro done map origin angle layered
  refine ⟨?_, fun q index op hop => transform_step_of_isDrawing setting index hop q⟩
  have hmap : map = (p.canvas.paint.after setting.base p.state done).transform :=
    congrArg Paint.transform (reaches_run setting ops p).1.paint
  rw [hmap, Paint.after]
  dsimp only
  rw [Op.latest?_stretch?]
  rcases (done.filter Op.setsAxes).getLast? with _ | op
  · rfl
  · -- what is left is the one place where the three kinds differ
    cases op <;> rfl

/-- A scale is wiped by the rotation behind it, and what stands behind an unknown operation has no
say. -/
theorem transform_run_on_aborted :
    let setting : PassSetting Float := ⟨.scaling (Scalar.ofNat 2) (Scalar.ofNat 2), 4⟩
    let p : Pass Float String := ⟨.empty true, .empty, .seeded .standard, []⟩
    let five : Float := Scalar.ofNat 5
    let text : Op Float := .text "A" ⟨five, five⟩ none one true
    let ops : List (Op Float) := [.origin ⟨five, five⟩, .scale five five, text, .rotation one,
      .polyline [one, five] [one, five], .unknown "hexagon", .scale five five]
    (p.run setting ops).1.canvas.paint.transform =
        setting.base * .displacement ⟨five, five⟩ * .rotation one ∧
      text.isDrawing = true ∧
      (p.step setting 2 text).1.canvas.paint.transform = p.canvas.paint.transform := by
  intro setting p five text ops
  obtain ⟨hmap, hdraw⟩ := transform_run setting ops p
  exact ⟨hmap, rfl, hdraw p 2 text rfl⟩

end Pass

end FieldDiagram
