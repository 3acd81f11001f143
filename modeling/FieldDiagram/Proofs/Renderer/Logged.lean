import FieldDiagram.Proofs.Renderer.Abort
/-!
# What goes to the log

A renderer only ever writes to its log. A pass adds lines of its own kind (`Pass.mem_log_run`), and what
calls do to everything else has nothing to do with what is in the log (`calls_prelogged`). So a host may
hand the log out (`unlogged_calls`) or add lines of its own (`withoutLines_calls`), and the renderer goes
on as if it had not.
-/

namespace FieldDiagram

variable {α ι : Type}

/-! ## Lines of passes

A pass has three kinds of lines, each about an operation. -/

namespace Pass

/-- The lines that a pass may add to the log. -/
def lines : List LogLine := [unknownOperation, invalidColor, excessiveGrid]

theorem mem_log_note {line noted : LogLine} {p : Pass α ι} (hnoted : noted ∈ lines)
    (h : line ∈ (p.note noted).log) : line ∈ p.log ∨ line ∈ lines := by
  rcases List.mem_append.1 h with hold | hnew
  · exact Or.inl hold
  · rw [List.mem_singleton.1 hnew]
    exact Or.inr hnoted

theorem mem_log_setColor {text : String} {set : Color → Pass α ι → Pass α ι} {p : Pass α ι}
    (hset : ∀ c, (set c p).log = p.log) {line : LogLine} (h : line ∈ (p.setColor text set).log) :
    line ∈ p.log ∨ line ∈ lines := by
  unfold setColor at h
  split at h
  · rw [hset] at h
    exact Or.inl h
  · exact mem_log_note (by decide) h

variable [Scalar α]

/-- An operation adds such lines only. -/
theorem mem_log_step (setting : PassSetting α) (index : Nat) (op : Op α) (p : Pass α ι)
    {line : LogLine} (h : line ∈ (p.step setting index op).1.log) :
    line ∈ p.log ∨ line ∈ lines := by
  have hdraw : ∀ build rest, (p.drawPath build rest).1.log = p.log := by
    intro build rest
    rw [drawPath]
    split <;> rfl
  cases op with
  | grid horizontal vertical =>
    rw [step] at h
    dsimp only at h
    split at h
    · exact mem_log_note (by decide) h
    · exact Or.inl h
  | fill color => exact mem_log_setColor (fun _ => rfl) h
  | stroke color => exact mem_log_setColor (fun _ => rfl) h
  | unknown kind => exact mem_log_note (by decide) h
  | alpha a =>
    -- a value that is no opacity is passed over without a line
    rw [step] at h
    dsimp only at h
    split at h <;> exact Or.inl h
  | strokeWidth w =>
    rw [step] at h
    dsimp only at h
    split at h <;> exact Or.inl h
  | polygon xs ys outlined => exact Or.inl (hdraw _ _ ▸ h)
  | polyline xs ys => exact Or.inl (hdraw _ _ ▸ h)
  | spline curve => exact Or.inl (hdraw _ _ ▸ h)
  | _ => exact Or.inl h

theorem mem_log_run (setting : PassSetting α) (ops : List (Op α)) (p : Pass α ι) :
    ∀ line ∈ (p.run setting ops).1.log, line ∈ p.log ∨ line ∈ lines := by
  apply runFrom_induction (motive := fun q => ∀ line ∈ q.log, line ∈ p.log ∨ line ∈ lines)
  · intro index op q hq line hline
    rcases mem_log_step setting index op q hline with hold | hnew
    · exact hq line hold
    · exact Or.inr hnew
  · intro line hline
    exact Or.inl hline

end Pass

namespace Renderer

/-- A pass adds to the log what its overlay has to say and nothing else. -/
theorem mem_log_render [Scalar α] {r : Renderer α ι} (htells : r.canvas.reportsTransform = true)
    (size : SurfaceSize α) {line : LogLine} (h : line ∈ (r.render size).1.log) :
    line ∈ r.log ∨ line ∈ Pass.lines := by
  rw [render_eq htells] at h
  rcases List.mem_append.1 h with hold | hnew
  · exact Or.inl hold
  · rcases Pass.mem_log_run _ _ _ line hnew with hstart | hline
    · exact absurd hstart List.not_mem_nil
    · exact Or.inr hline

/-! ## The log has no say

Renderers that differ in their logs alone stay like that, so a log can be taken away and put back around any
call. -/

/-- A renderer with nothing in its log. -/
def unlogged (r : Renderer α ι) : Renderer α ι := { r with log := [] }

/-- A renderer with lines in its log before those that are there. -/
def prelogged (lines : List LogLine) (r : Renderer α ι) : Renderer α ι :=
  { r with log := lines ++ r.log }

/-- A renderer with all but these lines in its log. -/
def withoutLines (lines : List LogLine) (r : Renderer α ι) : Renderer α ι :=
  { r with log := r.log.filter (· ∉ lines) }

theorem eq_prelogged (r : Renderer α ι) : r = r.unlogged.prelogged r.log := by
  rw [prelogged, unlogged, List.append_nil]

theorem with_log_append (lines old new : List LogLine) (r : Renderer α ι) :
    { r with log := lines ++ old ++ new } = { r with log := old ++ new }.prelogged lines := by
  rw [List.append_assoc]
  rfl

theorem withoutLines_prelogged (lines old : List LogLine) (r : Renderer α ι) :
    (r.prelogged old).withoutLines lines =
      (r.withoutLines lines).prelogged (old.filter (· ∉ lines)) := by
  rw [withoutLines, prelogged, List.filter_append]
  rfl

theorem unlogged_of_withoutLines {lines : List LogLine} {r q : Renderer α ι}
    (h : r.withoutLines lines = q.withoutLines lines) : r.unlogged = q.unlogged := by
  have hsame : ∀ s : Renderer α ι, s.unlogged = (s.withoutLines lines).unlogged := fun _ => rfl
  rw [hsame, h, ← hsame]

theorem eq_with_log {r q : Renderer α ι} (h : r.unlogged = q.unlogged) :
    q = { r with log := q.log } := by
  have hlog : q = { q.unlogged with log := q.log } := rfl
  rw [hlog, ← h]
  rfl

theorem keeps_of_unlogged {r q : Renderer α ι} (h : r.unlogged = q.unlogged) :
    r.canvas = q.canvas ∧ r.images = q.images := by
  rw [eq_with_log h]
  exact ⟨rfl, rfl⟩

variable [Scalar α]

theorem render_prelogged {r : Renderer α ι} (htells : r.canvas.reportsTransform = true)
    (lines : List LogLine) (size : SurfaceSize α) :
    ((r.prelogged lines).render size).1 = (r.render size).1.prelogged lines := by
  rw [render_eq (r := r.prelogged lines) htells, render_eq htells]
  exact with_log_append lines r.log (r.overlayEnd size).1.log (r.close size (r.overlayEnd size).1)

/-- What a call makes of a renderer, and what it adds to the log, has nothing to do with what is in the
log before it. -/
theorem call_prelogged {r : Renderer α ι} (htells : r.canvas.reportsTransform = true)
    (lines : List LogLine) (d : RendererCall α ι) :
    (r.prelogged lines).call d = (r.call d).prelogged lines := by
  cases d with
  | render size => exact render_prelogged htells lines size
  | imageLoaded url image =>
    have htold : (r.prelogged lines).told url image = (r.told url image).prelogged lines :=
      with_log_append lines r.log (r.images.completionLog url) (r.told url image)
    rw [call, call, imageLoaded_eq, imageLoaded_eq, htold]
    -- whether a pass is repeated is told by the images alone
    rw [show (r.prelogged lines).images = r.images from rfl]
    rcases (r.images.complete url image).1 with _ | size
    · rfl
    · exact render_prelogged (r := r.told url image) htells lines size
  | imageFailed url => exact with_log_append lines r.log (r.images.failureLog url) (r.imageFailed url)
  | _ => rfl

theorem calls_prelogged {r : Renderer α ι} (htells : r.canvas.reportsTransform = true)
    (lines : List LogLine) (cs : List (RendererCall α ι)) :
    (r.prelogged lines).calls cs = (r.calls cs).prelogged lines := by
  induction cs using List.reverseRecOn with
  | nil => rfl
  | append_singleton cs d ih =>
    rw [calls_concat, calls_concat, ih]
    apply call_prelogged
    rw [(options_calls r cs).2, htells]

/-- Renderers that differ in these lines differ in them after any calls. -/
theorem withoutLines_calls {lines : List LogLine} {r q : Renderer α ι}
    (htells : r.canvas.reportsTransform = true)
    (h : r.withoutLines lines = q.withoutLines lines) (cs : List (RendererCall α ι)) :
    (r.calls cs).withoutLines lines = (q.calls cs).withoutLines lines := by
  have hunlogged := unlogged_of_withoutLines h
  have hlog : r.log.filter (· ∉ lines) = q.log.filter (· ∉ lines) :=
    congrArg (fun s : Renderer α ι => s.log) h
  have htellsBare : r.unlogged.canvas.reportsTransform = true := htells
  rw [r.eq_prelogged, q.eq_prelogged, ← hunlogged, calls_prelogged htellsBare,
    calls_prelogged htellsBare, withoutLines_prelogged, withoutLines_prelogged, hlog]

/-- Renderers that differ in their logs differ in nothing else after any calls. -/
theorem unlogged_calls {r q : Renderer α ι} (htells : r.canvas.reportsTransform = true)
    (h : r.unlogged = q.unlogged) (cs : List (RendererCall α ι)) :
    (r.calls cs).unlogged = (q.calls cs).unlogged := by
  have htellsBare : r.unlogged.canvas.reportsTransform = true := htells
  rw [r.eq_prelogged, q.eq_prelogged, ← h, calls_prelogged htellsBare, calls_prelogged htellsBare]
  rfl

end Renderer

end FieldDiagram
