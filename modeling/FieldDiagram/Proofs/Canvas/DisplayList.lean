import FieldDiagram.Proofs.Canvas.Bracket
import FieldDiagram.Scalar.Machine
import Mathlib.Data.List.Basic
/-!
# The list of commands

Until it is wiped, a canvas only adds to its commands. A call that draws adds one, made of map, paint and
path as they are at that moment, and every other call adds none. A command holds a copy of all that went
into it, so nothing that is set or drawn later, and no restore, gets at it: what a restore brings back
is map and paint, and what it leaves is the path and the commands.

Main statement: `Canvas.restored_and_recorded`.
-/

namespace FieldDiagram

variable {α ι : Type}

namespace CanvasCall

/-- Whether a call wipes the canvas. -/
def wipes : CanvasCall α ι → Bool
  | reset _ _ => true
  | _ => false

/-- Whether a call draws. -/
def draws : CanvasCall α ι → Bool
  | fill => true
  | stroke => true
  | fillText _ _ _ => true
  | strokeText _ _ _ => true
  | drawImage _ _ _ _ _ => true
  | _ => false

end CanvasCall

variable [Scalar α]

namespace Canvas

/-! ## One call

Calls fall into three groups by what they do to the list of commands: one wipes it, those that draw add to
it, and the others leave it alone. -/

/-- A call that only sets something, or goes on with the path, leaves the commands alone. -/
theorem commands_call_of_not_draws {d : CanvasCall α ι} (hwipes : d.wipes = false)
    (hdraws : d.draws = false) (c : Canvas α ι) : (c.call d).commands = c.commands := by
  cases d with
  | reset width height => exact absurd hwipes Bool.true_eq_false.mp
  | setAlpha alpha =>
    rw [call]
    split <;> rfl
  | setLineWidth width =>
    rw [call]
    split <;> rfl
  | restore =>
    rw [call]
    split <;> rfl
  | fill => exact absurd hdraws Bool.true_eq_false.mp
  | stroke => exact absurd hdraws Bool.true_eq_false.mp
  | fillText content x y => exact absurd hdraws Bool.true_eq_false.mp
  | strokeText content x y => exact absurd hdraws Bool.true_eq_false.mp
  | drawImage image x y width height => exact absurd hdraws Bool.true_eq_false.mp
  | _ => rfl

/-- A call that draws adds one command. -/
theorem commands_call_of_draws {d : CanvasCall α ι} (hdraws : d.draws = true) (c : Canvas α ι) :
    ∃ e, (c.call d).commands.toList = c.commands.toList ++ [e] := by
  cases d with
  | fill => exact ⟨_, Array.toList_push⟩
  | stroke => exact ⟨_, Array.toList_push⟩
  | fillText content x y => exact ⟨_, Array.toList_push⟩
  | strokeText content x y => exact ⟨_, Array.toList_push⟩
  | drawImage image x y width height => exact ⟨_, Array.toList_push⟩
  | _ => exact absurd hdraws Bool.false_ne_true

/-! ## Any calls

The list only grows at its end, so what is on it is a part of what is on it later. That is why no later call
can change a command. -/

/-- Calls that do not wipe the canvas add one command for each of them that draws. -/
theorem commands_calls {ds : List (CanvasCall α ι)} (h : ∀ d ∈ ds, d.wipes = false)
    (c : Canvas α ι) :
    ∃ added, (c.calls ds).commands.toList = c.commands.toList ++ added ∧
      added.length = ds.countP CanvasCall.draws := by
  induction ds generalizing c with
  | nil => exact ⟨[], (List.append_nil _).symm, rfl⟩
  | cons d ds ih =>
    obtain ⟨added, hadded, hlength⟩ := ih (fun e he => h e (List.mem_cons_of_mem _ he)) (c.call d)
    rw [calls_cons, hadded]
    by_cases hdraws : d.draws = true
    · obtain ⟨e, he⟩ := commands_call_of_draws hdraws c
      refine ⟨e :: added, ?_, ?_⟩
      · rw [he, List.append_assoc, List.singleton_append]
      · rw [List.length_cons, hlength, List.countP_cons_of_pos hdraws]
    · refine ⟨added, ?_, ?_⟩
      · rw [commands_call_of_not_draws (h d (List.mem_cons_self ..)) (Bool.eq_false_iff.mpr hdraws)]
      · rw [hlength, List.countP_cons_of_neg hdraws]

/-- **What a bracket keeps and what it does not.** From every state, a save and a restore around calls
that are nested properly bring map, colours, width, cap, font and opacity back, and what was saved before
is saved still. A restore for which nothing was saved changes nothing. But the commands stay: behind any
calls, however nested, further calls that do not wipe the canvas leave those that are there as they are,
and add one for each call that draws. -/
theorem restored_and_recorded (c : Canvas α ι) :
    (∀ ds, CanvasCall.Balanced ds →
      (c.calls (.save :: ds ++ [.restore])).paint = c.paint ∧
        (c.calls (.save :: ds ++ [.restore])).saved = c.saved) ∧
    (c.saved = [] → c.call .restore = c) ∧
    ∀ before later, (∀ d ∈ later, d.wipes = false) →
      ∃ added, (c.calls (before ++ later)).commands.toList =
          (c.calls before).commands.toList ++ added ∧
        added.length = later.countP CanvasCall.draws := by
  refine ⟨?_, ?_, ?_⟩
  · intro ds hds
    exact calls_bracket hds c
  · intro hnone
    rw [call, hnone]
  · intro before later hlater
    rw [calls_append]
    exact commands_calls hlater (c.calls before)

/-- Two brackets inside each other and one behind them, with a path that is drawn twice and goes on in
between, on a canvas that has a save left; and a restore too many. -/
theorem restored_and_recorded_of_brackets :
    let one : Float := Scalar.one
    let c : Canvas Float String := (Canvas.empty true).calls [.save, .setFont "12px serif"]
    let fresh : Canvas Float String := .empty true
    let ds : List (CanvasCall Float String) := [.scale one (-one), .save, .moveTo one one, .stroke,
      .save, .setFont "20px serif", .restore, .setAlpha (one / Scalar.ofNat 2), .restore,
      .lineTo one (-one), .save, .rotate one, .stroke, .restore, .setFill .black]
    CanvasCall.Balanced ds ∧ (c.calls (.save :: ds ++ [.restore])).paint.font = "12px serif" ∧
      (c.calls (.save :: ds ++ [.restore])).saved.length = 1 ∧
      fresh.saved = [] ∧ fresh.call .restore = fresh ∧
      (∀ d ∈ ds ++ [.restore, .restore], d.wipes = false) ∧
      ∃ first second, (c.calls (ds ++ [.restore, .restore])).commands.toList = [first, second] := by
  intro one c fresh ds
  have hds : CanvasCall.Balanced ds := by decide
  have hwipes : ∀ d ∈ ds ++ [.restore, .restore], d.wipes = false := by
    simp [ds, CanvasCall.wipes]
  obtain ⟨hbracket, -, hcommands⟩ := restored_and_recorded c
  obtain ⟨-, hempty, -⟩ := restored_and_recorded fresh
  obtain ⟨hpaint, hsaved⟩ := hbracket ds hds
  obtain ⟨added, hadded, hlength⟩ := hcommands [] (ds ++ [.restore, .restore]) hwipes
  refine ⟨hds, ?_, ?_, rfl, hempty rfl, hwipes, ?_⟩
  · rw [hpaint]
    rfl
  · rw [hsaved]
    rfl
  · obtain ⟨first, second, rfl⟩ := List.length_eq_two.1 (hlength.trans (by decide))
    exact ⟨first, second, hadded⟩

end Canvas

end FieldDiagram
