import FieldDiagram.Canvas.Basic
/-!
# Saving and restoring

What is saved is a stack that only three kinds of calls touch. Where the saves and restores among some
calls are nested properly, the calls leave that stack as it was, so that a save before them and a
restore behind them bring map and paint back, whatever the calls have set: `calls_bracket`.
-/

namespace FieldDiagram

variable {α ι : Type}

namespace CanvasCall

/-- Whether a call leaves alone what is saved. -/
def isPlain : CanvasCall α ι → Bool
  | reset _ _ => false
  | save => false
  | restore => false
  | _ => true

/-- Calls whose saves and restores are nested properly. -/
inductive Balanced : List (CanvasCall α ι) → Prop where
  | nil : Balanced []
  | plain {d : CanvasCall α ι} {ds : List (CanvasCall α ι)} (hd : d.isPlain = true)
      (hds : Balanced ds) : Balanced (d :: ds)
  | bracket {inner ds : List (CanvasCall α ι)} (hinner : Balanced inner) (hds : Balanced ds) :
      Balanced (save :: inner ++ restore :: ds)

theorem Balanced.of_plain {ds : List (CanvasCall α ι)} (h : ∀ d ∈ ds, d.isPlain = true) :
    Balanced ds := by
  induction ds with
  | nil => exact .nil
  | cons d ds ih =>
    apply Balanced.plain
    · exact h d (List.mem_cons_self ..)
    · exact ih fun e he => h e (List.mem_cons_of_mem _ he)

/-! ### Counting brackets

Whether calls are nested properly can be computed: count the brackets that are open. -/

/-- How many brackets are open behind calls, with `depth` of them open before. There is no answer if a
restore is without its save or if the canvas is wiped. -/
def openBehind? (depth : Nat) : List (CanvasCall α ι) → Option Nat
  | [] => some depth
  | save :: ds => openBehind? (depth + 1) ds
  | restore :: ds => if depth = 0 then none else openBehind? (depth - 1) ds
  | d :: ds => if d.isPlain then openBehind? depth ds else none

theorem openBehind?_of_plain {d : CanvasCall α ι} (hd : d.isPlain = true) (depth : Nat)
    (ds : List (CanvasCall α ι)) : openBehind? depth (d :: ds) = openBehind? depth ds := by
  cases d with
  | save => exact absurd hd Bool.false_ne_true
  | restore => exact absurd hd Bool.false_ne_true
  | _ => exact if_pos hd

theorem openBehind?_append (depth : Nat) (ds es : List (CanvasCall α ι)) :
    openBehind? depth (ds ++ es) = (openBehind? depth ds).bind fun n => openBehind? n es := by
  induction ds generalizing depth with
  | nil => rfl
  | cons d ds ih =>
    rw [List.cons_append]
    by_cases hplain : d.isPlain = true
    · rw [openBehind?_of_plain hplain, openBehind?_of_plain hplain, ih]
    · cases d with
      | save => exact ih (depth + 1)
      | restore =>
        rw [openBehind?, openBehind?]
        by_cases hnone : depth = 0
        · rw [if_pos hnone, if_pos hnone, Option.bind_none]
        · rw [if_neg hnone, if_neg hnone, ih]
      | reset width height => rfl
      | _ => exact absurd rfl hplain

/-- Calls that close this many brackets which were open before them: between the restores that do it
everything is nested properly. -/
inductive Closes : Nat → List (CanvasCall α ι) → Prop where
  | last {ds : List (CanvasCall α ι)} (hds : Balanced ds) : Closes 0 ds
  | next {n : Nat} {inner ds : List (CanvasCall α ι)} (hinner : Balanced inner) (hds : Closes n ds) :
      Closes (n + 1) (inner ++ restore :: ds)

/-- A bracket in front belongs to what comes before the first restore that is not its own. -/
theorem Closes.bracket {n : Nat} {inner ds : List (CanvasCall α ι)} (hinner : Balanced inner)
    (h : Closes n ds) : Closes n (save :: inner ++ restore :: ds) := by
  cases h with
  | last hds => exact .last (.bracket hinner hds)
  | @next n first rest hfirst hrest =>
    have hjoined := Closes.next (.bracket hinner hfirst) hrest
    rw [List.append_assoc, List.cons_append] at hjoined
    exact hjoined

theorem Closes.plain {n : Nat} {d : CanvasCall α ι} {ds : List (CanvasCall α ι)}
    (hd : d.isPlain = true) (h : Closes n ds) : Closes n (d :: ds) := by
  cases h with
  | last hds => exact .last (.plain hd hds)
  | next hfirst hrest => exact .next (.plain hd hfirst) hrest

theorem closes_of_openBehind? {n : Nat} {ds : List (CanvasCall α ι)}
    (h : openBehind? n ds = some 0) : Closes n ds := by
  induction ds generalizing n with
  | nil =>
    obtain rfl := Option.some.inj h
    exact .last .nil
  | cons d ds ih =>
    by_cases hplain : d.isPlain = true
    · rw [openBehind?_of_plain hplain] at h
      exact (ih h).plain hplain
    · cases d with
      | save =>
        -- the calls close the new bracket first and then the `n` from before
        rcases ih (n := n + 1) h with _ | ⟨hinner, hrest⟩
        exact hrest.bracket hinner
      | restore =>
        rw [openBehind?] at h
        by_cases hnone : n = 0
        · rw [if_pos hnone] at h
          exact absurd h (Option.some_ne_none 0).symm
        · rw [if_neg hnone] at h
          have hfirst := Closes.next .nil (ih h)
          rwa [Nat.sub_add_cancel (Nat.pos_of_ne_zero hnone)] at hfirst
      | reset width height => exact absurd h (Option.some_ne_none 0).symm
      | _ => exact absurd rfl hplain

theorem Balanced.openBehind?_eq {ds : List (CanvasCall α ι)} (h : Balanced ds) (n : Nat) :
    openBehind? n ds = some n := by
  induction h generalizing n with
  | nil => rfl
  | plain hd hds ih => rw [openBehind?_of_plain hd, ih]
  | bracket hinner hds ihInner ih =>
    rw [List.cons_append, openBehind?, openBehind?_append, ihInner, Option.bind_some, openBehind?,
      if_neg (Nat.succ_ne_zero n), Nat.add_sub_cancel, ih]

/-- **Nesting is counting**: calls are nested properly exactly if none of them wipes the canvas, no
restore among them is without its save, and in the end no bracket is open. -/
theorem balanced_iff {ds : List (CanvasCall α ι)} : Balanced ds ↔ openBehind? 0 ds = some 0 := by
  constructor
  · exact fun h => h.openBehind?_eq 0
  · intro h
    obtain ⟨hds⟩ := closes_of_openBehind? h
    exact hds

instance (ds : List (CanvasCall α ι)) : Decidable (Balanced ds) :=
  decidable_of_iff (openBehind? 0 ds = some 0) balanced_iff.symm

end CanvasCall

variable [Scalar α]

namespace Canvas

theorem saved_call_of_plain {d : CanvasCall α ι} (hd : d.isPlain = true) (c : Canvas α ι) :
    (c.call d).saved = c.saved := by
  cases d with
  | setAlpha alpha =>
    rw [call]
    split <;> rfl
  | setLineWidth width =>
    rw [call]
    split <;> rfl
  | reset width height => exact absurd hd (by simp [CanvasCall.isPlain])
  | save => exact absurd hd (by simp [CanvasCall.isPlain])
  | restore => exact absurd hd (by simp [CanvasCall.isPlain])
  | _ => rfl

theorem call_restore {c : Canvas α ι} {paint : Paint α} {saved : List (Paint α)}
    (h : c.saved = paint :: saved) : c.call .restore = { c with paint, saved } := by
  rw [call, h]

/-- Calls that are nested properly leave alone what was saved before them. -/
theorem saved_calls_of_balanced {ds : List (CanvasCall α ι)} (h : CanvasCall.Balanced ds)
    (c : Canvas α ι) : (c.calls ds).saved = c.saved := by
  induction h generalizing c with
  | nil => rfl
  | plain hd hds ih => rw [calls_cons, ih, saved_call_of_plain hd]
  | @bracket inner ds hinner hds ihInner ih =>
    -- the restore finds what the save has put there, as the calls in between left it
    have hsaved : ((c.call .save).calls inner).saved = c.paint :: c.saved := by
      rw [ihInner]
      rfl
    rw [calls_append, calls_cons, calls_cons, ih, call_restore hsaved]

/-- A bracket around calls that are nested properly. -/
theorem calls_bracket {ds : List (CanvasCall α ι)} (h : CanvasCall.Balanced ds) (c : Canvas α ι) :
    (c.calls (.save :: ds ++ [.restore])).paint = c.paint ∧
      (c.calls (.save :: ds ++ [.restore])).saved = c.saved := by
  have hsaved : ((c.call .save).calls ds).saved = c.paint :: c.saved := by
    rw [saved_calls_of_balanced h]
    rfl
  rw [calls_append, calls_cons, calls_cons, calls_nil, call_restore hsaved]
  exact ⟨rfl, rfl⟩

end Canvas

end FieldDiagram
