import FieldDiagram.Proofs.Images.History
import FieldDiagram.Proofs.Renderer.Deferral
import FieldDiagram.Proofs.Renderer.Outcome
/-!
# What passes leave behind

A history tells which operations were executed: those of every pass that was asked for or repeated, up
to the first unknown one of its overlay. Grid, alternate art and requests after any history are as these
operations say, as if all passes had been one long overlay. Main statement: `persists_after_history`.
-/

namespace FieldDiagram

variable {α ι : Type}

/-- The overlay of the passes from now on. -/
def RendererCall.newOverlay? : RendererCall α ι → Option (Overlay α)
  | setOverlay overlay => some overlay
  | _ => none

namespace Renderer

/-! ## Passes of a history

A pass is run by two kinds of calls. In either case it can be told from the renderer before the call which
size it has and what it finds. -/

/-- The size of the pass that a call runs: one that it asks for, or one that waits for the image that
it brings. -/
def passOf? (r : Renderer α ι) : RendererCall α ι → Option (SurfaceSize α)
  | .render size => some size
  | .imageLoaded url image => (r.images.complete url image).1
  | _ => none

/-- The renderer as the pass of a call finds it: an image that has come is in its slots. -/
def met (r : Renderer α ι) : RendererCall α ι → Renderer α ι
  | .imageLoaded url image => r.told url image
  | _ => r

/-- The operations that a call executes. -/
def executedBy (r : Renderer α ι) (d : RendererCall α ι) : List (Op α) :=
  if (r.passOf? d).isSome then r.overlay.executed else []

/-- The requests that a call hands out. -/
def drainedBy (r : Renderer α ι) : RendererCall α ι → List String
  | .drain => r.images.drain.1
  | _ => []

/-- An image that comes is put into the slots and changes nothing else of what a pass leaves behind. -/
theorem images_told (url : String) (image : ι) (r : Renderer α ι) :
    (r.told url image).images.alt.map (·.url) = r.images.alt.map (·.url) ∧
      (r.told url image).images.placement = r.images.placement ∧
      (r.told url image).images.requests = r.images.requests := by
  obtain ⟨-, halt, hplacement⟩ := r.images.complete_slots url image
  refine ⟨?_, hplacement, ?_⟩
  · rw [told, halt, Option.map_map]
    exact congrArg (fun f => r.images.alt.map f)
      (funext fun slot => ImageSlot.url_answer url (.loaded image) slot)
  · rw [told, ImageCache.complete]
    split <;> rfl

theorem images_met (r : Renderer α ι) (d : RendererCall α ι) :
    (r.met d).images.alt.map (·.url) = r.images.alt.map (·.url) ∧
      (r.met d).images.placement = r.images.placement ∧
      (r.met d).images.requests = r.images.requests := by
  cases d with
  | imageLoaded url image => exact images_told url image r
  | _ => exact ⟨rfl, rfl, rfl⟩

/-- An image that comes changes neither options nor overlay nor grid, nor the canvas. -/
theorem met_keeps (r : Renderer α ι) (d : RendererCall α ι) :
    (r.met d).canvas = r.canvas ∧ (r.met d).options = r.options ∧
      (r.met d).overlay = r.overlay ∧ (r.met d).grid = r.grid := by
  cases d <;> exact ⟨rfl, rfl, rfl, rfl⟩

/-! ## What lasts

`Leaves` compares two renderers by what has been executed and handed out between them; it is transitive,
which makes the induction over a history. -/

/-- What is left behind: the grid, the alternate art and its place, and the requests that have been
handed out or still wait. -/
structure Leaves (r q : Renderer α ι) (done : List (Op α)) (out : List String) : Prop where
  grid : q.grid = (latest? Op.newGrid? done).getD r.grid
  url : q.images.alt.map (·.url) =
    ((latest? Op.newArt? done).map Prod.fst).or (r.images.alt.map (·.url))
  placement : q.images.placement = ((latest? Op.newArt? done).map Prod.snd).getD r.images.placement
  requests : out ++ q.images.requests = r.images.requests ++ done.filterMap Op.source?

/-- What two stretches of a history leave behind one after the other. -/
theorem Leaves.trans {r q s : Renderer α ι} {done more : List (Op α)} {out later : List String}
    (h : r.Leaves q done out) (k : q.Leaves s more later) :
    r.Leaves s (done ++ more) (out ++ later) := by
  refine ⟨?_, ?_, ?_, ?_⟩
  · rw [k.grid, h.grid, getD_latest?_append]
  · rw [k.url, h.url, latest?_append]
    cases latest? Op.newArt? more <;> rfl
  · rw [k.placement, h.placement, latest?_append]
    cases latest? Op.newArt? more <;> rfl
  · rw [List.append_assoc, k.requests, ← List.append_assoc, h.requests, List.filterMap_append,
      List.append_assoc]

variable [Scalar α]

open Scalar (one)

/-- Passes are run by the calls that ask for them, and by the field's art while one waits for it. -/
theorem passOf?_calls_iff {canvas : Canvas α ι} (htells : canvas.reportsTransform = true)
    (options : Options α) (h : List (RendererCall α ι)) (d : RendererCall α ι)
    (size : SurfaceSize α) :
    ((new canvas options).calls h).passOf? d = some size ↔
      d = .render size ∨
        ∃ image, d = .imageLoaded options.fieldImage image ∧ Postponed options.fieldImage h size := by
  cases d with
  | render size' => simp [passOf?]
  | imageLoaded url image =>
    have hcomplete : ∀ c : ImageCache α ι, (c.complete url image).1 = some size ↔
        slotWants c.base url = true ∧ c.deferred = some size := by
      intro c
      rw [ImageCache.complete]
      by_cases hwants : slotWants c.base url = true
      · rw [if_pos hwants]
        exact ⟨fun hsize => ⟨hwants, hsize⟩, fun hsize => hsize.2⟩
      · rw [if_neg hwants]
        exact ⟨fun hsize => absurd hsize (by simp), fun hsize => absurd hsize.1 hwants⟩
    rw [passOf?, hcomplete, slotWants_calls, deferred_calls_iff]
    simp [htells]
  | _ => simp [passOf?]

/-- The overlay of a pass is the last that was set before it. -/
theorem overlay_calls (r : Renderer α ι) (h : List (RendererCall α ι)) :
    (r.calls h).overlay = (latest? RendererCall.newOverlay? h).getD r.overlay := by
  induction h using List.reverseRecOn with
  | nil => rfl
  | append_singleton h d ih =>
    rw [calls_concat, getD_latest?_concat, ← ih]
    cases d with
    | render size => exact (options_render size _).2.1
    | imageLoaded url image =>
      -- with or without a pass, the overlay stays
      rw [call, imageLoaded_eq]
      rcases ((r.calls h).images.complete url image).1 with _ | size
      · rfl
      · exact (options_render size _).2.1
    | _ => rfl

/-- What the calls of a history give, one after the other. -/
def along {β : Type} (gives : Renderer α ι → RendererCall α ι → List β) (r : Renderer α ι) :
    List (RendererCall α ι) → List β
  | [] => []
  | d :: h => gives r d ++ along gives (r.call d) h

theorem along_concat {β : Type} (gives : Renderer α ι → RendererCall α ι → List β)
    (r : Renderer α ι) (h : List (RendererCall α ι)) (d : RendererCall α ι) :
    r.along gives (h ++ [d]) = r.along gives h ++ gives (r.calls h) d := by
  induction h generalizing r with
  | nil => exact List.append_nil _
  | cons e h ih =>
    rw [List.cons_append, along, ih, along, List.append_assoc]
    rfl

/-- The operations that the passes of a history execute. -/
def executed (r : Renderer α ι) (h : List (RendererCall α ι)) : List (Op α) := r.along executedBy h

/-- The requests that a history hands out. -/
def drained (r : Renderer α ι) (h : List (RendererCall α ι)) : List String := r.along drainedBy h

/-! ## What one call leaves

One case for each kind of call. Only those that run a pass execute anything, and only one hands out
requests. -/

theorem call_of_passOf? {r : Renderer α ι} {d : RendererCall α ι} {size : SurfaceSize α}
    (h : r.passOf? d = some size) : r.call d = ((r.met d).render size).1 := by
  cases d with
  | render size' =>
    obtain rfl := Option.some.inj h
    rfl
  | imageLoaded url image =>
    rw [call, imageLoaded_eq, show (r.images.complete url image).1 = some size from h]
    rfl
  | _ => exact absurd h (by simp [passOf?])

/-- Every call leaves behind what the operations say that it executes. -/
theorem leaves_call {r : Renderer α ι} (htells : r.canvas.reportsTransform = true)
    (d : RendererCall α ι) : r.Leaves (r.call d) (r.executedBy d) (r.drainedBy d) := by
  unfold executedBy
  rcases hpass : r.passOf? d with _ | size
  · -- no pass: an image may come or fail, the requests may be handed out, and no operation is executed
    rw [Option.isSome_none, if_neg Bool.false_ne_true]
    cases d with
    | render size => exact absurd hpass (by simp [passOf?])
    | imageLoaded url image =>
      obtain ⟨hurl, hplacement, hrequests⟩ := images_told url image r
      have hcall : r.call (.imageLoaded url image) = r.told url image := by
        rw [call, imageLoaded_eq, show (r.images.complete url image).1 = none from hpass]
      rw [hcall]
      exact ⟨rfl, hurl, hplacement, hrequests.trans (List.append_nil _).symm⟩
    | imageFailed url =>
      refine ⟨rfl, ?_, rfl, (List.append_nil _).symm⟩
      exact (Option.map_map ..).trans (congrArg (fun f => r.images.alt.map f)
        (funext fun slot => ImageSlot.url_answer url .failed slot))
    | drain => exact ⟨rfl, rfl, rfl, rfl⟩
    | _ => exact ⟨rfl, rfl, rfl, (List.append_nil _).symm⟩
  · -- a pass, whichever call runs it, leaves what it leaves on the renderer that it finds
    obtain ⟨hcanvas, -, hoverlay, hgrid⟩ := r.met_keeps d
    obtain ⟨hurl, hplacement, hrequests⟩ := r.images_met d
    have hmet : (r.met d).canvas.reportsTransform = true := by rw [hcanvas, htells]
    obtain ⟨halt, hplace, hasked⟩ := art_render hmet size
    have hnone : r.drainedBy d = [] := by
      cases d with
      | drain => exact absurd hpass (by simp [passOf?])
      | _ => rfl
    rw [Option.isSome_some, if_pos rfl, call_of_passOf? hpass, hnone]
    rw [hoverlay] at halt hplace hasked
    refine ⟨?_, ?_, ?_, ?_⟩
    · rw [grid_render hmet, hoverlay, hgrid]
    · rw [halt, ← hurl]
      cases latest? Op.newArt? r.overlay.executed <;> rfl
    · rw [hplace, hplacement]
    · rw [List.nil_append, hasked, hrequests]

/-- A whole history leaves behind what all operations say that were executed in it. -/
theorem leaves_calls {r : Renderer α ι} (htells : r.canvas.reportsTransform = true)
    (h : List (RendererCall α ι)) : r.Leaves (r.calls h) (r.executed h) (r.drained h) := by
  induction h using List.reverseRecOn with
  | nil => exact ⟨rfl, rfl, rfl, (List.append_nil _).symm⟩
  | append_singleton h d ih =>
    have hcalls : (r.calls h).canvas.reportsTransform = true := by rw [(options_calls r h).2, htells]
    rw [calls_concat, executed, drained, along_concat, along_concat]
    exact ih.trans (leaves_call hcalls d)

/-- **What lasts beyond a pass.** Take any calls on a new renderer whose canvas tells its map. Its passes
are those that calls ask for and those that the field's art repeats, each over the last overlay that was
set; take the operations that all of them have executed. The grid is the one that was asked for last,
and never below two lines; address and place of the alternate art are those of the art that was asked
for last; and the requests that were handed out, together with those that wait, are the field's art and
then the art of every operation that asked for some, in order and once for each time. Whichever call
runs the next pass, its grid lines are those of the grid before it. -/
theorem persists_after_history (canvas : Canvas α ι) (options : Options α)
    (h : List (RendererCall α ι)) (htells : canvas.reportsTransform = true) :
    let start := new canvas options
    let r := start.calls h
    let done := start.executed h
    (∀ d size, r.passOf? d = some size ↔ d = .render size ∨
      ∃ image, d = .imageLoaded options.fieldImage image ∧ Postponed options.fieldImage h size) ∧
    r.overlay = (latest? RendererCall.newOverlay? h).getD ⟨[]⟩ ∧
    r.grid = (latest? Op.newGrid? done).getD .standard ∧
    (2 ≤ r.grid.horizontal ∧ 2 ≤ r.grid.vertical) ∧
    r.images.alt.map (·.url) = (latest? Op.newArt? done).map Prod.fst ∧
    r.images.placement = ((latest? Op.newArt? done).map Prod.snd).getD .empty ∧
    start.drained h ++ r.images.requests = options.fieldImage :: done.filterMap Op.source? ∧
    ∀ d size, r.passOf? d = some size →
      (r.call d).canvas.commands.toList =
        ((r.met d).backdrop size).commands.toList ++ r.gridStrokes size ++ r.overlayDrawing size ∧
      (r.gridStrokes size).length = r.grid.horizontal + r.grid.vertical := by
  intro start r done
  have hleaves : start.Leaves r done (start.drained h) := leaves_calls htells h
  have hgrid : r.grid = (latest? Op.newGrid? done).getD .standard := hleaves.grid
  refine ⟨passOf?_calls_iff htells options h, overlay_calls start h, hgrid, ?_, ?_,
    hleaves.placement, hleaves.requests, ?_⟩
  · rw [hgrid]
    rcases hlast : latest? Op.newGrid? done with _ | grid
    · decide
    · obtain ⟨op, -, hop⟩ := exists_of_latest?_eq_some hlast
      exact Op.fewest_le_of_newGrid? hop
  · rw [hleaves.url]
    exact Option.or_none
  · intro d size hpass
    obtain ⟨hcanvas, hoptions, hoverlay, hheld⟩ := r.met_keeps d
    have hmet : (r.met d).canvas.reportsTransform = true := by
      rw [hcanvas, (options_calls start h).2]
      exact htells
    refine ⟨?_, length_gridStrokes size r⟩
    rw [call_of_passOf? hpass, commands_render hmet]
    simp only [gridStrokes, gridPaint, overlayDrawing, baseFor, hoptions, hoverlay, hheld]

/-- A pass that is aborted and then repeated by the field's art: its art is asked for twice, and what
stands behind the unknown operation has no say. -/
theorem persists_after_replay :
    let size : SurfaceSize Float := ⟨Scalar.ofNat 800, Scalar.ofNat 600, one⟩
    let overlay : Overlay Float := ⟨[.grid ⟨1, by decide, by decide⟩ ⟨5, by decide, by decide⟩,
      .image "alt.png" .empty, .unknown "hexagon", .grid ⟨9, by decide, by decide⟩
      ⟨9, by decide, by decide⟩]⟩
    let start : Renderer Float String := new (.empty true) .standard
    let h : List (RendererCall Float String) := [.setOverlay overlay, .render size, .drain,
      .imageLoaded "field.png" "art"]
    let r := start.calls h
    start.canvas.reportsTransform = true ∧ r.grid = ⟨2, 5⟩ ∧
      r.images.alt.map (·.url) = some "alt.png" ∧
      start.drained h ++ r.images.requests = ["field.png", "alt.png", "alt.png"] ∧
      r.passOf? (.render size) = some size ∧
      ((r.call (.render size)).canvas.commands.toList =
        (r.backdrop size).commands.toList ++ r.gridStrokes size ++ r.overlayDrawing size) := by
  intro size overlay start h r
  obtain ⟨-, -, hgrid, -, hurl, -, hrequests, hlines⟩ :=
    persists_after_history (.empty true) Options.standard h rfl
  have hwaits : (start.calls [.setOverlay overlay, .render size, .drain]).passOf?
      (.imageLoaded "field.png" "art") = some size := by
    apply (passOf?_calls_iff rfl _ _ _ _).2
    -- the pass waits since it was asked for, and handing out the requests does not end that
    refine Or.inr ⟨"art", rfl, [.setOverlay overlay], .render size, [.drain], rfl, rfl, ?_⟩
    intro mid d rest hsplit
    rcases List.append_eq_singleton_iff.1 hsplit.symm with ⟨rfl, hd⟩ | ⟨-, hd⟩
    · obtain rfl := (List.cons.inj hd).1
      refine ⟨rfl, ?_⟩
      rintro ⟨image, hbrings⟩
      cases hbrings
    · exact absurd hd (List.cons_ne_nil _ _)
  have hdone : start.executed h = overlay.executed ++ overlay.executed := by
    have hsplit := along_concat executedBy start [.setOverlay overlay, .render size, .drain]
      (.imageLoaded "field.png" "art")
    rw [executedBy, hwaits, overlay_calls] at hsplit
    exact hsplit
  rw [show (new (.empty true) Options.standard : Renderer Float String) = start from rfl, hdone]
    at hgrid hurl hrequests
  exact ⟨rfl, hgrid, hurl, hrequests, rfl, (hlines (.render size) size rfl).1⟩

end Renderer

end FieldDiagram
