import FieldDiagram.Proofs.History
import FieldDiagram.Proofs.Renderer.Stages
/-!
# Renderers under any order of calls

A history of a renderer is the list of the calls that its host made on it since it was new: passes,
overlays, answers to requests for images, and whatever the host does to the canvas or the requests in
between. Options and the canvas's telling of its map never change, and the slot of the field's art is
as the last answer for that art says.
-/

namespace FieldDiagram

/-- Everything a host can do to a renderer. -/
inductive RendererCall (α ι : Type) where
  | setOverlay (overlay : Overlay α)
  | render (size : SurfaceSize α)
  | imageLoaded (url : String) (image : ι)
  | imageFailed (url : String)
  /-- Hands out what has been asked for. -/
  | drain
  /-- A call that the host makes on the canvas by itself. -/
  | onCanvas (call : CanvasCall α ι)
  /-- Hands out the commands. -/
  | takeCommands

/-- The answer to a request for an address. -/
def RendererCall.answer? {α ι : Type} (url : String) : RendererCall α ι → Option (LoadState ι)
  | imageLoaded u image => if url = u then some (.loaded image) else none
  | imageFailed u => if url = u then some .failed else none
  | _ => none

/-- How far the loading of an address has got after some calls: as its last answer says. -/
def imageOutcome {α ι : Type} (url : String) (h : List (RendererCall α ι)) : LoadState ι :=
  (latest? (RendererCall.answer? url) h).getD .pending

namespace Renderer

variable {α ι : Type}

/-! ## Images that have come

An image that comes is put into the slots first, and a pass may follow that finds it there. The slots are
told apart from the pass here. -/

/-- A renderer that has put an image that has come into its slots. -/
def told (url : String) (image : ι) (r : Renderer α ι) : Renderer α ι :=
  { r with
    images := (r.images.complete url image).2
    log := r.log ++ r.images.completionLog url }

theorem base_told (url : String) (image : ι) (r : Renderer α ι) :
    (r.told url image).images.base = r.images.base.map (.answer url (.loaded image)) := by
  rw [told, ImageCache.complete]
  split <;> rfl

theorem deferred_told (url : String) (image : ι) (r : Renderer α ι) :
    (r.told url image).images.deferred =
      if slotWants r.images.base url then none else r.images.deferred := by
  rw [told, ImageCache.complete]
  split <;> rfl

/-- Once the wanted art has come, it is there. -/
theorem baseImage?_told {url : String} {r : Renderer α ι} (h : slotWants r.images.base url = true)
    (image : ι) : (r.told url image).images.baseImage? = some image := by
  rw [ImageCache.baseImage?, base_told]
  rcases hbase : r.images.base with _ | slot
  · rw [hbase] at h
    exact absurd h (by simp [slotWants])
  · have hurl : slot.url = url := by simpa [hbase, slotWants] using h
    simp [ImageSlot.answer, hurl, LoadState.image?]

variable [Scalar α]

/-! ## Calls in order

A call that fails leaves a renderer as well, so a history goes on after it. -/

/-- Carries out one call. How a pass ends is `(r.render size).2` or `(r.imageLoaded url image).2`. -/
def call (r : Renderer α ι) : RendererCall α ι → Renderer α ι
  | .setOverlay overlay => r.setOverlay overlay
  | .render size => (r.render size).1
  | .imageLoaded url image => (r.imageLoaded url image).1
  | .imageFailed url => r.imageFailed url
  | .drain => { r with images := r.images.drain.2 }
  | .onCanvas d => { r with canvas := r.canvas.call d }
  | .takeCommands => { r with canvas := r.canvas.takeCommands.2 }

/-- Carries out calls in order. -/
def calls (r : Renderer α ι) (h : List (RendererCall α ι)) : Renderer α ι := h.foldl call r

theorem calls_concat (r : Renderer α ι) (h : List (RendererCall α ι)) (d : RendererCall α ι) :
    r.calls (h ++ [d]) = (r.calls h).call d := by
  rw [calls, List.foldl_append]
  rfl

/-! ## Passes that are repeated

A pass is put off while the field's art is on its way, and repeated when it comes. -/

theorem imageLoaded_eq (url : String) (image : ι) (r : Renderer α ι) :
    r.imageLoaded url image =
      match (r.images.complete url image).1 with
      | some size => (r.told url image).render size
      | none => (r.told url image, none) := rfl

/-- An image that has come is heard by the slot of the field's art, and the pass that it repeats defers
nothing: afterwards a pass is deferred only if the image was another one. -/
theorem images_imageLoaded (url : String) (image : ι) (r : Renderer α ι) :
    (r.imageLoaded url image).1.images.base = r.images.base.map (.answer url (.loaded image)) ∧
      (r.imageLoaded url image).1.images.deferred =
        if slotWants r.images.base url then none else r.images.deferred := by
  rw [← base_told, ← deferred_told, imageLoaded_eq]
  rcases hreplay : (r.images.complete url image).1 with _ | size
  · exact ⟨rfl, rfl⟩
  · -- a pass is repeated only for the art that was wanted, so it finds the art there
    have hwanted : slotWants r.images.base url = true := by
      by_contra hw
      rw [ImageCache.complete, if_neg hw] at hreplay
      exact absurd hreplay (by simp)
    obtain ⟨hbase, hdeferred⟩ := images_render size (r.told url image)
    refine ⟨hbase, hdeferred.trans ?_⟩
    rw [baseImage?_told hwanted, Option.isNone_some, Bool.and_false, if_neg Bool.false_ne_true]

/-! ## What no call changes

These two are what hypotheses about a renderer are made of; as no call changes them, they can be asked for
once, of the renderer that is new. -/

theorem options_call (r : Renderer α ι) (d : RendererCall α ι) :
    (r.call d).options = r.options ∧
      (r.call d).canvas.reportsTransform = r.canvas.reportsTransform := by
  have hrender : ∀ (size : SurfaceSize α) (q : Renderer α ι), (q.render size).1.options = q.options ∧
      (q.render size).1.canvas.reportsTransform = q.canvas.reportsTransform :=
    fun size q => ⟨(options_render size q).1, (options_render size q).2.2⟩
  cases d with
  | render size => exact hrender size r
  | imageLoaded url image =>
    rw [call, imageLoaded_eq]
    rcases (r.images.complete url image).1 with _ | size
    · exact ⟨rfl, rfl⟩
    · exact hrender size (r.told url image)
  | onCanvas d => exact ⟨rfl, Canvas.reportsTransform_call r.canvas d⟩
  | _ => exact ⟨rfl, rfl⟩

theorem options_calls (r : Renderer α ι) (h : List (RendererCall α ι)) :
    (r.calls h).options = r.options ∧
      (r.calls h).canvas.reportsTransform = r.canvas.reportsTransform := by
  induction h using List.reverseRecOn with
  | nil => exact ⟨rfl, rfl⟩
  | append_singleton h d ih =>
    rw [calls_concat, (options_call _ d).1, (options_call _ d).2]
    exact ih

/-! ## The field's art

Only an answer for the field's own address changes its slot; passes read it. -/

theorem base_call (r : Renderer α ι) (d : RendererCall α ι) :
    (r.call d).images.base =
      r.images.base.map fun slot => ⟨slot.url, (d.answer? slot.url).getD slot.state⟩ := by
  have hsame : r.images.base = r.images.base.map fun slot => ⟨slot.url, slot.state⟩ :=
    Option.map_id.symm ▸ rfl
  cases d with
  | render size => exact (images_render size r).1.trans hsame
  | imageLoaded url image =>
    rw [call, (images_imageLoaded url image r).1]
    congr
    funext slot
    rw [ImageSlot.answer, RendererCall.answer?]
    split <;> rfl
  | imageFailed url =>
    refine congrArg (fun f => r.images.base.map f) (funext fun slot => ?_)
    rw [ImageSlot.answer, RendererCall.answer?]
    split <;> rfl
  | _ => exact hsame

/-- After any calls the slot of the field's art wants that art, and its state is as the last answer
says. -/
theorem base_calls (canvas : Canvas α ι) (options : Options α) (h : List (RendererCall α ι)) :
    ((new canvas options).calls h).images.base =
      some ⟨options.fieldImage, imageOutcome options.fieldImage h⟩ := by
  induction h using List.reverseRecOn with
  | nil => rfl
  | append_singleton h d ih =>
    rw [calls_concat, base_call, ih, imageOutcome, imageOutcome, getD_latest?_concat]
    rfl

end Renderer

end FieldDiagram
