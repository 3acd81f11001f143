import FieldDiagram.Proofs.Renderer.History
/-!
# Passes that wait for the field's art

A pass that is asked for while the field's art is missing runs without it and is repeated once the art
has come. Which pass waits is told by the calls alone: the last one that was asked for while the last
answer for the art, if there was any, had been no image, unless the art has come since. Main
statement: `deferral_after_history`.
-/

namespace FieldDiagram

variable {α ι : Type}

/-- The size of the pass that a call, made after others, asks for while the field's art is missing. -/
def RendererCall.postponed? (fieldImage : String) (before : List (RendererCall α ι)) :
    RendererCall α ι → Option (SurfaceSize α)
  | render size => if (imageOutcome fieldImage before).image?.isNone then some size else none
  | _ => none

/-- Whether a call brings the field's art. -/
def RendererCall.Brings (fieldImage : String) (_ : List (RendererCall α ι)) (d : RendererCall α ι) :
    Prop :=
  ∃ image, d = .imageLoaded fieldImage image

/-- A pass of this size waits for the field's art: it was the last to be asked for while the art was
missing, and the art has not come since. -/
def Postponed (fieldImage : String) : List (RendererCall α ι) → SurfaceSize α → Prop :=
  Outstanding (RendererCall.postponed? fieldImage) (RendererCall.Brings fieldImage)

/-- A pass waits only while the field's art is missing. -/
theorem image?_of_postponed {fieldImage : String} {h : List (RendererCall α ι)} {size : SurfaceSize α}
    (hwaits : Postponed fieldImage h size) : (imageOutcome fieldImage h).image? = none := by
  induction h using List.reverseRecOn with
  | nil => rfl
  | append_singleton h d ih =>
    rw [imageOutcome, getD_latest?_concat, ← imageOutcome]
    rcases outstanding_concat.1 hwaits with hasked | ⟨-, hother, hbefore⟩
    · -- asked for by this very call, which then found the art missing
      cases d with
      | render size' =>
        simp only [RendererCall.postponed?, Option.ite_none_right_eq_some] at hasked
        exact Option.isNone_iff_eq_none.1 hasked.1
      | _ => exact absurd hasked (by simp [RendererCall.postponed?])
    · -- asked for before, and an image that comes now is not the art
      cases d with
      | imageLoaded url image =>
        have hurl : url ≠ fieldImage := fun heq => hother ⟨image, by rw [heq]⟩
        rw [RendererCall.answer?, if_neg hurl.symm]
        exact ih hbefore
      | imageFailed url =>
        rw [RendererCall.answer?]
        split
        · rfl
        · exact ih hbefore
      | _ => exact ih hbefore

namespace Renderer

variable [Scalar α]

/-- The field's art is there exactly when it was the last answer. -/
theorem baseImage?_calls (canvas : Canvas α ι) (options : Options α) (h : List (RendererCall α ι)) :
    ((new canvas options).calls h).images.baseImage? =
      (imageOutcome options.fieldImage h).image? := by
  rw [ImageCache.baseImage?, base_calls, Option.bind_some]

theorem slotWants_calls (canvas : Canvas α ι) (options : Options α) (h : List (RendererCall α ι))
    (url : String) :
    slotWants ((new canvas options).calls h).images.base url = true ↔ url = options.fieldImage := by
  rw [base_calls, slotWants, Option.any_some, decide_eq_true_iff, eq_comm]

/-- The pass that is deferred after any calls: on a canvas that tells its map it is the one that waits
for the field's art, and on any other canvas there is none. -/
theorem deferred_calls_iff (canvas : Canvas α ι) (options : Options α) (h : List (RendererCall α ι))
    (size : SurfaceSize α) :
    ((new canvas options).calls h).images.deferred = some size ↔
      canvas.reportsTransform = true ∧ Postponed options.fieldImage h size := by
  induction h using List.reverseRecOn with
  | nil => simp [Postponed, calls, new, ImageCache.loadBase, ImageCache.request, ImageCache.empty]
  | append_singleton h d ih =>
    have htells : ((new canvas options).calls h).canvas.reportsTransform = canvas.reportsTransform :=
      (options_calls _ h).2
    rw [calls_concat, Postponed, outstanding_concat, ← Postponed]
    -- only a pass can be deferred and only the art of the field ends that; every other call leaves it alone
    cases d with
    | render size' =>
      rw [call, (images_render size' _).2, htells, baseImage?_calls]
      cases hcanvas : canvas.reportsTransform <;>
        cases himage : (imageOutcome options.fieldImage h).image? <;>
        simp_all [RendererCall.postponed?, RendererCall.Brings]
    | imageLoaded url image =>
      rw [call, (images_imageLoaded url image _).2]
      by_cases hurl : url = options.fieldImage
      · rw [if_pos ((slotWants_calls canvas options h url).2 hurl)]
        simp [RendererCall.postponed?, RendererCall.Brings, hurl]
      · rw [if_neg (mt (slotWants_calls canvas options h url).1 hurl), ih]
        simp [RendererCall.postponed?, RendererCall.Brings, hurl]
    | _ =>
      refine Iff.trans ih ?_
      simp [RendererCall.postponed?, RendererCall.Brings]

/-- **How a pass waits for the field's art.** Take any calls on a new renderer. On a canvas that tells
its map, the pass that is deferred is the one that waits, and none is deferred while the art is there;
on any other canvas none is ever deferred. The art repeats the deferred pass, once and at its size, and
no pass is deferred any more, however the repeated one ends. Any other image that comes, and every
failure, is taken note of, and neither the canvas nor grid, base transform and requests change. -/
theorem deferral_after_history (canvas : Canvas α ι) (options : Options α)
    (h : List (RendererCall α ι)) :
    let r := (new canvas options).calls h
    (∀ size, r.images.deferred = some size ↔
      canvas.reportsTransform = true ∧ Postponed options.fieldImage h size) ∧
    (r.images.deferred = none ∨ r.images.baseImage? = none) ∧
    (∀ url image size, url = options.fieldImage → r.images.deferred = some size →
      r.imageLoaded url image = (r.told url image).render size ∧
        (r.imageLoaded url image).1.images.deferred = none) ∧
    (∀ url image, url ≠ options.fieldImage ∨ r.images.deferred = none →
      r.imageLoaded url image = (r.told url image, none)) ∧
    (∀ url image, (r.told url image).canvas = r.canvas ∧ (r.told url image).grid = r.grid ∧
      (r.told url image).base = r.base ∧
      (r.told url image).images.requests = r.images.requests) ∧
    ∀ url, (r.imageFailed url).canvas = r.canvas ∧ (r.imageFailed url).grid = r.grid ∧
      (r.imageFailed url).base = r.base ∧
      (r.imageFailed url).images.requests = r.images.requests ∧
      (r.imageFailed url).images.deferred = r.images.deferred := by
  intro r
  have hdeferred : ∀ size, r.images.deferred = some size ↔
      canvas.reportsTransform = true ∧ Postponed options.fieldImage h size :=
    deferred_calls_iff canvas options h
  have hwants : ∀ url, slotWants r.images.base url = true ↔ url = options.fieldImage :=
    slotWants_calls canvas options h
  refine ⟨hdeferred, ?_, ?_, ?_, ?_, fun url => ⟨rfl, rfl, rfl, rfl, rfl⟩⟩
  · rcases hsize : r.images.deferred with _ | size
    · exact Or.inl rfl
    · refine Or.inr ?_
      rw [baseImage?_calls]
      exact image?_of_postponed ((hdeferred size).1 hsize).2
  · intro url image size hurl hsize
    have hwanted := (hwants url).2 hurl
    have hreplay : (r.images.complete url image).1 = some size := by
      rw [ImageCache.complete, if_pos hwanted, hsize]
    refine ⟨by rw [imageLoaded_eq, hreplay], ?_⟩
    rw [(images_imageLoaded url image r).2, if_pos hwanted]
  · intro url image hother
    have hreplay : (r.images.complete url image).1 = none := by
      rw [ImageCache.complete]
      split
      · next hwanted => exact hother.resolve_left fun hne => hne ((hwants url).1 hwanted)
      · rfl
    rw [imageLoaded_eq, hreplay]
  · intro url image
    refine ⟨rfl, rfl, rfl, ?_⟩
    rw [told, ImageCache.complete]
    split <;> rfl

end Renderer

end FieldDiagram
