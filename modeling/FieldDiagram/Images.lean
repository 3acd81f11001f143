import FieldDiagram.Canvas.Basic
import FieldDiagram.Geometry.Placement
import FieldDiagram.LogLine
/-!
# The field's art

Images are fetched by somebody else. The cache says which addresses it wants, and is told later how
that went: perhaps late, twice, or never. There are two slots, the *base* image for the field and the
*alternate* image that an overlay may put in front of it. An answer concerns the slots that want its
address at the time it arrives; any other answer is stale and changes nothing.
-/

namespace FieldDiagram

/-- How far the loading of an image has got. -/
inductive LoadState (ι : Type) where
  | pending
  | loaded (image : ι)
  | failed
  deriving DecidableEq, Repr

/-- The image, once it is there. -/
def LoadState.image? {ι : Type} : LoadState ι → Option ι
  | .loaded image => some image
  | _ => none

/-- An address that is wanted and how far its loading has got. -/
structure ImageSlot (ι : Type) where
  url : String
  state : LoadState ι
  deriving DecidableEq, Repr

namespace ImageSlot

variable {ι : Type}

/-- A slot that has just asked for an address. -/
def wanting (url : String) : ImageSlot ι := ⟨url, .pending⟩

/-- Takes an answer for an address, if it is the one that is wanted. -/
def answer (url : String) (state : LoadState ι) (slot : ImageSlot ι) : ImageSlot ι :=
  if slot.url = url then { slot with state } else slot

@[simp] theorem url_answer (url : String) (state : LoadState ι) (slot : ImageSlot ι) :
    (slot.answer url state).url = slot.url := by
  unfold answer
  split <;> rfl

end ImageSlot

/-- Both slots, and what has been asked for. -/
structure ImageCache (α ι : Type) where
  base : Option (ImageSlot ι)
  alt : Option (ImageSlot ι)
  /-- Where the alternate image goes. -/
  placement : AltPlacement α
  /-- The size of a pass that ran without the base image, to be repeated once it is there. -/
  deferred : Option (SurfaceSize α)
  /-- Addresses that have been asked for and not yet been handed out, oldest first. -/
  requests : List String

/-! ## Lines of the log -/

namespace ImageCache

/-- The alternate image has come. -/
def altLoaded : LogLine := ⟨.info, "alt field image loaded"⟩

/-- The base image has come. -/
def baseLoaded : LogLine := ⟨.info, "base field image loaded"⟩

/-- An image has come that no slot wants. -/
def staleCompletion : LogLine := ⟨.warn, "ignoring stale image completion"⟩

/-- An image that is wanted will not come. -/
def loadFailed : LogLine := ⟨.warn, "field image failed to load"⟩

/-- An image that no slot wants will not come. -/
def staleFailure : LogLine := ⟨.warn, "ignoring stale image failure"⟩

end ImageCache

/-- Whether a slot wants an address. -/
def slotWants {ι : Type} (slot : Option (ImageSlot ι)) (url : String) : Bool := slot.any (·.url = url)

namespace ImageCache

variable {α ι : Type}

/-- No image wanted, none asked for. -/
def empty [Scalar α] : ImageCache α ι := ⟨none, none, .empty, none, []⟩

/-- Asks for an address. -/
def request (url : String) (c : ImageCache α ι) : ImageCache α ι :=
  { c with requests := c.requests ++ [url] }

/-- Hands out what has been asked for. -/
def drain (c : ImageCache α ι) : List String × ImageCache α ι := (c.requests, { c with requests := [] })

/-- Wants a base image. -/
def loadBase (url : String) (c : ImageCache α ι) : ImageCache α ι :=
  request url { c with base := some (.wanting url) }

/-- Wants an alternate image at a place. An image that is there already is given up, even one from the
same address. -/
def setAlt (url : String) (placement : AltPlacement α) (c : ImageCache α ι) : ImageCache α ι :=
  request url { c with alt := some (.wanting url), placement }

/-- Takes an answer for an address. -/
def answer (url : String) (state : LoadState ι) (c : ImageCache α ι) : ImageCache α ι :=
  { c with base := c.base.map (.answer url state), alt := c.alt.map (.answer url state) }

/-- Takes a finished load. If it is the base image, the pass that was deferred is handed out. -/
def complete (url : String) (image : ι) (c : ImageCache α ι) :
    Option (SurfaceSize α) × ImageCache α ι :=
  let answered := c.answer url (.loaded image)
  if slotWants c.base url then (c.deferred, { answered with deferred := none }) else (none, answered)

/-- Takes a failed load. -/
def fail (url : String) (c : ImageCache α ι) : ImageCache α ι := c.answer url .failed

/-- Remembers the size of a pass that ran without the base image; only the last one is kept. -/
def defer (size : SurfaceSize α) (c : ImageCache α ι) : ImageCache α ι :=
  { c with deferred := some size }

/-- The base image, once it is there. -/
def baseImage? (c : ImageCache α ι) : Option ι := c.base.bind (·.state.image?)

/-- The alternate image, once it is there. -/
def altImage? (c : ImageCache α ι) : Option ι := c.alt.bind (·.state.image?)

/-- What the log says of a finished load. -/
def completionLog (url : String) (c : ImageCache α ι) : List LogLine :=
  match slotWants c.alt url, slotWants c.base url with
  | false, false => [staleCompletion]
  | alt, base => (if alt then [altLoaded] else []) ++ if base then [baseLoaded] else []

/-- What the log says of a failed load. -/
def failureLog (url : String) (c : ImageCache α ι) : List LogLine :=
  if slotWants c.base url || slotWants c.alt url then [loadFailed] else [staleFailure]

/-- An answer that no slot wants changes nothing. -/
theorem answer_of_not_wanted {c : ImageCache α ι} {url : String} (state : LoadState ι)
    (base : slotWants c.base url = false) (alt : slotWants c.alt url = false) : c.answer url state = c := by
  have keep : ∀ slot : Option (ImageSlot ι), slotWants slot url = false →
      slot.map (.answer url state) = slot := by
    intro slot h
    cases slot with
    | none => rfl
    | some slot =>
      have : slot.url ≠ url := by simpa [slotWants] using h
      simp [ImageSlot.answer, this]
  simp [answer, keep _ base, keep _ alt]

/-! ## Drawing -/

variable [Scalar α]

/-- The calls that draw the base image over a rectangle. -/
def baseCalls (c : ImageCache α ι) (r : FieldRect α) (alpha : α) : List (CanvasCall α ι) :=
  match c.baseImage? with
  | some image => [.setAlpha alpha, .drawImage image r.x r.y r.width r.height]
  | none => []

/-- The calls that draw the alternate image at its place in a rectangle. -/
def altCalls (c : ImageCache α ι) (r : FieldRect α) (alpha : α) : List (CanvasCall α ι) :=
  match c.altImage? with
  | some image =>
    let (corner, extent) := c.placement.resolve r
    [.setAlpha (if c.placement.opaqueArt then Scalar.one else alpha),
      .drawImage image corner.x corner.y extent.x extent.y, .setAlpha alpha]
  | none => []

end ImageCache

end FieldDiagram
