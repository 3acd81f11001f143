import FieldDiagram.Images
import FieldDiagram.Proofs.History
/-!
# Image slots under any order of loads

Requests for images are in flight without identity, and answers come late, twice or never. A history
of a cache is the list of the calls that were made on it. What a cache is in after any history is told
by three things in it: the last request for each slot, the last answer to that request's address since
then, and the last deferral that no completion for the base image has used up.

Both slots obey one law, `slotAfter`, for their own requests. Main statement: `slots_after_history`.
-/

namespace FieldDiagram

/-- Everything a cache of images can be told. -/
inductive CacheCall (α ι : Type) where
  | loadBase (url : String)
  | setAlt (url : String) (placement : AltPlacement α)
  | complete (url : String) (image : ι)
  | fail (url : String)
  | defer (size : SurfaceSize α)

namespace CacheCall

variable {α ι : Type}

/-- The address that is wanted for the base slot from now on. -/
def base? : CacheCall α ι → Option String
  | loadBase url => some url
  | _ => none

/-- The address that is wanted for the alternate slot from now on, and where its image goes. -/
def alt? : CacheCall α ι → Option (String × AltPlacement α)
  | setAlt url placement => some (url, placement)
  | _ => none

/-- The answer to a request for an address. -/
def answer? (url : String) : CacheCall α ι → Option (LoadState ι)
  | complete u image => if url = u then some (.loaded image) else none
  | fail u => if url = u then some .failed else none
  | _ => none

/-- The size of a pass that has to be repeated. -/
def deferral? : CacheCall α ι → Option (SurfaceSize α)
  | defer size => some size
  | _ => none

end CacheCall

namespace ImageCache

variable {α ι : Type}

/-- Carries out one call. The size that a completion hands out is `(c.complete url image).1`. -/
def call (c : ImageCache α ι) : CacheCall α ι → ImageCache α ι
  | .loadBase url => c.loadBase url
  | .setAlt url placement => c.setAlt url placement
  | .complete url image => (c.complete url image).2
  | .fail url => c.fail url
  | .defer size => c.defer size

/-- Carries out calls in order. -/
def calls (c : ImageCache α ι) (h : List (CacheCall α ι)) : ImageCache α ι := h.foldl call c

theorem calls_concat (c : ImageCache α ι) (h : List (CacheCall α ι)) (d : CacheCall α ι) :
    c.calls (h ++ [d]) = (c.calls h).call d := by
  rw [calls, List.foldl_append]
  rfl

end ImageCache

/-! ## The law of a slot

A slot wants one address and forgets what it knew of the one before. So answers count from the last request
on, and only those for its address. -/

section Slot

variable {α ι : Type}

/-- How far the loading of an address has got after some calls: as its last answer says. -/
def outcome (url : String) (later : List (CacheCall α ι)) : LoadState ι :=
  (latest? (CacheCall.answer? url) later).getD .pending

/-- A slot with its own requests after some calls: it wants the address of the last request, and only
answers since that request count. -/
def slotAfter (request? : CacheCall α ι → Option String) (h : List (CacheCall α ι)) :
    Option (ImageSlot ι) :=
  (sinceLatest? request? h).map fun (url, later) => ⟨url, outcome url later⟩

/-- A slot after a call that is no request of its own. -/
def ImageSlot.hear (d : CacheCall α ι) (slot : ImageSlot ι) : ImageSlot ι :=
  ⟨slot.url, (d.answer? slot.url).getD slot.state⟩

theorem outcome_concat (url : String) (later : List (CacheCall α ι)) (d : CacheCall α ι) :
    outcome url (later ++ [d]) = (d.answer? url).getD (outcome url later) :=
  getD_latest?_concat _ _ _ _

/-- One more call is a request for the slot, or else the slot hears it. -/
theorem slotAfter_concat (request? : CacheCall α ι → Option String) (h : List (CacheCall α ι))
    (d : CacheCall α ι) :
    slotAfter request? (h ++ [d]) =
      ((request? d).map ImageSlot.wanting).or ((slotAfter request? h).map (ImageSlot.hear d)) := by
  rw [slotAfter, sinceLatest?_concat, slotAfter]
  rcases request? d with _ | url
  · -- no request of its own: the answers since the last one get one call longer
    rcases sinceLatest? request? h with _ | ⟨url, later⟩
    · rfl
    · simp only [Option.map_some, Option.map_none, Option.none_or, outcome_concat]
      rfl
  · rfl

/-- The address that a slot wants is that of its last request. -/
theorem slotWants_slotAfter (request? : CacheCall α ι → Option String) (h : List (CacheCall α ι))
    (url : String) : slotWants (slotAfter request? h) url = true ↔ latest? request? h = some url := by
  rw [slotAfter, latest?]
  rcases sinceLatest? request? h with _ | ⟨u, later⟩ <;> simp [slotWants]

end Slot

/-! ## What one call does

Each call is a request for one of the slots, an answer that both may hear, or neither. -/

namespace ImageCache

variable {α ι : Type}

theorem hear_complete (url : String) (image : ι) :
    ImageSlot.hear (.complete url image : CacheCall α ι) = ImageSlot.answer url (.loaded image) := by
  funext slot
  rw [ImageSlot.hear, ImageSlot.answer, CacheCall.answer?]
  split <;> rfl

theorem hear_fail (url : String) :
    ImageSlot.hear (.fail url : CacheCall α ι) = ImageSlot.answer url .failed := by
  funext slot
  rw [ImageSlot.hear, ImageSlot.answer, CacheCall.answer?]
  split <;> rfl

/-- A call that brings no answer leaves a slot as it is. -/
theorem map_hear_of_silent {d : CacheCall α ι} (hd : ∀ url, d.answer? url = none)
    (slot : Option (ImageSlot ι)) : slot.map (ImageSlot.hear d) = slot := by
  rcases slot with _ | slot
  · rfl
  · rw [Option.map_some, ImageSlot.hear, hd, Option.getD_none]

theorem complete_slots (url : String) (image : ι) (c : ImageCache α ι) :
    (c.complete url image).2.base = c.base.map (.answer url (.loaded image)) ∧
      (c.complete url image).2.alt = c.alt.map (.answer url (.loaded image)) ∧
      (c.complete url image).2.placement = c.placement := by
  rw [complete]
  split <;> exact ⟨rfl, rfl, rfl⟩

theorem base_call (c : ImageCache α ι) (d : CacheCall α ι) :
    (c.call d).base = (d.base?.map ImageSlot.wanting).or (c.base.map (ImageSlot.hear d)) := by
  cases d with
  | loadBase url => rfl
  | setAlt url placement => exact (map_hear_of_silent (fun _ => rfl) _).symm
  | complete url image => rw [hear_complete]; exact (c.complete_slots url image).1
  | fail url => rw [hear_fail]; rfl
  | defer size => exact (map_hear_of_silent (fun _ => rfl) _).symm

theorem alt_call (c : ImageCache α ι) (d : CacheCall α ι) :
    (c.call d).alt =
      ((d.alt?.map Prod.fst).map ImageSlot.wanting).or (c.alt.map (ImageSlot.hear d)) := by
  cases d with
  | loadBase url => exact (map_hear_of_silent (fun _ => rfl) _).symm
  | setAlt url placement => rfl
  | complete url image => rw [hear_complete]; exact (c.complete_slots url image).2.1
  | fail url => rw [hear_fail]; rfl
  | defer size => exact (map_hear_of_silent (fun _ => rfl) _).symm

theorem placement_call (c : ImageCache α ι) (d : CacheCall α ι) :
    (c.call d).placement = (d.alt?.map Prod.snd).getD c.placement := by
  cases d with
  | complete url image => exact (c.complete_slots url image).2.2
  | _ => rfl

end ImageCache

/-! ## The law of the whole cache

The pass that waits is the one thing that both a request and an answer have a say in: it is put off by one
call and taken up by another, which has to be for the address that is wanted then. -/

/-- Whether a call, made after others, completes the address that the base slot wants. -/
def CacheCall.CompletesBase {α ι : Type} (before : List (CacheCall α ι)) (d : CacheCall α ι) :
    Prop :=
  ∃ url image, d = .complete url image ∧ latest? CacheCall.base? before = some url

/-- A pass of this size waits for the base image: it was the last to be deferred, and no completion has
concerned the base slot since. -/
def Awaits {α ι : Type} : List (CacheCall α ι) → SurfaceSize α → Prop :=
  Outstanding (fun _ d => d.deferral?) CacheCall.CompletesBase

namespace ImageCache

variable {α ι : Type} [Scalar α]

theorem base_calls (h : List (CacheCall α ι)) :
    (empty.calls h).base = slotAfter CacheCall.base? h := by
  induction h using List.reverseRecOn with
  | nil => rfl
  | append_singleton h d ih => rw [calls_concat, base_call, ih, slotAfter_concat]

theorem alt_calls (h : List (CacheCall α ι)) :
    (empty.calls h).alt = slotAfter (fun d => d.alt?.map Prod.fst) h := by
  induction h using List.reverseRecOn with
  | nil => rfl
  | append_singleton h d ih => rw [calls_concat, alt_call, ih, slotAfter_concat]

theorem placement_calls (h : List (CacheCall α ι)) :
    (empty.calls h : ImageCache α ι).placement =
      ((latest? CacheCall.alt? h).map Prod.snd).getD .empty := by
  induction h using List.reverseRecOn with
  | nil => rfl
  | append_singleton h d ih =>
    rw [calls_concat, placement_call, ih, latest?_concat]
    cases d.alt? <;> rfl

/-- A call completes the wanted base image exactly when the base slot wants its address. -/
theorem completesBase_iff (h : List (CacheCall α ι)) (url : String) (image : ι) :
    CacheCall.CompletesBase h (.complete url image) ↔
      slotWants (empty.calls h : ImageCache α ι).base url = true := by
  rw [base_calls, slotWants_slotAfter]
  constructor
  · rintro ⟨u, i, heq, hu⟩
    obtain ⟨rfl, rfl⟩ := CacheCall.complete.inj heq
    exact hu
  · intro hu
    exact ⟨url, image, rfl, hu⟩

/-- The pass that waits for the base image after any calls. -/
theorem deferred_calls (h : List (CacheCall α ι)) (size : SurfaceSize α) :
    (empty.calls h : ImageCache α ι).deferred = some size ↔ Awaits h size := by
  induction h using List.reverseRecOn with
  | nil => simp [Awaits, calls, empty]
  | append_singleton h d ih =>
    rw [calls_concat, Awaits, outstanding_concat, ← Awaits, ← ih]
    cases d with
    | complete url image =>
      -- the only call that ends the wait, and only for the address that the base slot wants
      rw [completesBase_iff]
      simp only [call, complete, CacheCall.deferral?]
      split <;> simp_all [answer]
    | defer size' => simp [call, defer, CacheCall.deferral?]
    | _ => simp [call, CacheCall.deferral?, CacheCall.CompletesBase, loadBase, setAlt, request,
        fail, answer]

/-- **What any history of calls leaves in a new cache.** Each slot is as its last request and the last
answer to that request's address since then say; address and place of the alternate image come from
one request, and one answer serves both slots where they want the same address. An answer that no slot
wants changes nothing. A completion hands out a pass exactly when it is for the base slot and a pass
waits, and then the latest one; a failure lets it wait. -/
theorem slots_after_history (h : List (CacheCall α ι)) :
    let c : ImageCache α ι := empty.calls h
    (match sinceLatest? CacheCall.base? h with
      | none => c.base = none
      | some (url, later) => c.base = some ⟨url, outcome url later⟩) ∧
    (match sinceLatest? CacheCall.alt? h with
      | none => c.alt = none ∧ c.placement = .empty
      | some ((url, placement), later) =>
        c.alt = some ⟨url, outcome url later⟩ ∧ c.placement = placement) ∧
    (∀ url, slotWants c.base url = false → slotWants c.alt url = false →
      (∀ image, c.complete url image = (none, c)) ∧ c.fail url = c) ∧
    (∀ url image size,
      (c.complete url image).1 = some size ↔ slotWants c.base url = true ∧ Awaits h size) ∧
    ∀ url, (c.fail url).deferred = c.deferred := by
  intro c
  have hbase : c.base = slotAfter CacheCall.base? h := base_calls h
  have halt : c.alt = slotAfter (fun d => d.alt?.map Prod.fst) h := alt_calls h
  have hplace : c.placement = ((latest? CacheCall.alt? h).map Prod.snd).getD .empty :=
    placement_calls h
  refine ⟨?_, ?_, ?_, ?_, fun url => rfl⟩
  · rw [hbase, slotAfter]
    rcases sinceLatest? CacheCall.base? h with _ | ⟨url, later⟩ <;> rfl
  · rw [halt, hplace, slotAfter, sinceLatest?_map, latest?]
    rcases sinceLatest? CacheCall.alt? h with _ | ⟨⟨url, placement⟩, later⟩ <;> exact ⟨rfl, rfl⟩
  · intro url hb ha
    refine ⟨?_, answer_of_not_wanted _ hb ha⟩
    intro image
    rw [complete, answer_of_not_wanted _ hb ha, if_neg (by rw [hb]; decide)]
  · intro url image size
    rw [← deferred_calls h size, complete]
    split
    · next hwanted => simp [hwanted, c]
    · next hwanted => simp [hwanted]

end ImageCache

end FieldDiagram
