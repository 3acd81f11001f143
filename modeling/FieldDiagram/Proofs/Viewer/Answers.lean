import FieldDiagram.Proofs.Json.Members
import FieldDiagram.Proofs.Renderer.History
import FieldDiagram.Viewer.Session
/-!
# Requests that are answered

A viewer answers every request that waits from the one load of its address. As long as no pass is
deferred for art that can be loaded, answering repeats no pass: all that it changes are the image
slots, and each slot whose address is among the requests is afterwards as the load of that address
says. Main statement: `answerAll_answers`.
-/

namespace FieldDiagram

variable {α ι : Type}

/-- The answer to a request for an address. -/
def LoadState.ofLoad (load : String → Option ι) (url : String) : LoadState ι :=
  (load url).elim .failed .loaded

/-- The image of an answered request is what was loaded. -/
@[simp] theorem LoadState.image?_ofLoad (load : String → Option ι) (url : String) :
    (ofLoad load url).image? = load url := by
  rw [ofLoad]
  cases load url <;> rfl

/-! ## Slots

Answers are given in the order of requests, and one address may be requested twice. As its load gives the
same every time, the order does not matter to the slots. -/

namespace ImageSlot

/-- A slot after answers to requests. -/
def answered (load : String → Option ι) (urls : List String) (slot : ImageSlot ι) : ImageSlot ι :=
  if slot.url ∈ urls then ⟨slot.url, .ofLoad load slot.url⟩ else slot

@[simp] theorem url_answered (load : String → Option ι) (urls : List String) (slot : ImageSlot ι) :
    (slot.answered load urls).url = slot.url := by
  rw [answered]
  split <;> rfl

/-- One answer more, given first. -/
theorem answered_answer (load : String → Option ι) (url : String) (urls : List String)
    (slot : ImageSlot ι) :
    (slot.answer url (.ofLoad load url)).answered load urls = slot.answered load (url :: urls) := by
  by_cases hurl : slot.url = url
  · simp [answered, answer, hurl]
  · simp [answered, answer, hurl]

/-- A slot that has been answered before, or is now, is as its load says. -/
theorem answered_eq {load : String → Option ι} {urls : List String} {slot : ImageSlot ι}
    (h : slot.state = .ofLoad load slot.url ∨ slot.url ∈ urls) :
    slot.answered load urls = ⟨slot.url, .ofLoad load slot.url⟩ := by
  rw [answered]
  split
  · rfl
  · next hurl => rw [← h.resolve_right hurl]

end ImageSlot

namespace ImageCache

/-- Both slots after answers to requests. -/
def answered (load : String → Option ι) (urls : List String) (c : ImageCache α ι) :
    ImageCache α ι :=
  { c with base := c.base.map (.answered load urls), alt := c.alt.map (.answered load urls) }

theorem answered_nil (load : String → Option ι) (c : ImageCache α ι) : c.answered load [] = c := by
  have hslot : ImageSlot.answered load [] = id := funext fun slot => if_neg List.not_mem_nil
  rw [answered, hslot, Option.map_id_fun, id_eq, id_eq]

theorem answered_answer (load : String → Option ι) (url : String) (urls : List String)
    (c : ImageCache α ι) :
    (c.answer url (.ofLoad load url)).answered load urls = c.answered load (url :: urls) := by
  have hslot : ∀ slot? : Option (ImageSlot ι),
      (slot?.map (ImageSlot.answer url (.ofLoad load url))).map (ImageSlot.answered load urls) =
        slot?.map (ImageSlot.answered load (url :: urls)) := by
    intro slot?
    rw [Option.map_map]
    exact congrArg (fun f => slot?.map f) (funext (ImageSlot.answered_answer load url urls))
  rw [answered, answered, answer]
  simp only [hslot]

/-- No pass is deferred for art that can be loaded. -/
def Quiet (load : String → Option ι) (c : ImageCache α ι) : Prop :=
  ∀ slot, c.base = some slot → (load slot.url).isSome → c.deferred = none

/-- Every slot is as its load says, or its address is still requested. -/
def Pursued (load : String → Option ι) (c : ImageCache α ι) : Prop :=
  ∀ slot, c.base = some slot ∨ c.alt = some slot →
    slot.state = .ofLoad load slot.url ∨ slot.url ∈ c.requests

variable {load : String → Option ι} {c : ImageCache α ι}

theorem Quiet.answer (h : c.Quiet load) (url : String) (state : LoadState ι) :
    (c.answer url state).Quiet load := by
  intro slot hslot hloads
  obtain ⟨before, hbefore, rfl⟩ := Option.map_eq_some_iff.1 hslot
  exact h before hbefore (by rwa [ImageSlot.url_answer] at hloads)

/-- An image that comes hands out no pass. -/
theorem Quiet.complete (h : c.Quiet load) {url : String} {image : ι} (hload : load url = some image) :
    c.complete url image = (none, c.answer url (.ofLoad load url)) := by
  rw [ImageCache.complete, LoadState.ofLoad, hload, Option.elim_some]
  split
  · next hwants =>
    -- the slot that wants the image is the one that no pass waits for
    have hnone : c.deferred = none := by
      rcases hbase : c.base with _ | slot
      · simp [hbase, slotWants] at hwants
      · have hurl : slot.url = url := by simpa [hbase, slotWants] using hwants
        exact h slot hbase (by rw [hurl, hload]; rfl)
    simp only [ImageCache.answer, hnone]
  · rfl

/-- A cache in which no request waits any more and both slots are as their loads say. -/
def fulfilled (load : String → Option ι) (c : ImageCache α ι) : ImageCache α ι :=
  { c with
    base := c.base.map fun slot => ⟨slot.url, .ofLoad load slot.url⟩
    alt := c.alt.map fun slot => ⟨slot.url, .ofLoad load slot.url⟩
    requests := [] }

/-- When all requests have been handed out and answered, both slots are as their loads say. -/
theorem Pursued.answered_drain (h : c.Pursued load) :
    c.drain.2.answered load c.drain.1 = c.fulfilled load := by
  have hslot : ∀ slot?, slot? = c.base ∨ slot? = c.alt →
      slot?.map (ImageSlot.answered load c.requests) =
        slot?.map fun slot => ⟨slot.url, LoadState.ofLoad load slot.url⟩ := by
    intro slot? hin
    exact Option.map_congr fun slot hslot =>
      ImageSlot.answered_eq (h slot (hin.imp (·.symm.trans hslot) (·.symm.trans hslot)))
  simp only [answered, drain, fulfilled, hslot c.base (Or.inl rfl), hslot c.alt (Or.inr rfl)]

end ImageCache

/-! ## Viewers

Between two requests nothing but the slots and the textures changes, if no answer repeats a pass. That no
answer does is `Quiet`, and answering keeps it. -/

/-- Whether a call loads a texture; all others draw. -/
def WindowCall.isLoad : WindowCall ι → Bool
  | load _ => true
  | _ => false

namespace Viewer

/-- Every texture that was tried is what its load gives. -/
def Consistent (load : String → Option ι) (v : Viewer ι) : Prop :=
  ∀ url texture, v.textures.lookup url = some texture → texture = load url

/-- What answering requests makes of a viewer: but for the log and the textures, only the slots
change. -/
structure Answers (load : String → Option ι) (urls : List String) (v w : Viewer ι) : Prop where
  textures : w.Consistent load
  overlay : w.overlay = v.overlay
  renderer : ∃ log, w.renderer =
    { v.renderer with images := v.renderer.images.answered load urls, log }

variable {load : String → Option ι}

/-- After its load an address is among the textures, and no other texture is different. -/
theorem loadOnce_spec {v : Viewer ι} (h : v.Consistent load) (url : String) :
    let w := (v.loadOnce load url).1
    w.Consistent load ∧ w.textures.lookup url = some (load url) ∧ w.overlay = v.overlay ∧
      ∃ log, w.renderer = { v.renderer with log } := by
  intro w
  -- an address that was tried is left alone, so what is known of it has to be what its load gives
  cases htried : v.textures.lookup url with
  | some texture =>
    have hw : w = v := by simp [w, loadOnce, htried]
    rw [hw, htried, h url texture htried]
    exact ⟨h, rfl, rfl, v.renderer.log, rfl⟩
  | none =>
    have hw : w = { (if (load url).isNone then v.note textureFailed else v) with
        textures := (url, load url) :: v.textures } := by
      simp [w, loadOnce, htried]
    have hconsistent : w.Consistent load := by
      intro url' texture
      rw [hw]
      dsimp only
      rw [Json.lookup_cons_eq_ite]
      split
      · next hurl => exact fun heq => by rw [hurl, ← Option.some.inj heq]
      · exact h url' texture
    refine ⟨hconsistent, ?_, ?_, ?_⟩
    · rw [hw]
      exact List.lookup_cons_self
    · rw [hw]
      split <;> rfl
    · rw [hw]
      split
      · exact ⟨v.renderer.log ++ [textureFailed], rfl⟩
      · exact ⟨v.renderer.log, rfl⟩

/-- A request for an address that was tried is answered with what came of it. -/
theorem renderer_answer {v : Viewer ι} {url : String}
    (htried : v.textures.lookup url = some (load url)) (hquiet : v.renderer.images.Quiet load) :
    (v.answer url).textures = v.textures ∧ (v.answer url).overlay = v.overlay ∧
      ∃ log, (v.answer url).renderer =
        { v.renderer with images := v.renderer.images.answer url (.ofLoad load url), log } := by
  rw [answer, htried, Option.join_some]
  cases hload : load url with
  | none =>
    refine ⟨rfl, rfl, v.renderer.log ++ v.renderer.images.failureLog url, ?_⟩
    rw [LoadState.ofLoad, hload]
    rfl
  | some texture =>
    have himage : v.renderer.imageLoaded url texture = (v.renderer.told url texture, none) := by
      rw [Renderer.imageLoaded_eq, hquiet.complete hload]
    dsimp only
    rw [himage]
    refine ⟨rfl, rfl, v.renderer.log ++ v.renderer.images.completionLog url, ?_⟩
    change v.renderer.told url texture = _
    rw [Renderer.told, hquiet.complete hload]

theorem answerAll_cons (load : String → Option ι) (url : String) (urls : List String) (v : Viewer ι) :
    answerAll load (url :: urls) v =
      ((answerAll load urls ((v.loadOnce load url).1.answer url)).1,
        (v.loadOnce load url).2 ++ (answerAll load urls ((v.loadOnce load url).1.answer url)).2) :=
  rfl

/-- All requests are answered, in order, and nothing is drawn meanwhile. -/
theorem answerAll_answers {v : Viewer ι} (h : v.Consistent load)
    (hquiet : v.renderer.images.Quiet load) (urls : List String) :
    Answers load urls v (answerAll load urls v).1 ∧
      ∀ call ∈ (answerAll load urls v).2, call.isLoad = true := by
  induction urls generalizing v with
  | nil =>
    refine ⟨⟨h, rfl, v.renderer.log, ?_⟩, by simp [answerAll]⟩
    rw [ImageCache.answered_nil]
    rfl
  | cons url urls ih =>
    -- the answer needs its texture, and the next request needs that the cache is still quiet
    obtain ⟨hloaded, htried, hoverlay, log, hrenderer⟩ := loadOnce_spec h url
    have hcalls : ∀ call ∈ (v.loadOnce load url).2, call.isLoad = true := by
      rw [loadOnce]
      split
      · simp
      · exact List.forall_mem_singleton.2 rfl
    rw [answerAll_cons]
    generalize (v.loadOnce load url).1 = loaded at hloaded htried hoverlay hrenderer ⊢
    have himages : loaded.renderer.images = v.renderer.images := by rw [hrenderer]
    obtain ⟨htextures, hoverlay', log', hanswered⟩ :=
      renderer_answer htried (himages.symm ▸ hquiet)
    have hconsistent : (loaded.answer url).Consistent load := by
      rw [Consistent, htextures]
      exact hloaded
    have hstillQuiet : (loaded.answer url).renderer.images.Quiet load := by
      rw [hanswered, himages]
      exact hquiet.answer url _
    obtain ⟨⟨hlast, hsame, lastLog, hrest⟩, hmore⟩ := ih hconsistent hstillQuiet
    refine ⟨⟨hlast, ?_, lastLog, ?_⟩, List.forall_mem_append.2 ⟨hcalls, hmore⟩⟩
    · rw [hsame, hoverlay', hoverlay]
    · rw [hrest, hanswered, hrenderer, ← ImageCache.answered_answer]

end Viewer

end FieldDiagram
