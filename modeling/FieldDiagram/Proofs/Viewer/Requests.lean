import FieldDiagram.Proofs.Renderer.Persistence
import FieldDiagram.Proofs.Viewer.Calls
/-!
# One load for an address, one answer for a request

The requests of a renderer come back in every frame: each pass over an overlay with art asks for its
art again, and answers may repeat a pass. A viewer loads an address when it meets it for the first
time and keeps what came of it, be it an image or a failure. So the addresses that are loaded in a
session are all different, and the answer to a request is the same in every frame, whatever a second
load would have given. Main statement: `answers_each_request`.

What carries the induction over frames is `Tries`: the textures only grow, by the addresses that are
loaded.
-/

namespace FieldDiagram

variable {ι : Type}

/-! ## Loads

Addresses that have been tried are told from the others by the table of textures, where a failed load has an
entry, too. `Tries` is what a stretch of a session does to that table. -/

/-- The address that a call loads. -/
def WindowCall.loaded? : WindowCall ι → Option String
  | load url => some url
  | _ => none

/-- The addresses that some calls load. -/
def loadsOf (calls : List (WindowCall ι)) : List String := calls.filterMap WindowCall.loaded?

theorem loadsOf_append (calls more : List (WindowCall ι)) :
    loadsOf (calls ++ more) = loadsOf calls ++ loadsOf more := List.filterMap_append

/-- Commands load nothing. -/
theorem loadsOf_windowCalls (ds : List (DrawCommand Float ι)) :
    loadsOf (ds.flatMap DrawCommand.windowCalls) = [] := by
  apply List.filterMap_eq_nil_iff.2
  intro call hcall
  obtain ⟨d, -, hd⟩ := List.mem_flatMap.1 hcall
  have hdraws := (DrawCommand.of_mem_windowCalls hd).1
  cases call with
  | load url => cases hdraws
  | _ => rfl

namespace Viewer

/-- The addresses that are loaded in a frame. -/
def FrameResult.loads (result : FrameResult ι) : List String := loadsOf result.calls

/-- What was loaded between two moments of a session: addresses that had not been tried, each of them
once, and they and all others that had been tried are tried now. -/
structure Tries (v w : Viewer ι) (urls : List String) : Prop where
  once : urls.Nodup
  fresh : ∀ url ∈ urls, v.textures.lookup url = none
  kept : ∀ url came, v.textures.lookup url = some came → w.textures.lookup url = some came
  tried : ∀ url, (w.textures.lookup url).isSome = true →
    (v.textures.lookup url).isSome = true ∨ url ∈ urls
  done : ∀ url ∈ urls, (w.textures.lookup url).isSome = true

variable {load : String → Option ι} {v w x : Viewer ι}

theorem Tries.of_textures (h : w.textures = v.textures) : Tries v w [] where
  once := List.nodup_nil
  fresh := fun _ hurl => absurd hurl List.not_mem_nil
  kept := fun url came hcame => by rw [h, hcame]
  tried := fun url htried => Or.inl (by rwa [h] at htried)
  done := fun _ hurl => absurd hurl List.not_mem_nil

/-- What has been tried stays tried. -/
theorem Tries.isSome {urls : List String} (h : Tries v w urls) {url : String}
    (htried : (v.textures.lookup url).isSome = true) : (w.textures.lookup url).isSome = true := by
  obtain ⟨came, hcame⟩ := Option.isSome_iff_exists.1 htried
  rw [h.kept url came hcame]
  rfl

/-- Nothing is loaded again later. -/
theorem Tries.trans {urls more : List String} (h : Tries v w urls) (k : Tries w x more) :
    Tries v x (urls ++ more) where
  once := by
    refine List.nodup_append.2 ⟨h.once, k.once, ?_⟩
    rintro url hurl _ hmore rfl
    have hdone := h.done url hurl
    rw [k.fresh url hmore] at hdone
    cases hdone
  fresh := by
    intro url hurl
    rcases List.mem_append.1 hurl with hfirst | hlater
    · exact h.fresh url hfirst
    · -- what is fresh later was fresh before
      cases hcame : v.textures.lookup url with
      | none => rfl
      | some came =>
        have hnone := k.fresh url hlater
        rw [h.kept url came hcame] at hnone
        cases hnone
  kept := fun url came hcame => k.kept url came (h.kept url came hcame)
  tried := by
    intro url htried
    rcases k.tried url htried with hbefore | hlater
    · exact (h.tried url hbefore).imp_right (List.mem_append_left more)
    · exact Or.inr (List.mem_append_right urls hlater)
  done := by
    intro url hurl
    rcases List.mem_append.1 hurl with hfirst | hlater
    · exact k.isSome (h.done url hfirst)
    · exact k.done url hlater

/-! ## The loads of a frame

Only requests lead to loads, and only those for addresses that have not been tried. -/

/-- What was tried is what its load gave at that time. -/
def Gives (load : String → Option ι) (urls : List String) (w : Viewer ι) : Prop :=
  ∀ url ∈ urls, w.textures.lookup url = some (load url)

/-- An address is loaded exactly if it has not been tried. -/
theorem tries_loadOnce (load : String → Option ι) (url : String) (v : Viewer ι) :
    let urls := loadsOf (v.loadOnce load url).2
    Tries v (v.loadOnce load url).1 urls ∧ Gives load urls (v.loadOnce load url).1 ∧
      ((v.loadOnce load url).1.textures.lookup url).isSome = true := by
  unfold loadOnce
  by_cases htried : (v.textures.lookup url).isSome = true
  · rw [if_pos htried]
    exact ⟨.of_textures rfl, fun _ hurl => absurd hurl List.not_mem_nil, htried⟩
  · rw [if_neg htried]
    have hnone : v.textures.lookup url = none := Option.not_isSome_iff_eq_none.1 htried
    intro urls
    have hurls : urls = [url] := rfl
    rw [hurls]
    refine ⟨⟨List.nodup_singleton url, ?_, ?_, ?_, ?_⟩, ?_, ?_⟩
    · exact List.forall_mem_singleton.2 hnone
    -- the new texture stands first and hides nothing, as its address had none
    · intro other came hcame
      have hother : other ≠ url := by
        rintro rfl
        rw [hnone] at hcame
        cases hcame
      rw [Json.lookup_cons_eq_ite, if_neg hother, hcame]
    · intro other hother
      rw [Json.lookup_cons_eq_ite] at hother
      by_cases heq : other = url
      · exact Or.inr (List.mem_singleton.2 heq)
      · rw [if_neg heq] at hother
        exact Or.inl hother
    · exact List.forall_mem_singleton.2 (by rw [List.lookup_cons_self]; rfl)
    · exact List.forall_mem_singleton.2 List.lookup_cons_self
    · rw [List.lookup_cons_self]
      rfl

/-- All requests of a frame are tried when they have been answered. -/
theorem tries_answerAll (load : String → Option ι) (urls : List String) (v : Viewer ι) :
    let loads := loadsOf (answerAll load urls v).2
    Tries v (answerAll load urls v).1 loads ∧ Gives load loads (answerAll load urls v).1 ∧
      ∀ url ∈ urls, ((answerAll load urls v).1.textures.lookup url).isSome = true := by
  induction urls generalizing v with
  | nil =>
    exact ⟨.of_textures rfl, fun _ hurl => absurd hurl List.not_mem_nil,
      fun _ hurl => absurd hurl List.not_mem_nil⟩
  | cons url urls ih =>
    obtain ⟨hfirst, hgives, htried⟩ := tries_loadOnce load url v
    obtain ⟨hrest, hgivesRest, htriedRest⟩ := ih ((v.loadOnce load url).1.answer url)
    -- an answer loads nothing
    have hanswer : Tries (v.loadOnce load url).1 ((v.loadOnce load url).1.answer url) [] :=
      .of_textures (answer_keeps url _).1
    have hlater := hanswer.trans hrest
    rw [answerAll_cons]
    dsimp only
    rw [loadsOf_append]
    refine ⟨hfirst.trans hlater, ?_, ?_⟩
    · intro other hother
      rcases List.mem_append.1 hother with hnow | hthen
      · exact hlater.kept other _ (hgives other hnow)
      · exact hgivesRest other hthen
    · exact List.forall_mem_cons.2 ⟨hlater.isSome htried, htriedRest⟩

theorem loads_shown (t : Turn ι) (v : Viewer ι) :
    (v.shown t.load t.window).1.loads = loadsOf (v.refreshed t.load).2 := by
  rw [FrameResult.loads, calls_shown, loadsOf_append]
  change _ ++ loadsOf (List.flatMap _ _) = _
  rw [loadsOf_windowCalls, List.append_nil]

/-- The loads of a frame, and what they give. -/
theorem tries_shown (t : Turn ι) (v : Viewer ι) :
    Tries v (v.shown t.load t.window).2 (v.shown t.load t.window).1.loads ∧
      Gives t.load (v.shown t.load t.window).1.loads (v.shown t.load t.window).2 ∧
      ∀ url ∈ v.renderer.images.requests,
        ((v.shown t.load t.window).2.textures.lookup url).isSome = true := by
  obtain ⟨htries, hgives, htried⟩ := tries_answerAll t.load v.renderer.images.requests v.handedOut
  rw [loads_shown, viewer_shown]
  -- the textures of both viewers are those before and after the answers
  exact ⟨⟨htries.once, htries.fresh, htries.kept, htries.tried, htries.done⟩, hgives, htried⟩

/-- **Loads of a session**: no address is loaded twice. -/
theorem tries_through (ts : List (Turn ι)) (v : Viewer ι) :
    Tries v (v.through ts) ((v.play ts).flatMap FrameResult.loads) := by
  induction ts generalizing v with
  | nil => exact .of_textures rfl
  | cons t ts ih =>
    rw [play, List.flatMap_cons]
    exact (tries_shown t v).1.trans (ih _)

/-! ## The answers of a frame

A request is answered while the table still grows. But entries never change, so its answer can be read off
the table of any later moment. -/

/-- Every request is answered with what has come of its address in the end. -/
theorem replies_eq (load : String → Option ι) (urls : List String) (v : Viewer ι) :
    replies load urls v =
      urls.map fun url => reply url ((answerAll load urls v).1.textures.lookup url).join := by
  induction urls generalizing v with
  | nil => rfl
  | cons url urls ih =>
    obtain ⟨-, -, htried⟩ := tries_loadOnce load url v
    obtain ⟨came, hcame⟩ := Option.isSome_iff_exists.1 htried
    have hanswer : ((v.loadOnce load url).1.answer url).textures.lookup url = some came := by
      rw [(answer_keeps url _).1, hcame]
    -- what the load gave is still there when all requests have been answered
    have hkept := (tries_answerAll load urls ((v.loadOnce load url).1.answer url)).1.kept url came hanswer
    rw [replies, ih, List.map_cons, answerAll_cons, hcame, hkept]

/-- The calls of a frame, told by the textures of any later moment. -/
theorem frameCalls_eq {t : Turn ι} {v x : Viewer ι} {urls : List String}
    (h : Tries (v.shown t.load t.window).2 x urls) :
    v.frameCalls t =
      .drain :: v.renderer.images.requests.map (fun url => reply url (x.textures.lookup url).join) ++
        v.drawCalls t := by
  obtain ⟨-, -, htried⟩ := tries_shown t v
  rw [frameCalls, replies_eq]
  congr 2
  apply List.map_congr_left
  intro url hurl
  obtain ⟨came, hcame⟩ := Option.isSome_iff_exists.1 (htried url hurl)
  have hthen : ((answerAll t.load v.renderer.images.requests v.handedOut).1.textures.lookup url) =
      some came := by
    rw [viewer_shown] at hcame
    exact hcame
  rw [hthen, h.kept url came hcame]

/-! ## The requests of the next frame

A frame hands out all requests at its start. What waits at its end is what its passes asked for, the one
that it asked for itself and those that its answers repeated. -/

theorem drained_eq_nil {cs : List (RendererCall Float ι)} (h : ∀ d ∈ cs, d ≠ .drain)
    (r : Renderer Float ι) : r.drained cs = [] := by
  induction cs generalizing r with
  | nil => rfl
  | cons d cs ih =>
    obtain ⟨hd, hrest⟩ := List.forall_mem_cons.1 h
    have hfirst : r.drainedBy d = [] := by
      cases d with
      | drain => exact absurd rfl hd
      | _ => rfl
    rw [Renderer.drained, Renderer.along, hfirst]
    exact ih hrest (r.call d)

theorem reply_ne_drain (url : String) (came : Option ι) : reply url came ≠ .drain := by
  intro h
  cases came <;> cases h

/-- Nothing but the start of a frame hands out requests. -/
theorem drained_frameCalls (t : Turn ι) (v : Viewer ι) :
    v.renderer.drained (v.frameCalls t) = v.renderer.images.requests := by
  have hothers : ∀ d ∈ replies t.load v.renderer.images.requests v.handedOut ++ v.drawCalls t,
      d ≠ .drain := by
    rw [replies_eq]
    intro d hd hdrain
    rw [hdrain] at hd
    rcases List.mem_append.1 hd with hreply | hdraw
    · obtain ⟨url, -, heq⟩ := List.mem_map.1 hreply
      exact reply_ne_drain _ _ heq
    · simp [drawCalls] at hdraw
  have hrest := drained_eq_nil hothers (v.renderer.call .drain)
  rw [frameCalls, List.cons_append, Renderer.drained, Renderer.along]
  exact (congrArg _ hrest).trans (List.append_nil _)

/-- The requests that wait for the next frame are those of the passes that were run in this one. -/
theorem requests_shown (t : Turn ι) {v : Viewer ι}
    (htells : v.renderer.canvas.reportsTransform = true) :
    (v.shown t.load t.window).2.renderer.images.requests =
      (v.renderer.executed (v.frameCalls t)).filterMap Op.source? := by
  have himages : (v.shown t.load t.window).2.renderer.images =
      (v.renderer.calls (v.frameCalls t)).images :=
    (keeps_of_heard (v := (v.frame t.load t.window).1) (heard_frame t htells)).2
  have hleaves := (Renderer.leaves_calls htells (v.frameCalls t)).requests
  rw [drained_frameCalls] at hleaves
  rw [himages]
  exact List.append_cancel_left hleaves

/-! ## Sessions

The answers of all frames come from one table, the one at the end of the session, and that table is the
outcome of each address. -/

theorem overlay_through (ts : List (Turn ι)) (v : Viewer ι) : (v.through ts).overlay = v.overlay := by
  induction ts generalizing v with
  | nil => rfl
  | cons t ts ih =>
    refine (ih _).trans ?_
    change (v.shown t.load t.window).2.overlay = v.overlay
    rw [viewer_shown]
    exact overlay_answerAll t.load _ _

/-- **One load for an address, one answer for a request.** Take a session with any overlay and options,
any number of frames, and loads that may turn out differently each time. No address is loaded twice, and
each address has one outcome, that of its load. In each frame the renderer is, but for the lines that
the viewer adds to the log, as these calls leave it: the requests that wait are handed out, each of them
is answered once, in order and with the outcome of its address, which has been loaded in this frame or
before it; then the overlay is set, a pass is asked for and its commands are taken. In the first frame
the field's art waits, and in each later one exactly what the passes of the frame before have asked for,
be it the one that was asked for or one that an answer repeated. If a load gives the same every time, the
turns are the frames that a viewer shows. -/
theorem answers_each_request (fileText : String → Except String String) (arguments : List String)
    (v : Viewer ι) (hstart : start fileText arguments = .ok v) (turns : List (Turn ι)) :
    ∃ outcome : String → Option ι,
      ((v.play turns).flatMap FrameResult.loads).Nodup ∧
      v.renderer.images.requests = [v.renderer.options.fieldImage] ∧
      (∀ load windows, turns = windows.map (Turn.mk load) → v.frames load windows = v.play turns) ∧
      ∀ before t later, turns = before ++ t :: later →
        let w := v.through before
        let next := v.through (before ++ [t])
        let waiting := w.renderer.images.requests
        let calls := .drain :: waiting.map (fun url => reply url (outcome url)) ++
          [.setOverlay (v.overlayAt t.window.time), .render t.size, .takeCommands]
        (∀ url ∈ (w.shown t.load t.window).1.loads, outcome url = t.load url) ∧
        (∀ url ∈ waiting, url ∈ (v.play (before ++ [t])).flatMap FrameResult.loads) ∧
        (w.frame t.load t.window).1.heard = (w.renderer.calls calls).withoutLines ownLines ∧
        next.renderer.images.requests = (w.renderer.executed calls).filterMap Op.source? := by
  obtain ⟨options, overlay?, rfl⟩ := ensures_start_begun fileText arguments v hstart
  refine ⟨fun url => (((begun options overlay?).through turns).textures.lookup url).join,
    (tries_through turns _).once, ?_, fun load windows hturns => ?_, ?_⟩
  · rw [requests_begun]
    cases overlay? <;> rfl
  · rw [hturns, frames_eq_play]
  · rintro before t later rfl w next waiting calls
    have htells : w.renderer.canvas.reportsTransform = true :=
      tells_through before (tells_begun options overlay?)
    have hnext : next = (w.shown t.load t.window).2 := through_append before [t] _
    obtain ⟨-, hgives, htried⟩ := tries_shown t w
    -- what is known after this frame is known in the end
    have hlater : Tries (w.shown t.load t.window).2 ((begun options overlay?).through
        (before ++ t :: later)) ((next.play later).flatMap FrameResult.loads) := by
      rw [through_append, hnext]
      exact tries_through later _
    have hcalls : w.frameCalls t = calls := by
      rw [frameCalls_eq hlater, drawCalls, overlayAt, overlay_through]
      rfl
    refine ⟨?_, ?_, ?_, ?_⟩
    · intro url hurl
      dsimp only
      rw [hlater.kept url _ (hgives url hurl), Option.join_some]
    · intro url hurl
      have hknown := (tries_through (before ++ [t]) (begun options overlay?)).tried url
      rw [show (begun options overlay?).through (before ++ [t]) = _ from hnext] at hknown
      -- a session begins with no textures
      rcases hknown (htried url hurl) with hbegun | hloaded
      · rw [textures_begun] at hbegun
        cases hbegun
      · exact hloaded
    · rw [heard_frame t htells, hcalls]
    · rw [hnext, requests_shown t htells, hcalls]

/-- The field's art cannot be loaded in the first frame, but could be later. The overlay asks for the
same art in every frame, and in the second one it is told the failure again. -/
theorem answers_first_outcome :
    let overlay : Overlay Float := ⟨[.image "field.png" .empty]⟩
    let fileText : String → Except String String := fun _ => .ok (overlay.encode?.getD "")
    let v : Viewer String := opened .standard overlay
    let window : WindowState := ⟨800, 600, 1, 0⟩
    let fails : Turn String := ⟨fun _ => none, window⟩
    let loads : Turn String := ⟨fun _ => some "art", window⟩
    let w := v.through [fails]
    start fileText ["overlay.json"] = .ok v ∧ w.renderer.images.requests = ["field.png"] ∧
      (w.frame loads.load window).1.heard =
        (w.renderer.calls [.drain, .imageFailed "field.png", .setOverlay overlay, .render loads.size,
          .takeCommands]).withoutLines ownLines := by
  intro overlay fileText v window fails loads w
  have hfinite : ∀ op ∈ overlay.ops, ∀ x ∈ op.numbers, x.isFinite = true := by
    decide +kernel
  have htext : fileText "overlay.json" = .ok (overlay.encode?.getD "") := rfl
  have hkept : ∀ op ∈ overlay.ops, op.reread = op := by
    simp [overlay, Op.reread_image_empty]
  have hstart : start fileText ["overlay.json"] = .ok v := start_encoded htext rfl hfinite hkept
  obtain ⟨outcome, -, hfirst, -, hframes⟩ :=
    answers_each_request fileText ["overlay.json"] v hstart [fails, loads]
  obtain ⟨houtcome, hloaded, -, hnext⟩ := hframes [] fails [loads] rfl
  obtain ⟨-, -, hframe, -⟩ := hframes [fails] loads [] rfl
  have hfails : outcome "field.png" = none := by
    apply houtcome
    have hmem := hloaded "field.png" (hfirst ▸ List.mem_cons_self)
    simpa [play, through] using hmem
  have hwaits : w.renderer.images.requests = ["field.png"] := by
    refine hnext.trans ?_
    rw [show (v.through []).renderer.images.requests = ["field.png"] from hfirst, List.map_cons, hfails]
    rfl
  refine ⟨hstart, hwaits, hframe.trans ?_⟩
  rw [hwaits, List.map_cons, hfails]
  rfl

end Viewer

end FieldDiagram
