import FieldDiagram.Proofs.Renderer.Logged
import FieldDiagram.Proofs.Viewer.Steady
/-!
# A session as a history of calls

A viewer is one host of a renderer among others: in each frame it hands out the requests that wait,
answers them one by one, sets the overlay, asks for a pass and takes its commands. So a session comes to
a history of calls on its renderer, and what holds after every history holds in every session. But for
the log, to which the viewer adds lines of its own, the renderer of a session is the one that these
calls leave: `unlogged_through`. The line about a repeated pass that was aborted is one of those lines,
and it stands in the log only if the history repeats a pass: `repeats_of_mem_log_play`.

What a load would give may be different each time that it is tried, so here every frame has loads of its
own.
-/

namespace FieldDiagram

variable {ι : Type}

/-! ## Calls that repeat a pass

Only an image that comes while a pass waits for it repeats one. Whether some calls do is a question about
the renderer that they meet, so it is asked along the calls. -/

namespace Renderer

variable {α : Type} [Scalar α]

/-- An image that comes in the course of these calls repeats a pass. -/
def Repeats (r : Renderer α ι) (cs : List (RendererCall α ι)) : Prop :=
  ∃ before url image later size, cs = before ++ .imageLoaded url image :: later ∧
    ((r.calls before).images.complete url image).1 = some size

theorem Repeats.head {r : Renderer α ι} {url : String} {image : ι} {size : SurfaceSize α}
    (h : (r.images.complete url image).1 = some size) (cs : List (RendererCall α ι)) :
    r.Repeats (.imageLoaded url image :: cs) := ⟨[], url, image, cs, size, rfl, h⟩

/-- What is repeated in the first calls is repeated in all of them. -/
theorem Repeats.append {r : Renderer α ι} {cs : List (RendererCall α ι)} (h : r.Repeats cs)
    (ds : List (RendererCall α ι)) : r.Repeats (cs ++ ds) := by
  obtain ⟨before, url, image, later, size, rfl, hsize⟩ := h
  exact ⟨before, url, image, later ++ ds, size, by simp, hsize⟩

/-- What is repeated after some calls is repeated in all of them. The log has no say in it. -/
theorem Repeats.prepend {r q : Renderer α ι} {ds : List (RendererCall α ι)} (h : q.Repeats ds)
    (cs : List (RendererCall α ι)) (htells : q.canvas.reportsTransform = true)
    (hq : q.unlogged = (r.calls cs).unlogged) : r.Repeats (cs ++ ds) := by
  obtain ⟨before, url, image, later, size, rfl, hsize⟩ := h
  refine ⟨cs ++ before, url, image, later, size, by simp, ?_⟩
  have himages := (keeps_of_unlogged (unlogged_calls htells hq before)).2
  rw [calls, List.foldl_append]
  exact himages ▸ hsize

end Renderer

/-! ## Turns

The frames of a session, with loads of their own. The frames that the program shows are those turns in which
a load gives the same every time (`frames_eq_play`), so what is proved of turns holds of them. -/

/-- What a viewer meets in one frame: the window, and what each load would give. -/
structure Turn (ι : Type) where
  load : String → Option ι
  window : WindowState

/-- The size of the window of a turn. -/
def Turn.size (t : Turn ι) : SurfaceSize Float :=
  windowSize t.window.width t.window.height t.window.scale

namespace Viewer

/-- Turn after turn: what the frames show. -/
def play : List (Turn ι) → Viewer ι → List (FrameResult ι)
  | [], _ => []
  | t :: ts, v => (v.shown t.load t.window).1 :: play ts (v.shown t.load t.window).2

/-- A viewer after some turns. -/
def through (ts : List (Turn ι)) (v : Viewer ι) : Viewer ι :=
  ts.foldl (fun v t => (v.shown t.load t.window).2) v

/-- Frames whose loads give the same every time. -/
theorem frames_eq_play (load : String → Option ι) (windows : List WindowState) (v : Viewer ι) :
    v.frames load windows = v.play (windows.map (Turn.mk load)) := by
  induction windows generalizing v with
  | nil => rfl
  | cons window windows ih =>
    rw [frames_cons, ih, List.map_cons, play]

theorem through_append (ts us : List (Turn ι)) (v : Viewer ι) :
    v.through (ts ++ us) = (v.through ts).through us := List.foldl_append

/-! ## The calls of a frame

What a frame does to the renderer, written down as calls before any of it is proved. The answers depend on
the textures, and these grow while the requests are answered one by one. -/

/-- The call that answers a request for an address with what came of its load. -/
def reply (url : String) : Option ι → RendererCall Float ι
  | some texture => .imageLoaded url texture
  | none => .imageFailed url

/-- The calls by which a viewer answers requests. -/
def replies (load : String → Option ι) : List String → Viewer ι → List (RendererCall Float ι)
  | [], _ => []
  | url :: urls, v =>
    let loaded := (v.loadOnce load url).1
    reply url (loaded.textures.lookup url).join :: replies load urls (loaded.answer url)

/-- A viewer that has handed out the requests to its renderer and not answered any. -/
def handedOut (v : Viewer ι) : Viewer ι :=
  { v with renderer := { v.renderer with images := v.renderer.images.drain.2 } }

/-- The calls of a frame after the requests have been answered. -/
def drawCalls (t : Turn ι) (v : Viewer ι) : List (RendererCall Float ι) :=
  [.setOverlay (v.overlayAt t.window.time), .render t.size, .takeCommands]

/-- All calls of a frame. -/
def frameCalls (t : Turn ι) (v : Viewer ι) : List (RendererCall Float ι) :=
  .drain :: replies t.load v.renderer.images.requests v.handedOut ++ v.drawCalls t

/-- The calls of some turns. -/
def history : List (Turn ι) → Viewer ι → List (RendererCall Float ι)
  | [], _ => []
  | t :: ts, v => v.frameCalls t ++ history ts (v.shown t.load t.window).2

theorem history_append (ts us : List (Turn ι)) (v : Viewer ι) :
    v.history (ts ++ us) = v.history ts ++ (v.through ts).history us := by
  induction ts generalizing v with
  | nil => rfl
  | cons t ts ih =>
    rw [List.cons_append, history, history, ih, List.append_assoc]
    rfl

/-! ## What the calls leave

The viewer writes lines of its own into the log of the renderer, and a pass never looks at the log. So the
two are compared with those lines taken out, and each part of a frame is shown to be its call. -/

/-- The lines that a viewer adds to the log by itself. -/
def ownLines : List LogLine := [overlayLoaded, textureFailed, passAborted, deferredAborted]

/-- The renderer of a viewer with nothing in its log but what it wrote there itself. -/
def heard (v : Viewer ι) : Renderer Float ι := v.renderer.withoutLines ownLines

variable {load : String → Option ι}

theorem heard_note {line : LogLine} (h : line ∈ ownLines) (v : Viewer ι) :
    (v.note line).heard = v.heard := by
  have hnone : [line].filter (· ∉ ownLines) = [] := by simp [h]
  rw [heard, heard, Renderer.withoutLines, Renderer.withoutLines, note, List.filter_append, hnone,
    List.append_nil]

theorem heard_noteIf {ε : Type} (e : Option ε) {line : LogLine} (h : line ∈ ownLines)
    (v : Viewer ι) : (noteIf e line v).heard = v.heard := by
  unfold noteIf
  split
  · exact heard_note h v
  · rfl

theorem heard_loadOnce (load : String → Option ι) (url : String) (v : Viewer ι) :
    (v.loadOnce load url).1.heard = v.heard := by
  unfold loadOnce
  by_cases htried : (v.textures.lookup url).isSome = true
  · rw [if_pos htried]
  · rw [if_neg htried]
    dsimp only
    split
    · exact heard_note (by decide) v
    · rfl

/-- An answer is the one call that goes with what came of the load. -/
theorem heard_answer (url : String) (v : Viewer ι) :
    (v.answer url).heard =
      (v.renderer.call (reply url (v.textures.lookup url).join)).withoutLines ownLines := by
  unfold answer
  cases (v.textures.lookup url).join with
  | none => rfl
  | some texture => exact heard_noteIf _ (by decide) _

theorem noteIf_keeps {ε : Type} (e : Option ε) (line : LogLine) (v : Viewer ι) :
    (noteIf e line v).textures = v.textures ∧ (noteIf e line v).overlay = v.overlay := by
  unfold noteIf
  split <;> exact ⟨rfl, rfl⟩

theorem answer_keeps (url : String) (v : Viewer ι) :
    (v.answer url).textures = v.textures ∧ (v.answer url).overlay = v.overlay := by
  unfold answer
  split
  · exact noteIf_keeps _ _ _
  · exact ⟨rfl, rfl⟩

theorem overlay_loadOnce (load : String → Option ι) (url : String) (v : Viewer ι) :
    (v.loadOnce load url).1.overlay = v.overlay := by
  unfold loadOnce
  split
  · rfl
  · dsimp only
    split <;> rfl

theorem overlay_answerAll (load : String → Option ι) (urls : List String) (v : Viewer ι) :
    (answerAll load urls v).1.overlay = v.overlay := by
  induction urls generalizing v with
  | nil => rfl
  | cons url urls ih =>
    rw [answerAll_cons, ih, (answer_keeps url _).2, overlay_loadOnce]

theorem keeps_of_heard {v : Viewer ι} {r : Renderer Float ι}
    (h : v.heard = r.withoutLines ownLines) :
    v.renderer.canvas = r.canvas ∧ v.renderer.images = r.images :=
  Renderer.keeps_of_unlogged (Renderer.unlogged_of_withoutLines h)

theorem tells_of_heard {v : Viewer ι} {r : Renderer Float ι}
    (h : v.heard = r.withoutLines ownLines) (htells : r.canvas.reportsTransform = true) :
    v.renderer.canvas.reportsTransform = true := by
  rw [(keeps_of_heard h).1, htells]

/-- All answers together leave what their calls leave. -/
theorem heard_answerAll (urls : List String) {v : Viewer ι}
    (htells : v.renderer.canvas.reportsTransform = true) :
    (answerAll load urls v).1.heard =
      (v.renderer.calls (replies load urls v)).withoutLines ownLines := by
  induction urls generalizing v with
  | nil => rfl
  | cons url urls ih =>
    have hloaded : (v.loadOnce load url).1.heard = v.renderer.withoutLines ownLines :=
      heard_loadOnce load url v
    have hanswered := heard_answer url (v.loadOnce load url).1
    generalize hreply : reply url ((v.loadOnce load url).1.textures.lookup url).join = d at hanswered
    have hsame : ((v.loadOnce load url).1.answer url).heard =
        (v.renderer.call d).withoutLines ownLines :=
      hanswered.trans (Renderer.withoutLines_calls (tells_of_heard hloaded htells) hloaded [d])
    have htellsAnswered :
        ((v.loadOnce load url).1.answer url).renderer.canvas.reportsTransform = true :=
      tells_of_heard hsame (by rw [(Renderer.options_call _ d).2, htells])
    rw [answerAll_cons, ih htellsAnswered, replies, hreply]
    exact Renderer.withoutLines_calls htellsAnswered hsame _

theorem heard_refreshed (load : String → Option ι) {v : Viewer ι}
    (htells : v.renderer.canvas.reportsTransform = true) :
    (v.refreshed load).1.heard =
      (v.handedOut.renderer.calls
        (replies load v.renderer.images.requests v.handedOut)).withoutLines ownLines :=
  heard_answerAll v.renderer.images.requests (v := v.handedOut) htells

theorem tells_refreshed (load : String → Option ι) {v : Viewer ι}
    (htells : v.renderer.canvas.reportsTransform = true) :
    (v.refreshed load).1.renderer.canvas.reportsTransform = true := by
  refine tells_of_heard (heard_refreshed load htells) ?_
  rw [(Renderer.options_calls _ _).2]
  exact htells

/-- **A frame is its calls**: but for the lines that the viewer adds, it leaves its renderer and the log
as these calls do. -/
theorem heard_frame (t : Turn ι) {v : Viewer ι}
    (htells : v.renderer.canvas.reportsTransform = true) :
    (v.frame t.load t.window).1.heard =
      (v.renderer.calls (v.frameCalls t)).withoutLines ownLines := by
  have hoverlay : (v.refreshed t.load).1.overlayAt t.window.time = v.overlayAt t.window.time := by
    rw [overlayAt, refreshed, overlay_answerAll]
    rfl
  have hdraw := Renderer.withoutLines_calls (tells_refreshed t.load htells)
    (heard_refreshed t.load htells) (v.drawCalls t)
  rw [frameCalls, Renderer.calls, List.foldl_append]
  refine Eq.trans ?_ hdraw
  -- the line about an abort is the viewer's own
  refine (heard_noteIf _ (by decide) _).trans ?_
  rw [drawCalls, ← hoverlay]
  rfl

/-- What is left when the log of a frame has been handed out. -/
theorem unlogged_shown (t : Turn ι) {v : Viewer ι}
    (htells : v.renderer.canvas.reportsTransform = true) :
    (v.shown t.load t.window).2.renderer.unlogged =
      (v.renderer.calls (v.frameCalls t)).unlogged :=
  Renderer.unlogged_of_withoutLines (r := (v.frame t.load t.window).1.renderer)
    (heard_frame t htells)

theorem tells_shown (t : Turn ι) {v : Viewer ι}
    (htells : v.renderer.canvas.reportsTransform = true) :
    (v.shown t.load t.window).2.renderer.canvas.reportsTransform = true := by
  refine tells_of_heard (v := (v.frame t.load t.window).1) (heard_frame t htells) ?_
  rw [(Renderer.options_calls _ _).2, htells]

theorem tells_through (ts : List (Turn ι)) {v : Viewer ι}
    (htells : v.renderer.canvas.reportsTransform = true) :
    (v.through ts).renderer.canvas.reportsTransform = true := by
  induction ts generalizing v with
  | nil => exact htells
  | cons t ts ih => exact ih (tells_shown t htells)

/-- **A session is its history**: but for the log, its renderer is the one that the calls leave. -/
theorem unlogged_through (ts : List (Turn ι)) {v : Viewer ι}
    (htells : v.renderer.canvas.reportsTransform = true) :
    (v.through ts).renderer.unlogged = (v.renderer.calls (v.history ts)).unlogged := by
  induction ts generalizing v with
  | nil => rfl
  | cons t ts ih =>
    rw [history, Renderer.calls, List.foldl_append]
    exact (ih (tells_shown t htells)).trans
      (Renderer.unlogged_calls (tells_shown t htells) (unlogged_shown t htells) _)

/-! ## The start of a session

Whatever the arguments are, the renderer of a session is a new one over an empty canvas that tells its map.
So each theorem about histories applies from the first frame on. -/

/-- A viewer that has drawn no frame yet, with an overlay to show or none. -/
def begun (options : Options Float) : Option (Overlay Float) → Viewer ι
  | some overlay => opened options overlay
  | none => ⟨.new (.empty true) options, none, []⟩

/-- Whatever its arguments, a session that starts starts like this. -/
theorem ensures_start_begun (fileText : String → Except String String) (arguments : List String) :
    Ensures (start fileText arguments) fun v : Viewer ι =>
      ∃ options overlay?, v = begun options overlay? := by
  cases arguments with
  | nil =>
    -- without arguments nothing is read, and the demonstration is shown
    exact ensures_ok ⟨.standard, none, rfl⟩
  | cons path more =>
    refine (ensures_start fileText path more).mono ?_
    rintro v ⟨options, overlay, -, rfl⟩
    exact ⟨options, some overlay, rfl⟩

/-- A session with a file that holds an overlay as it is written, if that comes back as it was. -/
theorem start_encoded {fileText : String → Except String String} {overlay : Overlay Float}
    {path text : String} (htext : fileText path = .ok text) (h : overlay.encode? = some text)
    (hfinite : ∀ op ∈ overlay.ops, ∀ x ∈ op.numbers, x.isFinite = true)
    (hkept : ∀ op ∈ overlay.ops, op.reread = op) :
    start fileText [path] = .ok (opened .standard overlay : Viewer ι) := by
  have hread : readOverlay fileText path = .ok overlay := by
    rw [readOverlay_of_text htext, Overlay.decode_of_reread_eq h hfinite hkept]
    rfl
  rw [start_singleton, hread]
  rfl

/-- A new session is a new renderer, but for the log. -/
theorem unlogged_begun (options : Options Float) (overlay? : Option (Overlay Float)) :
    (begun options overlay? : Viewer ι).renderer.unlogged =
      (Renderer.new (.empty true) options).unlogged := by
  cases overlay? <;> rfl

theorem textures_begun (options : Options Float) (overlay? : Option (Overlay Float)) :
    (begun options overlay? : Viewer ι).textures = [] := by
  cases overlay? <;> rfl

theorem tells_begun (options : Options Float) (overlay? : Option (Overlay Float)) :
    (begun options overlay? : Viewer ι).renderer.canvas.reportsTransform = true := by
  cases overlay? <;> rfl

/-- The first thing that a session asks for is the field's art. -/
theorem requests_begun (options : Options Float) (overlay? : Option (Overlay Float)) :
    (begun options overlay? : Viewer ι).renderer.images.requests = [options.fieldImage] := by
  cases overlay? <;> rfl

/-! ## The log of a session

The line about a repeated pass that was aborted can be written in one place only, and only after a pass has
been repeated. This is what makes its absence a statement about the calls. -/

theorem mem_log_noteIf {ε : Type} {e : Option ε} {noted line : LogLine} {v : Viewer ι}
    (h : line ∈ (noteIf e noted v).renderer.log) :
    line ∈ v.renderer.log ∨ (line = noted ∧ e.isSome = true) := by
  unfold noteIf at h
  by_cases he : e.isSome = true
  · rw [if_pos he] at h
    rcases List.mem_append.1 h with hold | hnew
    · exact Or.inl hold
    · exact Or.inr ⟨List.mem_singleton.1 hnew, he⟩
  · rw [if_neg he] at h
    exact Or.inl h

/-- Only an answer that repeats a pass can have the line about it written. -/
theorem complete_of_mem_log_answer {url : String} {v : Viewer ι}
    (h : deferredAborted ∈ (v.answer url).renderer.log) :
    deferredAborted ∈ v.renderer.log ∨ ∃ texture size,
      (v.textures.lookup url).join = some texture ∧
        (v.renderer.images.complete url texture).1 = some size := by
  unfold answer at h
  cases hloaded : (v.textures.lookup url).join with
  | none =>
    rw [hloaded] at h
    left
    rcases List.mem_append.1 h with hold | hnew
    · exact hold
    · -- a failure is noted in other words
      have hlines : deferredAborted ∉ v.renderer.images.failureLog url := by
        rw [ImageCache.failureLog]
        split <;> decide
      exact absurd hnew hlines
  | some texture =>
    rw [hloaded] at h
    dsimp only at h
    rw [Renderer.imageLoaded_eq] at h
    cases hcomplete : (v.renderer.images.complete url texture).1 with
    | some size => exact Or.inr ⟨texture, size, rfl, hcomplete⟩
    | none =>
      rw [hcomplete] at h
      left
      rcases mem_log_noteIf h with htold | ⟨-, hsome⟩
      · rcases List.mem_append.1 htold with hold | hnew
        · exact hold
        · have hlines : deferredAborted ∉ v.renderer.images.completionLog url := by
            rw [ImageCache.completionLog]
            cases slotWants v.renderer.images.alt url <;>
              cases slotWants v.renderer.images.base url <;> decide
          exact absurd hnew hlines
      · cases hsome

theorem mem_log_loadOnce {url : String} {v : Viewer ι}
    (h : deferredAborted ∈ (v.loadOnce load url).1.renderer.log) :
    deferredAborted ∈ v.renderer.log := by
  unfold loadOnce at h
  by_cases htried : (v.textures.lookup url).isSome = true
  · rwa [if_pos htried] at h
  · rw [if_neg htried] at h
    dsimp only at h
    split at h
    · rcases List.mem_append.1 h with hold | hnew
      · exact hold
      · exact absurd hnew (by decide)
    · exact h

theorem repeats_of_mem_log_answerAll (urls : List String) {v : Viewer ι}
    (htells : v.renderer.canvas.reportsTransform = true)
    (h : deferredAborted ∈ (answerAll load urls v).1.renderer.log) :
    deferredAborted ∈ v.renderer.log ∨ v.renderer.Repeats (replies load urls v) := by
  induction urls generalizing v with
  | nil => exact Or.inl h
  | cons url urls ih =>
    have hloaded : (v.loadOnce load url).1.heard = v.renderer.withoutLines ownLines :=
      heard_loadOnce load url v
    have hnoted : deferredAborted ∈ (v.loadOnce load url).1.renderer.log →
        deferredAborted ∈ v.renderer.log := mem_log_loadOnce
    rw [answerAll_cons] at h
    rw [replies]
    generalize (v.loadOnce load url).1 = loaded at h hloaded hnoted ⊢
    have hcall := (heard_answer url loaded).trans
      (Renderer.withoutLines_calls (tells_of_heard hloaded htells) hloaded [_])
    have htellsAnswered : (loaded.answer url).renderer.canvas.reportsTransform = true :=
      tells_of_heard hcall ((Renderer.options_calls _ [_]).2.trans htells)
    rcases ih htellsAnswered h with hfirst | hrest
    · rcases complete_of_mem_log_answer hfirst with hold | ⟨texture, size, hjoin, hsize⟩
      · exact Or.inl (hnoted hold)
      · -- this very answer repeats a pass
        rw [(keeps_of_heard hloaded).2] at hsize
        rw [hjoin]
        exact Or.inr (Renderer.Repeats.head hsize _)
    · -- one of the answers after it does
      exact Or.inr (hrest.prepend [_] htellsAnswered (Renderer.unlogged_of_withoutLines hcall))

theorem repeats_of_mem_log_shown (t : Turn ι) {v : Viewer ι}
    (htells : v.renderer.canvas.reportsTransform = true)
    (h : deferredAborted ∈ (v.shown t.load t.window).1.log) :
    deferredAborted ∈ v.renderer.log ∨ v.renderer.Repeats (v.frameCalls t) := by
  have htellsReady : (v.ready t.load t.window.time).canvas.reportsTransform = true :=
    tells_refreshed t.load htells
  rcases mem_log_noteIf h with hdrawn | ⟨hline, -⟩
  · rcases Renderer.mem_log_render htellsReady _ hdrawn with hready | hpass
    · rcases repeats_of_mem_log_answerAll v.renderer.images.requests (v := v.handedOut) htells hready
        with hold | hrepeats
      · exact Or.inl hold
      · exact Or.inr ((hrepeats.append (v.drawCalls t)).prepend [.drain] htells rfl)
    · exact absurd hpass (by decide)
  · exact absurd hline (by decide)

/-- **A session that repeats no pass says so of none.** If the line about a repeated pass that was
aborted is in the log of a frame, a call of the session repeats a pass. -/
theorem repeats_of_mem_log_play (ts : List (Turn ι)) {v : Viewer ι}
    (htells : v.renderer.canvas.reportsTransform = true) {result : FrameResult ι}
    (hresult : result ∈ v.play ts) (h : deferredAborted ∈ result.log) :
    deferredAborted ∈ v.renderer.log ∨ v.renderer.Repeats (v.history ts) := by
  induction ts generalizing v with
  | nil => cases hresult
  | cons t ts ih =>
    rw [history]
    rcases List.mem_cons.1 hresult with rfl | hrest
    · rcases repeats_of_mem_log_shown t htells h with hold | hrepeats
      · exact Or.inl hold
      · exact Or.inr (hrepeats.append _)
    · rcases ih (tells_shown t htells) hrest with hleft | hrepeats
      · -- the log has been handed out with the frame
        cases hleft
      · exact Or.inr (hrepeats.prepend _ (tells_shown t htells) (unlogged_shown t htells))

end Viewer

end FieldDiagram
