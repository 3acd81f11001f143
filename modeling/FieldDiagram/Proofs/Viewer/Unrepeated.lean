import FieldDiagram.Proofs.Viewer.Requests
/-!
# No pass is repeated in a viewer

A renderer repeats a pass when the field's art comes late. In a viewer it never comes late: the field's
art is the very first thing that is asked for, so its request is answered before the first pass, and
every later answer for the same address, whoever asked for it, is the same. Either the art is there
before any pass could wait for it, or it never comes. Main statement: `repeats_no_pass`.
-/

namespace FieldDiagram

variable {ι : Type}

/-- Only a pass that was asked for waits. -/
theorem mem_of_postponed {α : Type} {fieldImage : String} {h : List (RendererCall α ι)}
    {size : SurfaceSize α} (hwaits : Postponed fieldImage h size) : .render size ∈ h := by
  obtain ⟨before, d, later, rfl, hasked, -⟩ := hwaits
  apply List.mem_append_right
  cases d with
  | render asked =>
    simp only [RendererCall.postponed?, Option.ite_none_right_eq_some] at hasked
    rw [Option.some.inj hasked.2]
    exact List.mem_cons_self
  | _ => cases hasked

namespace Viewer

/-! ## The same answer every time

A pass would be repeated by an image for the field's art after a pass has found it missing. So it is enough
that all answers for one address are the same. -/

/-- How far a load has got with a result like this. -/
def resultState : Option ι → LoadState ι
  | some texture => .loaded texture
  | none => .failed

theorem answer?_reply (url : String) (came : Option ι) (other : String) :
    (reply url came).answer? other = if other = url then some (resultState came) else none := by
  cases came <;> rfl

/-- All answers of a session for an address are the same, that of any later moment. -/
theorem answer?_of_mem_history {ts : List (Turn ι)} {v x : Viewer ι} {urls : List String}
    (h : Tries (v.through ts) x urls) {d : RendererCall Float ι} (hd : d ∈ v.history ts)
    {url : String} {state : LoadState ι} (hstate : d.answer? url = some state) :
    state = resultState (x.textures.lookup url).join := by
  induction ts generalizing v with
  | nil => cases hd
  | cons t ts ih =>
    rcases List.mem_append.1 hd with hnow | hlater
    · rw [frameCalls_eq ((tries_through ts _).trans h)] at hnow
      rcases List.mem_append.1 hnow with hanswer | hdraw
      · rcases List.mem_cons.1 hanswer with rfl | hreply
        · cases hstate
        · obtain ⟨asked, -, rfl⟩ := List.mem_map.1 hreply
          rw [answer?_reply, Option.ite_none_right_eq_some] at hstate
          rw [hstate.1, ← Option.some.inj hstate.2]
      · -- the calls that draw answer nothing
        simp only [drawCalls, List.mem_cons, List.not_mem_nil, or_false] at hdraw
        rcases hdraw with rfl | rfl | rfl <;> cases hstate
    · exact ih h hlater

/-! ## The first answer

The request for the field's art is made when the renderer is made, and so it is the first that is answered. -/

/-- A session begins with the answer for the field's art. -/
theorem exists_history_begun (options : Options Float) (overlay? : Option (Overlay Float))
    (t : Turn ι) (ts : List (Turn ι)) :
    ∃ came more, (begun options overlay?).history (t :: ts) =
      .drain :: reply options.fieldImage came :: more := by
  rw [history, frameCalls, requests_begun]
  exact ⟨_, _, rfl⟩

/-- Once a pass has been asked for, the field's art has been answered for. -/
theorem exists_answer_of_render {options : Options Float} {overlay? : Option (Overlay Float)}
    {ts : List (Turn ι)} {before later : List (RendererCall Float ι)}
    (hsplit : (begun options overlay?).history ts = before ++ later) {size : SurfaceSize Float}
    (hrender : .render size ∈ before) :
    ∃ d ∈ before, (d.answer? options.fieldImage).isSome = true := by
  cases ts with
  | nil =>
    obtain ⟨rfl, -⟩ := List.append_eq_nil_iff.1 hsplit.symm
    cases hrender
  | cons t ts =>
    obtain ⟨came, more, hhistory⟩ := exists_history_begun options overlay? t ts
    rw [hhistory] at hsplit
    rcases before with _ | ⟨first, _ | ⟨second, before⟩⟩
    · cases hrender
    · -- the first call hands out the requests
      obtain ⟨rfl, -⟩ := List.cons.inj hsplit
      cases List.mem_singleton.1 hrender
    · obtain ⟨-, hrest⟩ := List.cons.inj hsplit
      obtain ⟨rfl, -⟩ := List.cons.inj hrest
      refine ⟨_, List.mem_cons_of_mem _ List.mem_cons_self, ?_⟩
      rw [answer?_reply, if_pos rfl]
      rfl

/-- **A session repeats no pass.** -/
theorem not_repeats_history (options : Options Float) (overlay? : Option (Overlay Float))
    (ts : List (Turn ι)) :
    ¬ (begun options overlay?).renderer.Repeats ((begun options overlay?).history ts) := by
  rintro ⟨before, url, image, later, size, hsplit, hsize⟩
  -- the renderer is a new one, so the history alone tells which pass waits
  have hnew := Renderer.unlogged_calls (tells_begun options overlay?)
    (unlogged_begun options overlay?) before
  rw [(Renderer.keeps_of_unlogged hnew).2] at hsize
  have hpass := (Renderer.passOf?_calls_iff rfl options before (.imageLoaded url image) size).1 hsize
  obtain ⟨image', hcall, hwaits⟩ := hpass.resolve_left nofun
  obtain ⟨rfl, rfl⟩ := RendererCall.imageLoaded.inj hcall
  -- the answer at hand is an image, so all answers for the field's art are
  have hanswers : ∀ d ∈ (begun options overlay?).history ts, ∀ state,
      d.answer? options.fieldImage = some state →
        state = resultState
          ((((begun options overlay?).through ts).textures.lookup options.fieldImage).join) :=
    fun d hd state hstate => answer?_of_mem_history (.of_textures rfl) hd hstate
  have hloaded := hanswers (.imageLoaded options.fieldImage image)
    (hsplit ▸ List.mem_append_right _ List.mem_cons_self) (.loaded image) (if_pos rfl)
  obtain ⟨d, hd, hanswered⟩ := exists_answer_of_render hsplit (mem_of_postponed hwaits)
  -- so the last answer before it is an image too, and no pass waits
  have hnone := image?_of_postponed hwaits
  cases hlast : latest? (RendererCall.answer? options.fieldImage) before with
  | none =>
    rw [latest?_eq_none_iff.1 hlast d hd] at hanswered
    cases hanswered
  | some state =>
    obtain ⟨last, hmem, hstate⟩ := exists_of_latest?_eq_some hlast
    have hsame := hanswers last (hsplit ▸ List.mem_append_left _ hmem) state hstate
    rw [imageOutcome, hlast, Option.getD_some, hsame, ← hloaded] at hnone
    cases hnone

/-! ## At the moment of an answer

The claim is about a viewer in the midst of answering, which is between the calls of a frame. It is reached
by a history that stops there. -/

theorem answerAll_append (load : String → Option ι) (urls more : List String) (v : Viewer ι) :
    (answerAll load (urls ++ more) v).1 = (answerAll load more (answerAll load urls v).1).1 := by
  induction urls generalizing v with
  | nil => rfl
  | cons url urls ih =>
    rw [List.cons_append, answerAll_cons, answerAll_cons]
    exact ih _

theorem replies_append (load : String → Option ι) (urls more : List String) (v : Viewer ι) :
    replies load (urls ++ more) v =
      replies load urls v ++ replies load more (answerAll load urls v).1 := by
  induction urls generalizing v with
  | nil => rfl
  | cons url urls ih =>
    rw [List.cons_append, replies, replies, ih, answerAll_cons]
    rfl

/-- The renderer at the moment of an answer is, but for the log, as the calls before it leave it. -/
theorem images_before_answer (t : Turn ι) {v : Viewer ι}
    (htells : v.renderer.canvas.reportsTransform = true) (done : List String) (url : String) :
    (((answerAll t.load done v.handedOut).1.loadOnce t.load url).1).renderer.images =
      (v.renderer.calls (.drain :: replies t.load done v.handedOut)).images := by
  have hanswered : (answerAll t.load done v.handedOut).1.heard =
      (v.handedOut.renderer.calls (replies t.load done v.handedOut)).withoutLines ownLines :=
    heard_answerAll done (v := v.handedOut) htells
  exact (keeps_of_heard ((heard_loadOnce t.load url _).trans hanswered)).2

/-- No frame of a session has a line about a repeated pass that was aborted. -/
theorem not_mem_log_play (options : Options Float) (overlay? : Option (Overlay Float))
    (turns : List (Turn ι)) :
    ∀ result ∈ (begun options overlay? : Viewer ι).play turns, deferredAborted ∉ result.log := by
  intro result hresult hline
  rcases repeats_of_mem_log_play turns (tells_begun options overlay?) hresult hline with hold | hrepeats
  · -- at the start the log says at most that the overlay has been read
    cases overlay? with
    | none => cases hold
    | some overlay => exact absurd (List.mem_singleton.1 hold) (by decide)
  · exact not_repeats_history options overlay? turns hrepeats

/-- **No pass is repeated in a viewer.** Take a session with any overlay and options, any windows, and
loads that may turn out differently each time, and look at it when it has answered some of the requests
of a frame and is about to answer the next one with an image. No pass is handed out by the images, so
the image is put into its slots and nothing is drawn; and no line of the log ever says that a repeated
pass was aborted. The frames that a viewer shows are the case in which a load gives the same every time. -/
theorem repeats_no_pass (fileText : String → Except String String) (arguments : List String)
    (v : Viewer ι) (hstart : start fileText arguments = .ok v) (turns : List (Turn ι)) :
    (∀ before t later, turns = before ++ t :: later →
      let w := v.through before
      ∀ done url rest, w.renderer.images.requests = done ++ url :: rest →
        let u := ((answerAll t.load done w.handedOut).1.loadOnce t.load url).1
        (w.refreshed t.load).1 = (answerAll t.load rest (u.answer url)).1 ∧
        ∀ texture, (u.textures.lookup url).join = some texture →
          (u.renderer.images.complete url texture).1 = none ∧
          u.renderer.imageLoaded url texture = (u.renderer.told url texture, none)) ∧
    (∀ result ∈ v.play turns, deferredAborted ∉ result.log) ∧
    ∀ load windows, ∀ result ∈ v.frames load windows, deferredAborted ∉ result.log := by
  obtain ⟨options, overlay?, rfl⟩ := ensures_start_begun fileText arguments v hstart
  have hnever := not_repeats_history options overlay? turns
  refine ⟨?_, not_mem_log_play options overlay? turns, fun load windows => ?_⟩
  · rintro before t later rfl w done url rest hwaiting u
    have htells : w.renderer.canvas.reportsTransform = true :=
      tells_through before (tells_begun options overlay?)
    refine ⟨?_, ?_⟩
    · change (answerAll t.load w.renderer.images.requests w.handedOut).1 = _
      rw [hwaiting, answerAll_append, answerAll_cons]
    · intro texture htexture
      have hnone : (u.renderer.images.complete url texture).1 = none := by
        by_contra hsome
        obtain ⟨size, hsize⟩ := Option.ne_none_iff_exists'.1 hsome
        rw [images_before_answer t htells] at hsize
        apply hnever
        -- what this frame repeats is repeated in the history of the session
        have hframe : w.renderer.Repeats (w.frameCalls t) := by
          refine ⟨_, url, texture, replies t.load rest (u.answer url) ++ w.drawCalls t, size, ?_, hsize⟩
          rw [frameCalls, hwaiting, replies_append, replies, htexture]
          simp only [reply, List.cons_append, List.append_assoc]
          rfl
        have hrest := (hframe.append (history later (w.shown t.load t.window).2)).prepend
          ((begun options overlay?).history before) htells
          (unlogged_through before (tells_begun options overlay?))
        rw [history_append]
        exact hrest
      refine ⟨hnone, ?_⟩
      rw [Renderer.imageLoaded_eq, hnone]
  · rw [frames_eq_play]
    exact not_mem_log_play options overlay? _

/-- The field's art cannot be loaded, so after the first frame a pass waits for it. The art that comes
in the second frame is another one: it is put into its slot, and the pass goes on waiting. -/
theorem repeats_no_pass_for_other_art :
    let overlay : Overlay Float := ⟨[.image "alt.png" .empty]⟩
    let fileText : String → Except String String := fun _ => .ok (overlay.encode?.getD "")
    let v : Viewer String := opened .standard overlay
    let t : Turn String := ⟨fun url => if url = "alt.png" then some "art" else none, ⟨800, 600, 1, 0⟩⟩
    let w := v.through [t]
    let u := (w.handedOut.loadOnce t.load "alt.png").1
    start fileText ["overlay.json"] = .ok v ∧ w.renderer.images.deferred = some t.size ∧
      w.renderer.images.requests = ["alt.png"] ∧
      u.renderer.imageLoaded "alt.png" "art" = (u.renderer.told "alt.png" "art", none) := by
  intro overlay fileText v t w u
  have hfinite : ∀ op ∈ overlay.ops, ∀ x ∈ op.numbers, x.isFinite = true := by
    decide +kernel
  have htext : fileText "overlay.json" = .ok (overlay.encode?.getD "") := rfl
  have hkept : ∀ op ∈ overlay.ops, op.reread = op := by
    simp [overlay, Op.reread_image_empty]
  have hstart : start fileText ["overlay.json"] = .ok v := start_encoded htext rfl hfinite hkept
  have hcalls : v.frameCalls t =
      [.drain, .imageFailed "field.png", .setOverlay overlay, .render t.size, .takeCommands] := rfl
  have hwaits : w.renderer.images.requests = ["alt.png"] := by
    refine (requests_shown t (v := v) rfl).trans ?_
    rw [hcalls]
    rfl
  have hdeferred : w.renderer.images.deferred = some t.size := by
    have hleft : w.renderer.images =
        ((Renderer.new (.empty true) Options.standard).calls (v.frameCalls t)).images :=
      (Renderer.keeps_of_unlogged ((unlogged_shown t (v := v) rfl).trans
        (Renderer.unlogged_calls rfl (unlogged_begun .standard (some overlay)) _))).2
    rw [hleft, hcalls, Renderer.deferred_calls_iff]
    refine ⟨rfl, [.drain, .imageFailed "field.png", .setOverlay overlay], .render t.size,
      [.takeCommands], rfl, rfl, ?_⟩
    intro mid d rest hsplit
    rcases List.append_eq_singleton_iff.1 hsplit.symm with ⟨rfl, hd⟩ | ⟨-, hd⟩
    · obtain rfl := (List.cons.inj hd).1
      refine ⟨rfl, ?_⟩
      rintro ⟨image, hbrings⟩
      cases hbrings
    · cases hd
  obtain ⟨hframes, -⟩ := repeats_no_pass fileText ["overlay.json"] v hstart [t, t]
  obtain ⟨-, hanswer⟩ := hframes [t] t [] rfl [] "alt.png" [] hwaits
  have hart : (u.textures.lookup "alt.png").join = some "art" := by
    have hkept : w.textures = [("field.png", none)] := by
      change (v.shown t.load t.window).2.textures = _
      rw [viewer_shown]
      rfl
    simp [u, loadOnce, handedOut, hkept, t]
  exact ⟨hstart, hdeferred, hwaits, (hanswer "art" hart).2⟩

end Viewer

end FieldDiagram
