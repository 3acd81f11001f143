import FieldDiagram.Proofs.Renderer.Anatomy
import FieldDiagram.Proofs.Renderer.Independence
import FieldDiagram.Proofs.Overlay.RoundTrip
import FieldDiagram.Proofs.Viewer.Answers
/-!
# Frames that repeat themselves

Each pass over an overlay with art gives its art up and asks for it again, and the grid lines that it
asks for are those of the next pass. Still a viewer does not flicker: the requests of a pass are
answered at the start of the next frame, before that frame draws, and always with the same answer. So
from the second frame on each pass finds the same renderer, but for its canvas and the log
(`settled`), and draws the same. Main statement: `frames_settle`.
-/

namespace FieldDiagram

variable {ι : Type}

open Scalar (zero one)

/-! ## What commands ask of a window

The claim about textures is one about calls of a window, and passes record commands. Each command is a few
calls, and a texture is drawn by exactly those that draw an image. -/

/-- Whether a call draws a texture. -/
def WindowCall.isTexture : WindowCall ι → Bool
  | texture .. => true
  | _ => false

/-- Whether a command draws an image. -/
def DrawCommand.isImage {α : Type} : DrawCommand α ι → Bool
  | image .. => true
  | _ => false

namespace Subpath

theorem exists_of_mem_lines {s : Subpath} {width : Float32} {color : Color} {call : WindowCall ι}
    (h : call ∈ s.lines width color) : ∃ p q, call = .line p q width color := by
  rcases List.mem_append.1 h with hchain | hclosing
  · obtain ⟨⟨p, q⟩, -, rfl⟩ := List.mem_map.1 hchain
    exact ⟨p, q, rfl⟩
  · split at hclosing
    · exact ⟨_, _, List.mem_singleton.1 hclosing⟩
    · exact absurd hclosing List.not_mem_nil

theorem exists_of_mem_triangles {s : Subpath} {color : Color} {call : WindowCall ι}
    (h : call ∈ s.triangles color) : ∃ p q r, call = .triangle p q r color := by
  rw [triangles] at h
  split at h
  · exact absurd h List.not_mem_nil
  · obtain ⟨⟨p, q⟩, -, rfl⟩ := List.mem_map.1 h
    exact ⟨_, p, q, rfl⟩

end Subpath

namespace DrawCommand

/-- No command loads a texture, and only one that draws an image draws one. -/
theorem of_mem_windowCalls {d : DrawCommand Float ι} {call : WindowCall ι} (h : call ∈ d.windowCalls) :
    call.isLoad = false ∧ call.isTexture = d.isImage := by
  unfold windowCalls at h
  split at h
  · exact absurd h List.not_mem_nil
  · rw [List.mem_singleton.1 h]
    exact ⟨rfl, rfl⟩
  · obtain ⟨s, -, hs⟩ := List.mem_flatMap.1 h
    obtain ⟨p, q, r, rfl⟩ := Subpath.exists_of_mem_triangles hs
    exact ⟨rfl, rfl⟩
  · obtain ⟨s, -, hs⟩ := List.mem_flatMap.1 h
    obtain ⟨p, q, rfl⟩ := Subpath.exists_of_mem_lines hs
    exact ⟨rfl, rfl⟩
  · rw [List.mem_singleton.1 h]
    exact ⟨rfl, rfl⟩
  · rw [List.mem_singleton.1 h]
    exact ⟨rfl, rfl⟩

end DrawCommand

/-- Overlays draw no images. -/
theorem Paint.isImage_of_draw? {α : Type} [Scalar α] {p : Paint α} {steps : Nat} {op : Op α}
    {d : DrawCommand α ι} (h : p.draw? steps op = some d) : d.isImage = false := by
  cases op with
  | text content point font angle outlined => exact Option.some.inj h ▸ rfl
  | _ =>
    -- all others finish a path
    simp only [draw?, Option.map_eq_some_iff] at h
    obtain ⟨path, -, rfl⟩ := h
    rw [finished]
    split <;> rfl

namespace DrawCommand

theorem filter_windowCalls (d : DrawCommand Float ι) :
    d.windowCalls.filter (!·.isLoad) = d.windowCalls ∧
      d.windowCalls.filter (·.isTexture) = if d.isImage then d.windowCalls else [] := by
  constructor
  · exact List.filter_eq_self.2 fun call hcall => by rw [(of_mem_windowCalls hcall).1, Bool.not_false]
  · split
    · next himage =>
      exact List.filter_eq_self.2 fun call hcall => (of_mem_windowCalls hcall).2.trans himage
    · next himage =>
      exact List.filter_eq_nil_iff.2 fun call hcall =>
        (of_mem_windowCalls hcall).2.symm ▸ himage

/-- All calls of commands draw, and the textures among them are those of the images. -/
theorem filter_flatMap_windowCalls (ds : List (DrawCommand Float ι)) :
    (ds.flatMap windowCalls).filter (!·.isLoad) = ds.flatMap windowCalls ∧
      (ds.flatMap windowCalls).filter (·.isTexture) =
        (ds.filter (·.isImage)).flatMap windowCalls := by
  induction ds with
  | nil => exact ⟨rfl, rfl⟩
  | cons d ds ih =>
    obtain ⟨hdraws, htextures⟩ := d.filter_windowCalls
    rw [List.flatMap_cons, List.filter_append, List.filter_append, hdraws, ih.1, htextures, ih.2,
      List.filter_cons]
    refine ⟨rfl, ?_⟩
    split <;> rfl

end DrawCommand

/-- The images that a pass draws are those that are there. -/
theorem Renderer.images_of_commands {r : Renderer Float ι} (h : r.canvas.reportsTransform = true)
    (size : SurfaceSize Float) :
    (r.render size).1.canvas.commands.toList.filter (·.isImage) =
      (r.images.baseImage?.map (r.options.baseArt size)).toList ++
        (r.images.altImage?.map (r.options.altArt size r.images.placement)).toList := by
  have hgrid : (r.gridStrokes size : List (DrawCommand Float ι)).filter (·.isImage) = [] := by
    rw [gridStrokes, List.filter_map, List.filter_eq_nil_iff.2, List.map_nil]
    exact fun line _ => Bool.false_ne_true
  have hoverlay : (r.overlayDrawing size : List (DrawCommand Float ι)).filter (·.isImage) = [] := by
    refine List.filter_eq_nil_iff.2 fun d hd => ?_
    obtain ⟨place, -, hdraws⟩ := List.mem_filterMap.1 hd
    rw [Paint.isImage_of_draw? hdraws]
    exact Bool.false_ne_true
  rw [commands_render h, List.filter_append, List.filter_append, hgrid, hoverlay, List.append_nil,
    List.append_nil, commands_backdrop (by decide +kernel), List.filter_cons_of_neg Bool.false_ne_true]
  refine List.filter_eq_self.2 fun d hd => ?_
  rcases List.mem_append.1 hd with hd | hd
  · obtain ⟨image, -, rfl⟩ := Option.map_eq_some_iff.1 (Option.mem_toList.1 hd)
    rfl
  · obtain ⟨image, -, rfl⟩ := Option.map_eq_some_iff.1 (Option.mem_toList.1 hd)
    rfl

/-! ## What an overlay comes to

Of an overlay three things last beyond its pass: the grid, the art, and the request for it. They are told by
the operations that are carried out. -/

namespace Overlay

variable {α : Type}

/-- The operations that a pass carries out are those before the first unknown one. -/
theorem executed_eq_takeWhile (o : Overlay α) : o.executed = o.ops.takeWhile (!·.isUnknown) := by
  have hknown : (fun op : Op α => !op.fails true) = (!·.isUnknown) :=
    funext fun op => by rw [Op.fails_true]
  rw [executed, Op.executed, hknown]

/-- The grid that an overlay asks for. -/
def grid? (o : Overlay α) : Option GridTicks := latest? Op.newGrid? o.executed

/-- The art that an overlay asks for, and where it goes. -/
def art? (o : Overlay α) : Option (String × AltPlacement α) := latest? Op.newArt? o.executed

/-- The art that an overlay asks for is among its requests. -/
theorem mem_sources_of_art? {o : Overlay α} {art : String × AltPlacement α} (h : o.art? = some art) :
    art.1 ∈ o.executed.filterMap Op.source? := by
  obtain ⟨op, hop, hart⟩ := exists_of_latest?_eq_some h
  exact List.mem_filterMap.2 ⟨op, hop, by rw [Op.source?, hart, Option.map_some]⟩

end Overlay

/-- Other art that is placed nowhere comes back from a file as it was. -/
theorem Op.reread_image_empty (url : String) : (image url .empty : Op Float).reread = image url .empty :=
  reread_eq_rounded fun x hx => by
    obtain rfl : x = Scalar.zero := by simpa [numbers, AltPlacement.empty] using hx
    exact Double.reread_ofInt_zero

namespace Viewer

/-! ## Between two frames

The two invariants of a session that shows an overlay. `Runs` holds from its start on and is enough to know
what the next frame draws; `Settled` is added by that frame and says that it leaves what it found. -/

/-- A viewer that has read an overlay and drawn no frame yet. -/
def opened (options : Options Float) (overlay : Overlay Float) : Viewer ι :=
  note overlayLoaded ⟨.new (.empty true) options, some overlay, []⟩

/-- A session with an overlay file starts with an opened viewer. -/
theorem ensures_start (fileText : String → Except String String) (path : String)
    (more : List String) :
    Ensures (start fileText (path :: more)) fun v : Viewer ι =>
      ∃ options overlay, readOverlay fileText path = .ok overlay ∧ v = opened options overlay := by
  have hshows : ∀ options : Options Float,
      Ensures ((readOverlay fileText path).map (opened options)) fun v : Viewer ι =>
        ∃ options overlay, readOverlay fileText path = .ok overlay ∧ v = opened options overlay := by
    intro options
    exact Ensures.map fun overlay hread => ⟨options, overlay, hread, rfl⟩
  rw [start]
  split
  · exact (ensures_true _).bind fun options _ => hshows options
  · exact hshows .standard

theorem readOverlay_of_text {fileText : String → Except String String} {path text : String}
    (h : fileText path = .ok text) :
    readOverlay fileText path = (Overlay.decode text).mapError (.invalidOverlay path) := by
  rw [readOverlay, h]
  rfl

/-- Without a second file the options are the standard ones. -/
theorem start_singleton (fileText : String → Except String String) (path : String) :
    (start fileText [path] : Except StartError (Viewer ι)) =
      (readOverlay fileText path).map (opened .standard) := rfl

/-- What is true of a viewer between two frames that show an overlay. What the overlay does not ask for
is as it was in the beginning. -/
structure Runs (load : String → Option ι) (o : Options Float) (shows : Overlay Float)
    (v : Viewer ι) : Prop where
  overlay : v.overlay = some shows
  options : v.renderer.options = o
  tells : v.renderer.canvas.reportsTransform = true
  textures : v.Consistent load
  base : v.renderer.images.base.map (·.url) = some o.fieldImage
  quiet : v.renderer.images.Quiet load
  pursued : v.renderer.images.Pursued load
  grid : shows.grid? = none → v.renderer.grid = .standard
  alt : shows.art? = none → v.renderer.images.alt = none
  placement : shows.art? = none → v.renderer.images.placement = .empty

/-- What is true besides once a frame has been drawn: grid and art are those that the overlay asks for,
and the art is missing again. -/
structure Settled (load : String → Option ι) (o : Options Float) (shows : Overlay Float)
    (v : Viewer ι) : Prop extends Runs load o shows v where
  newGrid : v.renderer.grid = shows.grid?.getD .standard
  newAlt : v.renderer.images.alt = shows.art?.map fun art => .wanting art.1
  newPlacement : v.renderer.images.placement = (shows.art?.map Prod.snd).getD .empty

variable {load : String → Option ι} {o : Options Float} {shows : Overlay Float}

theorem runs_opened (load : String → Option ι) (o : Options Float) (shows : Overlay Float) :
    (opened o shows : Viewer ι).Runs load o shows where
  overlay := rfl
  options := rfl
  tells := rfl
  textures := by
    intro url texture htried
    cases htried
  base := rfl
  quiet := fun _ _ _ => rfl
  pursued := by
    rintro slot (hbase | halt)
    · obtain rfl := Option.some.inj hbase
      exact Or.inr List.mem_cons_self
    · cases halt
  grid := fun _ => rfl
  alt := fun _ => rfl
  placement := fun _ => rfl

/-! ## One frame

All requests are answered before the frame draws, and answering draws nothing. So a pass finds every image
that can be loaded, and of that pass alone the frame consists. -/

/-- A viewer whose requests have been answered, with the calls that this takes: what a frame starts
with. -/
def refreshed (load : String → Option ι) (v : Viewer ι) : Viewer ι × List (WindowCall ι) :=
  answerAll load v.renderer.images.drain.1
    { v with renderer := { v.renderer with images := v.renderer.images.drain.2 } }

/-- The renderer as the pass of a frame finds it. -/
def ready (load : String → Option ι) (time : Float) (v : Viewer ι) : Renderer Float ι :=
  let w := (v.refreshed load).1
  w.renderer.setOverlay (w.overlayAt time)

/-- What a frame calls: loads, and then what the commands of its pass ask for. -/
theorem calls_shown (load : String → Option ι) (window : WindowState) (v : Viewer ι) :
    (v.shown load window).1.calls =
      (v.refreshed load).2 ++ .background backdrop ::
        ((v.ready load window.time).render
          (windowSize window.width window.height window.scale)).1.canvas.commands.toList.flatMap
            DrawCommand.windowCalls := rfl

/-- What a frame leaves: what its pass leaves, with commands and log handed out. -/
theorem viewer_shown (load : String → Option ι) (window : WindowState) (v : Viewer ι) :
    let drawn := ((v.ready load window.time).render
      (windowSize window.width window.height window.scale)).1
    (v.shown load window).2 =
      { (v.refreshed load).1 with
        renderer := { drawn with canvas := drawn.canvas.takeCommands.2, log := [] } } := by
  intro drawn
  -- a line about an abort goes out with the log
  have hnoted : ∀ (e : Option RenderError) (w : Viewer ι),
      (noteIf e passAborted w).takeLog.2 = w.takeLog.2 := by
    intro e w
    rw [noteIf]
    split <;> rfl
  exact hnoted _ _

/-- At the start of a frame all requests are answered, and nothing is drawn meanwhile. -/
theorem Runs.refreshed {v : Viewer ι} (h : v.Runs load o shows) :
    (∀ call ∈ (v.refreshed load).2, call.isLoad = true) ∧
      (v.refreshed load).1.Consistent load ∧ (v.refreshed load).1.overlay = some shows ∧
      ∃ log, (v.refreshed load).1.renderer =
        { v.renderer with images := v.renderer.images.fulfilled load, log } := by
  -- handing out the requests leaves no pass deferred that was not
  obtain ⟨hanswers, hloads⟩ := answerAll_answers
    (v := { v with renderer := { v.renderer with images := v.renderer.images.drain.2 } })
    h.textures h.quiet v.renderer.images.drain.1
  obtain ⟨log, hrenderer⟩ := hanswers.renderer
  refine ⟨hloads, hanswers.textures, hanswers.overlay.trans h.overlay, log, ?_⟩
  rw [Viewer.refreshed, hrenderer, ← h.pursued.answered_drain]

/-- A renderer that shows an overlay, with each image as its load says. -/
def showing (load : String → Option ι) (shows : Overlay Float) (log : List LogLine) (v : Viewer ι) :
    Renderer Float ι :=
  { v.renderer with overlay := shows, images := v.renderer.images.fulfilled load, log }

/-- That is what the pass of a frame finds. -/
theorem Runs.ready {v : Viewer ι} (h : v.Runs load o shows) (time : Float) :
    ∃ log, v.ready load time = v.showing load shows log := by
  obtain ⟨-, -, hoverlay, log, hrenderer⟩ := h.refreshed
  refine ⟨log, ?_⟩
  rw [Viewer.ready, hrenderer, overlayAt, hoverlay]
  rfl

/-- A pass leaves the grid and the art that its overlay asks for, and the art is given up again. -/
theorem Runs.render_showing {v : Viewer ι} (h : v.Runs load o shows) (log : List LogLine)
    (size : SurfaceSize Float) :
    let drawn := ((v.showing load shows log).render size).1
    drawn.grid = shows.grid?.getD .standard ∧
      drawn.images.alt = shows.art?.map (fun art => .wanting art.1) ∧
      drawn.images.placement = (shows.art?.map Prod.snd).getD .empty := by
  intro drawn
  have htells : (v.showing load shows log).canvas.reportsTransform = true := h.tells
  obtain ⟨halt, hplacement, -⟩ := Renderer.art_render htells size
  refine ⟨?_, halt.trans ?_, hplacement.trans ?_⟩
  · refine (Renderer.grid_render htells size).trans ?_
    change shows.grid?.getD v.renderer.grid = _
    cases hasked : shows.grid? with
    | none => exact h.grid hasked
    | some grid => rfl
  · change (shows.art?.map _).or ((v.renderer.images.fulfilled load).alt) = _
    cases hasked : shows.art? with
    | none => rw [ImageCache.fulfilled, h.alt hasked]; rfl
    | some art => rfl
  · change (shows.art?.map Prod.snd).getD v.renderer.images.placement = _
    cases hasked : shows.art? with
    | none => exact h.placement hasked
    | some art => rfl

/-- Whatever a viewer shows, one frame settles it. -/
theorem Runs.shown {v : Viewer ι} (h : v.Runs load o shows) (window : WindowState) :
    (v.shown load window).2.Settled load o shows := by
  obtain ⟨-, htextures, hoverlay, -⟩ := h.refreshed
  obtain ⟨log, hready⟩ := h.ready window.time
  rw [viewer_shown, hready]
  generalize windowSize window.width window.height window.scale = size
  obtain ⟨hnewGrid, hnewAlt, hnewPlacement⟩ := h.render_showing log size
  obtain ⟨hoptions, -, hstill⟩ := Renderer.options_render size (v.showing load shows log)
  obtain ⟨hbase, hdeferred⟩ := Renderer.images_render size (v.showing load shows log)
  obtain ⟨-, -, hrequests⟩ :=
    Renderer.art_render (r := v.showing load shows log) h.tells size
  exact {
    overlay := hoverlay
    options := hoptions.trans h.options
    tells := hstill.trans h.tells
    textures := htextures
    base := by
      refine (congrArg (Option.map _) hbase).trans (Eq.trans ?_ h.base)
      exact Option.map_map _ _ _
    quiet := by
      intro slot hslot hloads
      obtain ⟨before, hbefore, rfl⟩ := Option.map_eq_some_iff.1 (hbase.symm.trans hslot)
      -- art that can be loaded is there when the pass runs, so the pass is not deferred
      have himage : (v.showing load shows log).images.baseImage? = load before.url := by
        rw [ImageCache.baseImage?, ← hbase, hslot, Option.bind_some, LoadState.image?_ofLoad]
      refine hdeferred.trans ?_
      rw [himage, Option.isNone_eq_false_iff.2 hloads, Bool.and_false, if_neg Bool.false_ne_true]
      exact h.quiet before hbefore hloads
    pursued := by
      rintro slot (hslot | hslot)
      · obtain ⟨before, -, rfl⟩ := Option.map_eq_some_iff.1 (hbase.symm.trans hslot)
        exact Or.inl rfl
      · obtain ⟨art, hasked, rfl⟩ := Option.map_eq_some_iff.1 (hnewAlt.symm.trans hslot)
        refine Or.inr (hrequests.symm ▸ List.mem_append_right _ ?_)
        exact Overlay.mem_sources_of_art? hasked
    grid := fun hasked => by rw [hnewGrid, hasked]; rfl
    alt := fun hasked => by rw [hnewAlt, hasked]; rfl
    placement := fun hasked => by rw [hnewPlacement, hasked]; rfl
    newGrid := hnewGrid
    newAlt := hnewAlt
    newPlacement := hnewPlacement }

/-! ## From the second frame on

A settled viewer finds the same renderer in each frame, but for what no pass looks at; passes over such
renderers draw the same. -/

/-- The renderer of every frame from the second on, but for its canvas, its log and what is handed
out. -/
def steady (load : String → Option ι) (o : Options Float) (shows : Overlay Float) :
    Renderer Float ι :=
  { (Renderer.new (.empty true) o).setOverlay shows with
    grid := shows.grid?.getD .standard
    images := {
      base := some ⟨o.fieldImage, .ofLoad load o.fieldImage⟩
      alt := shows.art?.map fun art => ⟨art.1, .ofLoad load art.1⟩
      placement := (shows.art?.map Prod.snd).getD .empty
      deferred := none
      requests := [] } }

/-- What every frame from the second on draws. -/
def steadyDrawing (load : String → Option ι) (o : Options Float) (shows : Overlay Float)
    (size : SurfaceSize Float) : List (WindowCall ι) :=
  .background backdrop ::
    ((steady load o shows).render size).1.canvas.commands.toList.flatMap DrawCommand.windowCalls

theorem Settled.alike {v : Viewer ι} (h : v.Settled load o shows) (log : List LogLine) :
    (v.showing load shows log).Alike (steady load o shows) where
  options := h.options
  overlay := rfl
  grid := h.newGrid
  base := by
    obtain ⟨slot, hslot, hurl⟩ := Option.map_eq_some_iff.1 h.base
    rw [showing, ImageCache.fulfilled, steady, hslot, ← hurl]
    rfl
  alt := by
    rw [showing, ImageCache.fulfilled, steady, h.newAlt]
    exact Option.map_map _ _ _
  placement := h.newPlacement

/-- A frame of a settled viewer draws what all of them draw. -/
theorem Settled.calls_shown {v : Viewer ι} (h : v.Settled load o shows) (window : WindowState) :
    (v.shown load window).1.calls.filter (!·.isLoad) =
      steadyDrawing load o shows (windowSize window.width window.height window.scale) := by
  obtain ⟨hloads, -⟩ := h.refreshed
  obtain ⟨log, hready⟩ := h.ready window.time
  have hnone : (v.refreshed load).2.filter (!·.isLoad) = [] :=
    List.filter_eq_nil_iff.2 fun call hcall => by rw [hloads call hcall]; exact Bool.false_ne_true
  rw [Viewer.calls_shown, List.filter_append, hnone, List.nil_append, hready,
    List.filter_cons_of_pos rfl, (DrawCommand.filter_flatMap_windowCalls _).1,
    (h.alike log).commands_render h.tells rfl]
  rfl

/-- The textures that are drawn are those of the field's art and of the overlay's, as far as they can be
loaded. -/
theorem textures_steadyDrawing (load : String → Option ι) (o : Options Float) (shows : Overlay Float)
    (size : SurfaceSize Float) :
    (steadyDrawing load o shows size).filter (·.isTexture) =
      (((load o.fieldImage).map (o.baseArt size)).toList ++
        (shows.art?.bind fun art => (load art.1).map (o.altArt size art.2)).toList).flatMap
          DrawCommand.windowCalls := by
  have hbase : (steady load o shows).images.baseImage? = load o.fieldImage :=
    LoadState.image?_ofLoad load o.fieldImage
  have halt : (steady load o shows).images.altImage?.map
      ((steady load o shows).options.altArt size (steady load o shows).images.placement) =
        shows.art?.bind fun art => (load art.1).map (o.altArt size art.2) := by
    rw [ImageCache.altImage?, steady]
    cases shows.art? with
    | none => rfl
    | some art => exact congrArg _ (LoadState.image?_ofLoad load art.1)
  rw [steadyDrawing, List.filter_cons_of_neg Bool.false_ne_true,
    (DrawCommand.filter_flatMap_windowCalls _).2, Renderer.images_of_commands rfl, hbase, halt]
  rfl

theorem frames_cons (load : String → Option ι) (window : WindowState) (windows : List WindowState)
    (v : Viewer ι) :
    v.frames load (window :: windows) =
      (v.shown load window).1 :: (v.shown load window).2.frames load windows := rfl

/-- A viewer after some frames. -/
def after (load : String → Option ι) (windows : List WindowState) (v : Viewer ι) : Viewer ι :=
  windows.foldl (fun v window => (v.shown load window).2) v

theorem after_cons (load : String → Option ι) (window : WindowState) (windows : List WindowState)
    (v : Viewer ι) :
    v.after load (window :: windows) = (v.shown load window).2.after load windows := rfl

/-- A viewer that has drawn a frame stays settled. -/
theorem Settled.after {v : Viewer ι} (h : v.Settled load o shows) (windows : List WindowState) :
    (v.after load windows).Settled load o shows := by
  induction windows generalizing v with
  | nil => exact h
  | cons window windows ih =>
    rw [after_cons]
    exact ih (h.shown window)

/-- All frames of a settled viewer draw the same. -/
theorem Settled.calls_of_mem_frames {v : Viewer ι} (h : v.Settled load o shows)
    {windows : List WindowState} {size : SurfaceSize Float}
    (hsize : ∀ window ∈ windows, windowSize window.width window.height window.scale = size) :
    ∀ result ∈ v.frames load windows,
      result.calls.filter (!·.isLoad) = steadyDrawing load o shows size := by
  induction windows generalizing v with
  | nil => exact List.forall_mem_nil _
  | cons window windows ih =>
    obtain ⟨hfirst, hrest⟩ := List.forall_mem_cons.1 hsize
    rw [frames_cons]
    refine List.forall_mem_cons.2 ⟨?_, ih (h.shown window) hrest⟩
    rw [h.calls_shown, hfirst]

/-- **The steady state of a viewer.** Take a session with an overlay file, whatever its overlay and its
options are and whichever images can be loaded, and a window that keeps its size and its scale. From
the second frame on all frames draw the same. The textures that they draw are the field's art, if it
can be loaded, and the art of the last image operation before the first unknown operation, at the place
that this operation gives it, if that can be loaded, and no other; although each frame leaves this art
pending again. -/
theorem frames_settle (load : String → Option ι) (fileText : String → Except String String)
    (path : String) (more : List String) (v : Viewer ι)
    (hstart : start fileText (path :: more) = .ok v) (width height scale : Float32) :
    let o := v.renderer.options
    let size := windowSize width height scale
    ∃ overlay, readOverlay fileText path = .ok overlay ∧
      let art? := latest? Op.newArt? (overlay.ops.takeWhile (!·.isUnknown))
      ∃ drawing : List (WindowCall ι),
        (∀ times : List Float,
          ∀ result ∈ (v.frames load (times.map (WindowState.mk width height scale))).tail,
            result.calls.filter (!·.isLoad) = drawing) ∧
        drawing.filter (·.isTexture) =
          (((load o.fieldImage).map (o.baseArt size)).toList ++
            (art?.bind fun (url, placement) =>
              (load url).map (o.altArt size placement)).toList).flatMap DrawCommand.windowCalls ∧
        ∀ times : List Float, times ≠ [] →
          (v.after load (times.map (WindowState.mk width height scale))).renderer.images.alt =
            art?.map fun (url, _) => .wanting url := by
  intro o size
  obtain ⟨options, overlay, hread, rfl⟩ := ensures_start fileText path more v hstart
  have hruns := runs_opened load options overlay
  refine ⟨overlay, hread, ?_⟩
  rw [← overlay.executed_eq_takeWhile]
  refine ⟨steadyDrawing load options overlay size, ?_, textures_steadyDrawing load options overlay size,
    ?_⟩
  · intro times
    cases times with
    | nil => exact List.forall_mem_nil _
    | cons first times =>
      -- the first frame may draw something else, but it settles the viewer
      rw [List.map_cons, frames_cons, List.tail_cons]
      exact (hruns.shown _).calls_of_mem_frames (List.forall_mem_map.2 fun _ _ => rfl)
  · intro times hsome
    obtain ⟨first, times, rfl⟩ := List.exists_cons_of_ne_nil hsome
    rw [List.map_cons, after_cons]
    exact ((hruns.shown _).after _).newAlt

/-- Of two image operations the last one decides: its art can be loaded and is drawn in every frame but
the first. The field's own art cannot be loaded. -/
theorem frames_settle_on_last_art :
    let overlay : Overlay Float := ⟨[.image "first.png" .empty, .image "last.png" .empty]⟩
    let fileText : String → Except String String := fun _ => .ok (overlay.encode?.getD "")
    let load : String → Option String := fun url => if url = "last.png" then some "art" else none
    let v : Viewer String := opened .standard overlay
    let size := windowSize 800 600 1
    start fileText ["overlay.json"] = .ok v ∧
      ∀ times : List Float,
        ∀ result ∈ (v.frames load (times.map (WindowState.mk 800 600 1))).tail,
          (result.calls.filter (!·.isLoad)).filter (·.isTexture) =
            (Options.standard.altArt size .empty "art").windowCalls := by
  intro overlay fileText load v size
  have hencoded : overlay.encode? = some (overlay.encode?.getD "") := rfl
  have hfinite : ∀ op ∈ overlay.ops, ∀ x ∈ op.numbers, x.isFinite = true := by
    decide +kernel
  have hkept : ∀ op ∈ overlay.ops, op.reread = op := by
    simp [overlay, Op.reread_image_empty]
  have hdecode : Overlay.decode (overlay.encode?.getD "") = .ok overlay :=
    Overlay.decode_of_reread_eq hencoded hfinite hkept
  have hread : readOverlay fileText "overlay.json" = .ok overlay := by
    have htext : fileText "overlay.json" = .ok (overlay.encode?.getD "") := rfl
    rw [readOverlay_of_text htext, hdecode]
    rfl
  have hstart : start fileText ["overlay.json"] = .ok v := by
    rw [start_singleton, hread]
    rfl
  obtain ⟨overlay', hread', drawing, hframes, htextures, -⟩ :=
    frames_settle load fileText "overlay.json" [] v hstart 800 600 1
  obtain rfl : overlay = overlay' := Except.ok.inj (hread.symm.trans hread')
  refine ⟨hstart, fun times result hresult => ?_⟩
  rw [hframes times result hresult, htextures]
  rfl

end Viewer
end FieldDiagram
