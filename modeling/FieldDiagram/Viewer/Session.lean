import FieldDiagram.Overlay.Codec
import FieldDiagram.Renderer
import FieldDiagram.Viewer.Demo
import FieldDiagram.Viewer.Window
/-!
# A viewer's session

A viewer shows one diagram, frame by frame. At the start of a frame it answers the requests for images
that are waiting: each address is loaded once, and every request is answered from what came of it.
Then it draws the diagram with its overlay and carries out the commands in the window.
-/

namespace FieldDiagram

/-- Why a session cannot start. -/
inductive StartError where
  | unreadableOptions (path reason : String)
  | invalidOptions (path text : String) (cause : DecodeError)
  | unreadableOverlay (path reason : String)
  | invalidOverlay (path : String) (cause : DecodeError)

/-- The message of an error, outermost cause first. -/
def StartError.message : StartError → String
  | .unreadableOptions path reason => "reading options from " ++ path ++ ": " ++ reason
  | .invalidOptions path text cause =>
    "parsing options in " ++ path ++ ": " ++ Options.decodeReport text cause
  | .unreadableOverlay path reason => "reading overlay from " ++ path ++ ": " ++ reason
  | .invalidOverlay path cause => "parsing overlay in " ++ path ++ ": " ++ Overlay.decodeMessage cause

/-- A window at the time of a frame: its size, the scale of its display, and the seconds passed. -/
structure WindowState where
  width : Float32
  height : Float32
  scale : Float32
  time : Float

/-- A session between two frames. -/
structure Viewer (ι : Type) where
  renderer : Renderer Float ι
  /-- The overlay to show; without one the demonstration is shown. -/
  overlay : Option (Overlay Float)
  /-- What came of each load. -/
  textures : List (String × Option ι)

namespace Viewer

variable {ι : Type}

/-- The overlay has been read. -/
def overlayLoaded : LogLine := ⟨.info, "loaded overlay"⟩

/-- A texture could not be loaded. -/
def textureFailed : LogLine := ⟨.warn, "unable to load field image"⟩

/-- A pass ended early. -/
def passAborted : LogLine := ⟨.error, "render pass aborted"⟩

/-- A repeated pass ended early. -/
def deferredAborted : LogLine := ⟨.error, "deferred render aborted"⟩

/-- Adds a line to the log. -/
def note (line : LogLine) (v : Viewer ι) : Viewer ι :=
  { v with renderer := { v.renderer with log := v.renderer.log ++ [line] } }

/-- Adds a line to the log if something went wrong. -/
def noteIf {ε : Type} (e : Option ε) (line : LogLine) (v : Viewer ι) : Viewer ι :=
  if e.isSome then v.note line else v

/-- The options from a file. -/
def readOptions (fileText : String → Except String String) (path : String) :
    Except StartError (Options Float) := do
  let text ← (fileText path).mapError (.unreadableOptions path)
  (Options.decode text).mapError (.invalidOptions path text)

/-- The overlay from a file. -/
def readOverlay (fileText : String → Except String String) (path : String) :
    Except StartError (Overlay Float) := do
  let text ← (fileText path).mapError (.unreadableOverlay path)
  (Overlay.decode text).mapError (.invalidOverlay path)

/-- Starts a session. The first argument names a file with an overlay, the second one a file with
options; both may be left out. -/
def start (fileText : String → Except String String) (arguments : List String) :
    Except StartError (Viewer ι) := do
  let options ← match arguments[1]? with
    | some path => readOptions fileText path
    | none => pure .standard
  let idle : Viewer ι := ⟨.new (.empty true) options, none, []⟩
  match arguments[0]? with
  | some path =>
    let overlay ← readOverlay fileText path
    return note overlayLoaded { idle with overlay := some overlay }
  | none => return idle

/-! ## Images -/

/-- Loads a texture, unless that has been tried before. -/
def loadOnce (load : String → Option ι) (url : String) (v : Viewer ι) :
    Viewer ι × List (WindowCall ι) :=
  if (v.textures.lookup url).isSome then (v, [])
  else
    let texture := load url
    let told := if texture.isNone then v.note textureFailed else v
    ({ told with textures := (url, texture) :: v.textures }, [.load url])

/-- Answers a request with the texture that has been loaded for it, or with the failure. -/
def answer (url : String) (v : Viewer ι) : Viewer ι :=
  match (v.textures.lookup url).join with
  | some texture =>
    let (renderer, e) := v.renderer.imageLoaded url texture
    noteIf e deferredAborted { v with renderer }
  | none => { v with renderer := v.renderer.imageFailed url }

/-- Answers requests in order. -/
def answerAll (load : String → Option ι) : List String → Viewer ι → Viewer ι × List (WindowCall ι)
  | [], v => (v, [])
  | url :: urls, v =>
    let (loaded, calls) := v.loadOnce load url
    let (done, more) := answerAll load urls (loaded.answer url)
    (done, calls ++ more)

/-! ## Frames -/

/-- The colour behind the diagram. -/
def backdrop : Color :=
  let dark := Single.ofRatio 12 100
  ⟨dark, dark, dark, Single.ofRatio 1 1⟩

/-- The overlay at a time. -/
def overlayAt (time : Float) (v : Viewer ι) : Overlay Float := v.overlay.getD (Demo.overlay time)

/-- One frame. -/
def frame (load : String → Option ι) (window : WindowState) (v : Viewer ι) :
    Viewer ι × List (WindowCall ι) :=
  let (urls, images) := v.renderer.images.drain
  let (v, loads) := answerAll load urls { v with renderer := { v.renderer with images } }
  let size := windowSize window.width window.height window.scale
  let (renderer, e) := (v.renderer.setOverlay (v.overlayAt window.time)).render size
  let (commands, canvas) := renderer.canvas.takeCommands
  (noteIf e passAborted { v with renderer := { renderer with canvas } },
    loads ++ .background backdrop :: commands.flatMap DrawCommand.windowCalls)

/-- Hands out the log. -/
def takeLog (v : Viewer ι) : List LogLine × Viewer ι :=
  let (log, renderer) := v.renderer.takeLog
  (log, { v with renderer })

/-- What a frame shows and what the log says of it. -/
structure FrameResult (ι : Type) where
  calls : List (WindowCall ι)
  log : List LogLine

/-- One frame, with what the log says of it handed out. -/
def shown (load : String → Option ι) (window : WindowState) (v : Viewer ι) :
    FrameResult ι × Viewer ι :=
  let (v, calls) := v.frame load window
  let (log, v) := v.takeLog
  (⟨calls, log⟩, v)

/-- Frame after frame. -/
def frames (load : String → Option ι) : List WindowState → Viewer ι → List (FrameResult ι)
  | [], _ => []
  | window :: windows, v =>
    let (result, v) := v.shown load window
    result :: frames load windows v

end Viewer

end FieldDiagram
