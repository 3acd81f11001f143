import FieldDiagram.Viewer.Transcript
/-!
# The command line

`main OVERLAY OPTIONS` shows the diagram with an overlay and options from files; both arguments may be
left out. Each line of the input is a frame, as `WindowState.ofLine?` reads it. The calls of the
frame go to the output and the log to the error output.
-/

namespace FieldDiagram.CommandLine

/-- Reads the files that the arguments name. -/
def texts (arguments : List String) : IO (List (String × Except String String)) :=
  (arguments.take 2).mapM fun (path : String) => do
    let text ← (IO.FS.readFile path).toBaseIO
    return (path, text.mapError toString)

/-- Tells a line of the log. -/
def tell (line : LogLine) : IO Unit := IO.eprintln line.text

/-- Shows a frame for each line of the input. Every texture can be loaded, and is known by its
address. -/
partial def showFrames (input : IO.FS.Stream) (v : Viewer String) : IO Unit := do
  let line ← input.getLine
  unless line.isEmpty do
    match WindowState.ofLine? line with
    | none =>
      tell ⟨.warn, "a frame is four numbers: width, height, scale and time"⟩
      showFrames input v
    | some window =>
      let (result, v) := v.shown some window
      result.lines.forM IO.println
      result.log.forM tell
      showFrames input v

end FieldDiagram.CommandLine

open FieldDiagram in
/-- Shows a diagram frame by frame, or tells why it cannot. -/
def main (arguments : List String) : IO Unit := do
  let texts ← CommandLine.texts arguments
  match Viewer.start (fun path => (texts.lookup path).getD (.error "no such file")) arguments with
  | .ok v => CommandLine.showFrames (← IO.getStdin) v
  | .error e => CommandLine.tell ⟨.error, e.message⟩
