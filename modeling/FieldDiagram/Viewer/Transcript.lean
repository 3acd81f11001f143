import FieldDiagram.Text.Quoted
import FieldDiagram.Viewer.Session
/-!
# Frames as lines of text

A window that only writes down what it is asked to do. A frame is asked for by a line with four
numerals, and every call of the frame becomes a line: the name of the call and then what it is given,
points as two numerals, texts between quotes and colours in their written form.
-/

namespace FieldDiagram

/-- The window that a line describes: its width and height in device pixels, the scale of its display
and the time in seconds. -/
def WindowState.ofLine? (line : String) : Option WindowState :=
  match words line.toList with
  | [width, height, scale, time] => do
    return ⟨← Single.ofNumeral? width, ← Single.ofNumeral? height, ← Single.ofNumeral? scale,
      ← Double.ofNumeral? time⟩
  | _ => none

/-- A number as a word of a line. -/
def Single.word (x : Float32) : String := String.ofList (Single.plainText x)

/-- A point as two words of a line. -/
def Point.words (p : Point Float32) : List String := [Single.word p.x, Single.word p.y]

/-- The words of a line about a call. -/
def WindowCall.words : WindowCall String → List String
  | .background color => ["background", color.text]
  | .circle center radius color => "circle" :: center.words ++ [Single.word radius, color.text]
  | .triangle a b c color => "triangle" :: a.words ++ b.words ++ c.words ++ [color.text]
  | .line first last width color =>
    "line" :: first.words ++ last.words ++ [Single.word width, color.text]
  | .text content point size rotation color =>
    ["text", quoted content] ++ point.words ++
      [String.ofList (digits size), Single.word rotation, color.text]
  | .texture name point color size =>
    ["texture", quoted name] ++ point.words ++ size.words ++ [color.text]
  | .load url => ["load", quoted url]

/-- The line about a call. -/
def WindowCall.written (call : WindowCall String) : String := String.intercalate " " call.words

/-- The lines about a frame. -/
def Viewer.FrameResult.lines (r : Viewer.FrameResult String) : List String := r.calls.map WindowCall.written

end FieldDiagram
