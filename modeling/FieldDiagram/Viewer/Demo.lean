import FieldDiagram.Overlay.Basic
import FieldDiagram.Scalar.Machine
/-!
# An overlay to look at

A robot that drives along a curve again and again, for looking at a diagram without any telemetry.
-/

namespace FieldDiagram.Demo

/-- A number with its fraction cut off. -/
def truncate (x : Float) : Float :=
  match Double.parts x with
  | .finite negative pattern =>
    Double.ofPattern negative (BinaryFormat.double.ofNat (BinaryFormat.double.floor pattern))
  | _ => x

/-- The robot's path. -/
def path : SplineCurve Float :=
  ⟨⟨0, 0, -96, 144, 0, -48⟩, ⟨0, 0, 0, 0, 96, -48⟩⟩

/-- The corners of the robot around its centre. -/
def robot : List (Point Float) := [⟨-9, -9⟩, ⟨9, -9⟩, ⟨9, 9⟩, ⟨-9, 9⟩]

/-- The overlay at a time in seconds. -/
def overlay (time : Float) : Overlay Float :=
  let turns := time * 0.15
  let t := turns - truncate turns
  let position := path.eval t
  let ahead := path.eval (t + 1e-3) - position
  let heading := Float.atan2 ahead.y ahead.x
  let pulse := 3 + (time * Double.fullTurn).sin
  ⟨[.stroke "#4caf50",
    .strokeWidth 1,
    .spline path,
    .fill "rgba(255, 152, 0, 0.8)",
    .circle ⟨path.x.f, path.y.f⟩ pulse false,
    .origin position,
    .rotation heading,
    .stroke "#3f51b5",
    .polygonOf robot true,
    .polylineOf [⟨0, 0⟩, ⟨9, 0⟩],
    .origin ⟨0, 0⟩,
    .rotation 0,
    .fill "white",
    .text ("t = " ++ String.ofList (Double.fixedText 2 t)) ⟨-68, -64⟩ (some "14px sans-serif") 0
      false]⟩

end FieldDiagram.Demo
