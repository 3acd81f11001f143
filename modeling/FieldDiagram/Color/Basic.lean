import FieldDiagram.Decimal.Float
/-!
# Colours

A colour has four components in single precision; `0` to `1` is the range of what can be shown. Eight
bit channels are the usual way in and out.
-/

namespace FieldDiagram

/-- Red, green, blue and opacity. -/
structure Color where
  r : Float32
  g : Float32
  b : Float32
  a : Float32

/-- The component of an eight bit channel: the number nearest to `byte / 255`. -/
def channelOfByte (byte : Nat) : Float32 := Single.ofRatio byte 255

/-- The eight bit channel of a component: `255` times the component, rounded to the nearest whole
number with halves away from zero, and forced into a byte. No number counts as zero. -/
def byteOfChannel (component : Float32) : Nat :=
  match Single.parts (component * channelMax) with
  | .nan => 0
  | .infinite negative => if negative then 0 else 255
  | .finite negative pattern => if negative then 0 else min 255 (BinaryFormat.single.round pattern)
where
  /-- The largest byte. -/
  channelMax : Float32 := Single.ofRatio 255 1

namespace Color

/-- A colour with eight bit channels and an opacity. -/
def ofBytes (r g b : Nat) (a : Float32) : Color :=
  ⟨channelOfByte r, channelOfByte g, channelOfByte b, a⟩

/-- An opaque colour with eight bit channels. -/
def opaqueOfBytes (r g b : Nat) : Color := ofBytes r g b (channelOfByte 255)

/-- Opaque black. -/
def black : Color := opaqueOfBytes 0 0 0

instance : Inhabited Color := ⟨black⟩

end Color

/-- Forces a number into bounds; what is no number stays none. -/
def Single.clamp (lower upper x : Float32) : Float32 :=
  if x < lower then lower else if upper < x then upper else x

end FieldDiagram
