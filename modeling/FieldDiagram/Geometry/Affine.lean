import FieldDiagram.Scalar.Basic
/-!
# Points and affine maps of the plane

Maps act on points and on vectors, and compose. Every definition fixes the order of its operations,
so that machine numbers give one result.
-/

namespace FieldDiagram

/-- A point of the plane, or the vector that leads to it. -/
@[ext] structure Point (α : Type) where
  x : α
  y : α
  deriving DecidableEq, Repr

/-- The map that takes `(x, y)` to `(a x + c y + e, b x + d y + f)`. -/
@[ext] structure Affine (α : Type) where
  a : α
  b : α
  c : α
  d : α
  e : α
  f : α
  deriving DecidableEq, Repr

namespace Point

variable {α : Type} [Scalar α]

instance : Add (Point α) := ⟨fun p q => ⟨p.x + q.x, p.y + q.y⟩⟩

instance : Sub (Point α) := ⟨fun p q => ⟨p.x - q.x, p.y - q.y⟩⟩

/-- The point where the axes meet. -/
def zero : Point α := ⟨Scalar.zero, Scalar.zero⟩

/-- Pairs coordinates into points; the rest of the longer list is left out. -/
def pair {α : Type} (xs ys : List α) : List (Point α) := List.zipWith Point.mk xs ys

end Point

namespace Affine

variable {α : Type} [Scalar α]

open Scalar (zero one sin cos)

/-- The map that moves nothing. -/
def identity : Affine α := ⟨one, zero, zero, one, zero, zero⟩

/-- The map that moves the point `zero` to `p` and turns nothing. -/
def displacement (p : Point α) : Affine α := ⟨one, zero, zero, one, p.x, p.y⟩

/-- The map that stretches each axis by a factor of its own. -/
def scaling (x y : α) : Affine α := ⟨x, zero, zero, y, zero, zero⟩

/-- The rotation that turns the first axis towards the second. -/
def rotation (angle : α) : Affine α :=
  ⟨cos angle, sin angle, -sin angle, cos angle, zero, zero⟩

/-- What a map does to a vector: the displacement has no part in it. -/
def onVector (m : Affine α) (v : Point α) : Point α :=
  ⟨m.a * v.x + m.c * v.y, m.b * v.x + m.d * v.y⟩

/-- What a map does to a point. -/
def onPoint (m : Affine α) (p : Point α) : Point α :=
  let v := m.onVector p
  ⟨v.x + m.e, v.y + m.f⟩

/-- The map that first does `n` and then `m`. -/
def comp (m n : Affine α) : Affine α :=
  let first := m.onVector ⟨n.a, n.b⟩
  let second := m.onVector ⟨n.c, n.d⟩
  let offset := m.onVector ⟨n.e, n.f⟩
  ⟨first.x, first.y, second.x, second.y, offset.x + m.e, offset.y + m.f⟩

instance : Mul (Affine α) := ⟨comp⟩

/-- The signed factor by which a map changes areas. -/
def determinant (m : Affine α) : α := m.a * m.d - m.b * m.c

/-- The factor by which a map changes lengths, exact for similarities. -/
def uniformScale (m : Affine α) : α := Scalar.sqrt (Scalar.abs m.determinant)

end Affine

end FieldDiagram
