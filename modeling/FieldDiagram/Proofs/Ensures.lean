import Mathlib.Data.List.Basic
/-!
# What a success brings with it

A computation that may fail is a chain of smaller ones, and it succeeds with something only if each of
them does. `Ensures` says what a success brings with it, and it is passed along the chain; a computation
of which even the impossible is ensured fails.
-/

namespace FieldDiagram

variable {ε ε' β γ : Type}

/-! ## What a success brings

Postconditions alone: they say nothing about whether a computation succeeds. -/

/-- Whether everything that a computation may succeed with has a property. -/
def Ensures (d : Except ε β) (P : β → Prop) : Prop := ∀ x, d = .ok x → P x

theorem ensures_ok {P : β → Prop} {x : β} (h : P x) : Ensures (.ok x : Except ε β) P := by
  rintro y heq
  cases heq
  exact h

theorem ensures_error (e : ε) (P : β → Prop) : Ensures (.error e) P := by
  rintro y heq
  cases heq

theorem Ensures.mono {d : Except ε β} {P Q : β → Prop} (h : Ensures d P) (himp : ∀ x, P x → Q x) :
    Ensures d Q :=
  fun x hx => himp x (h x hx)

theorem Ensures.bind {d : Except ε β} {f : β → Except ε γ} {P : β → Prop} {Q : γ → Prop}
    (hd : Ensures d P) (hf : ∀ x, P x → Ensures (f x) Q) : Ensures (d >>= f) Q := by
  cases d with
  | error e => exact ensures_error e Q
  | ok x => exact hf x (hd x rfl)

theorem Ensures.map {d : Except ε β} {f : β → γ} {P : γ → Prop} (h : Ensures d fun x => P (f x)) :
    Ensures (d.map f) P := by
  cases d with
  | error e => exact ensures_error e P
  | ok x => exact ensures_ok (h x rfl)

theorem Ensures.mapError {d : Except ε β} {f : ε → ε'} {P : β → Prop}
    (h : Ensures d P) : Ensures (d.mapError f) P := by
  cases d with
  | error e => exact ensures_error (f e) P
  | ok x => exact ensures_ok (h x rfl)

theorem ensures_true (d : Except ε β) : Ensures d fun _ => True := fun _ _ => trivial

/-! ## Steps of a chain

A success can be taken apart into the successes of its steps. With these no later proof has to unfold how a
chain is made. -/

/-- What succeeds in two steps succeeds in each of them. -/
theorem exists_of_bind {d : Except ε β} {f : β → Except ε γ} {y : γ} (h : d >>= f = .ok y) :
    ∃ x, d = .ok x ∧ f x = .ok y := by
  cases d with
  | error e => cases h
  | ok x => exact ⟨x, rfl, h⟩

theorem exists_of_map {d : Except ε β} {f : β → γ} {y : γ} (h : d.map f = .ok y) :
    ∃ x, d = .ok x ∧ f x = y := by
  cases d with
  | error e => cases h
  | ok x => exact ⟨x, rfl, Except.ok.inj h⟩

/-- What is said of an error does not make it a success. -/
theorem mapError_eq_ok_iff {d : Except ε β} {f : ε → ε'} {x : β} :
    d.mapError f = .ok x ↔ d = .ok x := by
  cases d with
  | error e => exact iff_of_false nofun nofun
  | ok y => exact ⟨fun h => congrArg Except.ok (Except.ok.inj h),
      fun h => congrArg Except.ok (Except.ok.inj h)⟩

/-! ## Lists

The same for steps that are taken once for each item. -/

theorem ensures_mapM {f : β → Except ε γ} {P : γ → Prop} {xs : List β}
    (h : ∀ x ∈ xs, Ensures (f x) P) : Ensures (xs.mapM f) fun ys => ∀ y ∈ ys, P y := by
  induction xs with
  | nil => exact ensures_ok (by simp)
  | cons x xs ih =>
    rw [List.mapM_cons]
    refine (h x List.mem_cons_self).bind fun y hy => ?_
    refine (ih fun x' hx' => h x' (List.mem_cons_of_mem _ hx')).bind fun ys hys => ?_
    exact ensures_ok (List.forall_mem_cons.2 ⟨hy, hys⟩)

theorem ensures_mapM_false {f : β → Except ε γ} {xs : List β} {x : β} (hx : x ∈ xs)
    (h : Ensures (f x) fun _ => False) : Ensures (xs.mapM f) fun _ => False := by
  induction xs with
  | nil => cases hx
  | cons x' xs ih =>
    rw [List.mapM_cons]
    rcases List.mem_cons.1 hx with rfl | hrest
    · exact h.bind fun _ => False.elim
    · refine (ensures_true _).bind fun y _ => ?_
      exact (ih hrest).bind fun _ => False.elim

theorem mapM_ok {f : β → Except ε γ} {g : β → γ} {xs : List β} (h : ∀ x ∈ xs, f x = .ok (g x)) :
    xs.mapM f = .ok (xs.map g) := by
  induction xs with
  | nil => rfl
  | cons x xs ih =>
    rw [List.mapM_cons, h x List.mem_cons_self, ih fun x' hx' => h x' (List.mem_cons_of_mem _ hx')]
    rfl

/-- What a list succeeds with is what its items succeed with. -/
theorem mapM_eq_ok_iff {f : β → Except ε γ} {xs : List β} {ys : List γ} :
    xs.mapM f = .ok ys ↔ List.Forall₂ (fun x y => f x = .ok y) xs ys := by
  constructor
  · intro h
    induction xs generalizing ys with
    | nil =>
      cases h
      exact .nil
    | cons x xs ih =>
      rw [List.mapM_cons] at h
      obtain ⟨y, hy, h⟩ := exists_of_bind h
      obtain ⟨zs, hzs, h⟩ := exists_of_bind h
      cases h
      exact .cons hy (ih hzs)
  · intro h
    induction h with
    | nil => rfl
    | cons hy _ ih =>
      rw [List.mapM_cons, hy, ih]
      rfl

/-- Two lists that come to the same item by item come to the same. -/
theorem map_mapM_congr {δ : Type} {f : β → Except ε γ} {g : γ → δ} {xs ys : List β}
    (h : List.Forall₂ (fun x y => (f x).map g = (f y).map g) xs ys) :
    (xs.mapM f).map (List.map g) = (ys.mapM f).map (List.map g) := by
  have hcons : ∀ x xs, ((x :: xs).mapM f).map (List.map g) = (do
      let z ← (f x).map g
      let zs ← (xs.mapM f).map (List.map g)
      return z :: zs) := by
    intro x xs
    rw [List.mapM_cons]
    cases f x with
    | error e => rfl
    | ok y => cases xs.mapM f <;> rfl
  induction h with
  | nil => rfl
  | cons hx _ ih => rw [hcons, hcons, hx, ih]

/-- Each of the results that are all there comes from an item. -/
theorem exists_of_mem_mapM {f : β → Option γ} {xs : List β} {ys : List γ} {y : γ}
    (h : xs.mapM f = some ys) (hy : y ∈ ys) : ∃ x ∈ xs, f x = some y := by
  induction xs generalizing ys with
  | nil =>
    cases h
    cases hy
  | cons x xs ih =>
    rw [List.mapM_cons] at h
    obtain ⟨y', hy', h⟩ := Option.bind_eq_some_iff.1 h
    obtain ⟨ys', hys', heq⟩ := Option.bind_eq_some_iff.1 h
    cases heq
    rcases List.mem_cons.1 hy with rfl | hrest
    · exact ⟨x, List.mem_cons_self, hy'⟩
    · obtain ⟨x', hx', hfx'⟩ := ih hys' hrest
      exact ⟨x', List.mem_cons_of_mem _ hx', hfx'⟩

theorem isSome_mapM_iff {f : β → Option γ} {xs : List β} :
    (xs.mapM f).isSome = true ↔ ∀ x ∈ xs, (f x).isSome = true := by
  induction xs with
  | nil => simp
  | cons x xs ih =>
    rw [List.mapM_cons, List.forall_mem_cons, ← ih]
    cases f x with
    | none => simp
    | some y => cases xs.mapM f <;> simp

end FieldDiagram
