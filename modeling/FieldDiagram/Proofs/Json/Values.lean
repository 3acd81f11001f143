import FieldDiagram.Json.Reading
import FieldDiagram.Proofs.Ensures
import FieldDiagram.Proofs.Json.Members
/-!
# Values of readings

A reader that wants whole values goes through the members of an object one after the other and minds
only how deeply they are nested: what it gets of some members is what it gets of the first and of the
others (`memberValues_append`), under the names that they have, and the limit that it keeps makes no
difference as long as nothing is nested more deeply (`value_eq_of_depth_le`).
-/

namespace FieldDiagram.Json

/-! ## Members one after the other

Members are gone through from left to right, and the first that has no value ends it. -/

theorem memberValues_append (depth : Nat) (ms ns : List (StringToken × Reading)) :
    memberValues depth (ms ++ ns) = (do
      let vs ← memberValues depth ms
      let ws ← memberValues depth ns
      .ok (vs ++ ws)) := by
  induction ms with
  | nil =>
    rw [List.nil_append, memberValues]
    cases memberValues depth ns <;> rfl
  | cons m ms ih =>
    obtain ⟨k, r⟩ := m
    rw [List.cons_append, memberValues, memberValues, ih]
    cases k.text with
    | error f => rfl
    | ok name =>
      cases r.value depth with
      | error f => rfl
      | ok v =>
        cases memberValues depth ms with
        | error f => rfl
        | ok vs => cases memberValues depth ns <;> rfl

/-- Values stand under the names of their members. -/
theorem names_of_memberValues {depth : Nat} {ms : List (StringToken × Reading)}
    {vs : List (String × Value)} (h : memberValues depth ms = .ok vs) :
    vs.map Prod.fst = ms.filterMap fun m => m.1.text.toOption := by
  induction ms generalizing vs with
  | nil =>
    cases h
    rfl
  | cons m ms ih =>
    obtain ⟨k, r⟩ := m
    rw [memberValues] at h
    obtain ⟨name, hname, h⟩ := exists_of_bind h
    obtain ⟨v, -, h⟩ := exists_of_bind h
    obtain ⟨ws, hws, h⟩ := exists_of_bind h
    cases h
    rw [List.map_cons, ih hws, List.filterMap_cons, hname]
    rfl

/-- A member in the middle that has a value. -/
theorem memberValues_middle {depth : Nat} {m : StringToken × Reading} {name : String} {v : Value}
    (hname : m.1.text = .ok name) (hv : m.2.value depth = .ok v)
    (ms ns : List (StringToken × Reading)) :
    memberValues depth (ms ++ m :: ns) = (do
      let vs ← memberValues depth ms
      let ws ← memberValues depth ns
      .ok (vs ++ (name, v) :: ws)) := by
  rw [memberValues_append, memberValues, hname, hv]
  cases memberValues depth ms with
  | error f => rfl
  | ok vs => cases memberValues depth ns <;> rfl

/-! ## Nesting

Two readers may differ in how deeply they go, and agree on what both can reach. -/

mutual

/-- How many arrays and objects stand inside each other in what was read. -/
def Reading.depth : Reading → Nat
  | .array items _ => itemsNesting items + 1
  | .object members _ => membersNesting members + 1
  | _ => 0

/-- How deeply the deepest item is nested. -/
def itemsNesting : List Reading → Nat
  | [] => 0
  | x :: xs => max x.depth (itemsNesting xs)

/-- How deeply the deepest member is nested. -/
def membersNesting : List (StringToken × Reading) → Nat
  | [] => 0
  | (_, x) :: ms => max x.depth (membersNesting ms)

end

theorem membersNesting_le_iff {ms : List (StringToken × Reading)} {d : Nat} :
    membersNesting ms ≤ d ↔ ∀ m ∈ ms, m.2.depth ≤ d := by
  induction ms with
  | nil => simp [membersNesting]
  | cons m ms ih => rw [membersNesting, Nat.max_le, ih, List.forall_mem_cons]

mutual

/-- **A limit that is kept makes no difference**: two readers that allow for the nesting get the same. -/
theorem value_eq_of_depth_le : ∀ {r : Reading} {d e : Nat}, r.depth ≤ d → r.depth ≤ e →
    r.value d = r.value e
  | .array items ending, d, e, hd, he => by
    obtain ⟨d, rfl⟩ := Nat.exists_eq_add_of_le' (Nat.le_of_add_left_le hd)
    obtain ⟨e, rfl⟩ := Nat.exists_eq_add_of_le' (Nat.le_of_add_left_le he)
    rw [Reading.value, Reading.value]
    rw [itemValues_eq_of_nesting_le (Nat.le_of_succ_le_succ hd) (Nat.le_of_succ_le_succ he)]
  | .object members ending, d, e, hd, he => by
    obtain ⟨d, rfl⟩ := Nat.exists_eq_add_of_le' (Nat.le_of_add_left_le hd)
    obtain ⟨e, rfl⟩ := Nat.exists_eq_add_of_le' (Nat.le_of_add_left_le he)
    rw [Reading.value, Reading.value]
    rw [memberValues_eq_of_nesting_le (Nat.le_of_succ_le_succ hd) (Nat.le_of_succ_le_succ he)]
  | .defect _, _, _, _, _ => rfl
  | .null, _, _, _, _ => rfl
  | .boolean _, _, _, _, _ => rfl
  | .number _, _, _, _, _ => rfl
  | .string _, _, _, _, _ => rfl

theorem itemValues_eq_of_nesting_le : ∀ {xs : List Reading} {d e : Nat}, itemsNesting xs ≤ d →
    itemsNesting xs ≤ e → itemValues d xs = itemValues e xs
  | [], _, _, _, _ => rfl
  | x :: xs, d, e, hd, he => by
    obtain ⟨hfirst, hrest⟩ := Nat.max_le.1 hd
    obtain ⟨hfirst', hrest'⟩ := Nat.max_le.1 he
    rw [itemValues, itemValues, value_eq_of_depth_le hfirst hfirst',
      itemValues_eq_of_nesting_le hrest hrest']

theorem memberValues_eq_of_nesting_le : ∀ {ms : List (StringToken × Reading)} {d e : Nat},
    membersNesting ms ≤ d → membersNesting ms ≤ e → memberValues d ms = memberValues e ms
  | [], _, _, _, _ => rfl
  | (k, x) :: ms, d, e, hd, he => by
    obtain ⟨hfirst, hrest⟩ := Nat.max_le.1 hd
    obtain ⟨hfirst', hrest'⟩ := Nat.max_le.1 he
    rw [memberValues, memberValues, value_eq_of_depth_le hfirst hfirst',
      memberValues_eq_of_nesting_le hrest hrest']

end

end FieldDiagram.Json
