import FieldDiagram.Json.Reading
import FieldDiagram.Proofs.Decimal.Whole
import FieldDiagram.Proofs.Ensures
import FieldDiagram.Proofs.Json.Members
import FieldDiagram.Proofs.Json.Spelled
/-!
# Numbers in texts are finite

A text has no way to write a number that is not finite, and a number beyond the largest one is refused.
So every number inside a value that was read is finite as a machine number: `isFinite_value`. Sorting
members keeps it that way.
-/

namespace FieldDiagram

namespace Json

/-! ## Finite values

A property of all numbers at once, by recursion over the value. -/

mutual

/-- Whether all numbers of a value are finite as machine numbers. -/
def Value.IsFinite : Value → Prop
  | .number n => n.toFloat.isFinite = true
  | .array items => itemsFinite items
  | .object members => membersFinite members
  | _ => True

/-- Whether all numbers of items are finite. -/
def itemsFinite : List Value → Prop
  | [] => True
  | x :: xs => x.IsFinite ∧ itemsFinite xs

/-- Whether all numbers of members are finite. -/
def membersFinite : List (String × Value) → Prop
  | [] => True
  | (_, v) :: ms => v.IsFinite ∧ membersFinite ms

end

theorem itemsFinite_iff {xs : List Value} : itemsFinite xs ↔ ∀ x ∈ xs, x.IsFinite := by
  induction xs with
  | nil => simp [itemsFinite]
  | cons x xs ih => rw [itemsFinite, ih, List.forall_mem_cons]

theorem membersFinite_iff {ms : List (String × Value)} :
    membersFinite ms ↔ ∀ m ∈ ms, m.2.IsFinite := by
  induction ms with
  | nil => simp [membersFinite]
  | cons m ms ih => rw [membersFinite, ih, List.forall_mem_cons]

mutual

/-- A value with sorted members has the numbers that it had, or fewer. -/
theorem Value.IsFinite.canonical : ∀ {v : Value}, v.IsFinite → v.canonical.IsFinite
  | .null, _ => trivial
  | .boolean _, _ => trivial
  | .number _, h => h
  | .string _, _ => trivial
  | .array _, h => itemsFinite_canonical h
  | .object _, h =>
    membersFinite_iff.2 fun m hm =>
      membersFinite_iff.1 (membersFinite_canonical h) m (mem_of_mem_sortMembers hm)

theorem itemsFinite_canonical : ∀ {xs : List Value}, itemsFinite xs → itemsFinite (canonicalItems xs)
  | [], _ => trivial
  | _ :: _, h => ⟨h.1.canonical, itemsFinite_canonical h.2⟩

theorem membersFinite_canonical : ∀ {ms : List (String × Value)},
    membersFinite ms → membersFinite (canonicalMembers ms)
  | [], _ => trivial
  | _ :: _, h => ⟨h.1.canonical, membersFinite_canonical h.2⟩

end

/-! ## Values that were read

Every number in a value comes from a token, and tokens give finite numbers or none. -/

theorem Number.isFinite_of_ofToken? {t : NumberToken} {n : Number} (h : ofToken? t = some n) :
    n.toFloat.isFinite = true := by
  rw [ofToken?, wordSize] at h
  split at h
  · next hwhole =>
    cases h
    exact Double.isFinite_ofInt (by omega)
  split at h
  · next hwhole =>
    cases h
    exact Double.isFinite_ofInt (by omega)
  obtain ⟨pattern, hpattern, rfl⟩ := Option.map_eq_some_iff.1 h
  exact (Double.isFinite_iff _).2
    ⟨_, _, Double.parts_ofPattern _ (NumberToken.pattern_lt_infinity hpattern)⟩

mutual

/-- **All numbers of a value that was read are finite.** -/
theorem isFinite_value : ∀ (depth : Nat) (r : Reading), Ensures (r.value depth) Value.IsFinite
  | _, .defect _ => ensures_error _ _
  | _, .null => ensures_ok trivial
  | _, .boolean _ => ensures_ok trivial
  | _, .number t => by
    rw [Reading.value]
    cases hn : Number.ofToken? t with
    | none => exact ensures_error _ _
    | some n => exact ensures_ok (Number.isFinite_of_ofToken? hn)
  | _, .string s => Ensures.map ((ensures_true s.text).mono fun _ _ => trivial)
  | 0, .array _ _ => ensures_error _ _
  | depth + 1, .array items ending => by
    refine (itemsFinite_values depth items).bind fun vs hvs => ?_
    cases ending with
    | none => exact ensures_ok hvs
    | some f => exact ensures_error _ _
  | 0, .object _ _ => ensures_error _ _
  | depth + 1, .object members ending => by
    refine (membersFinite_values depth members).bind fun ms hms => ?_
    cases ending with
    | closed => exact ensures_ok hms
    | fault f => exact ensures_error _ _
    | unnamed f => exact ensures_error _ _

theorem itemsFinite_values : ∀ (depth : Nat) (xs : List Reading),
    Ensures (itemValues depth xs) itemsFinite
  | _, [] => ensures_ok trivial
  | depth, x :: xs =>
    (isFinite_value depth x).bind fun _ hv =>
      (itemsFinite_values depth xs).bind fun _ hvs => ensures_ok ⟨hv, hvs⟩

theorem membersFinite_values : ∀ (depth : Nat) (ms : List (StringToken × Reading)),
    Ensures (memberValues depth ms) membersFinite
  | _, [] => ensures_ok trivial
  | depth, (k, x) :: ms =>
    (ensures_true k.text).bind fun _ _ =>
      (isFinite_value depth x).bind fun _ hv =>
        (membersFinite_values depth ms).bind fun _ hms => ensures_ok ⟨hv, hms⟩

end

end Json

end FieldDiagram
