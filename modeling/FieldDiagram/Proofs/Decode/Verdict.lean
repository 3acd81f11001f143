import FieldDiagram.Proofs.Decode.Record
/-!
# Which values a decoder takes

A value that is complete can be wrong in its shape only. `Takes` says of a decoder what it asks for:
under a condition it succeeds, with something of a certain kind, and else it refuses the value. Asking
for one thing and then for another is asking for both, so what a record asks for can be read off its
fields.
-/

namespace FieldDiagram

open Json (Value)

variable {β γ : Type}

/-- A decoder succeeds exactly under a condition, then with something that has a property, and it
refuses the value otherwise. -/
def Takes (d : Decoded β) (Q : Prop) (P : β → Prop) : Prop :=
  (Q ∧ ∃ x, d = .ok x ∧ P x) ∨ (¬ Q ∧ ∃ m, d = refuse m)

theorem takes_ok {P : β → Prop} {x : β} (h : P x) : Takes (.ok x) True P :=
  Or.inl ⟨trivial, x, rfl, h⟩

theorem takes_refuse (m : Mismatch) (P : β → Prop) : Takes (refuse m) False P :=
  Or.inr ⟨id, m, rfl⟩

namespace Takes

variable {d : Decoded β} {Q R : Prop} {P : β → Prop}

theorem of_iff (h : Takes d Q P) (hiff : Q ↔ R) : Takes d R P := by
  rwa [← propext hiff]

theorem mono {P' : β → Prop} (h : Takes d Q P) (himp : ∀ x, P x → P' x) : Takes d Q P' :=
  h.imp_left fun ⟨hQ, x, hx, hP⟩ => ⟨hQ, x, hx, himp x hP⟩

theorem succeeds_iff (h : Takes d Q P) : (∃ x, d = .ok x) ↔ Q := by
  rcases h with ⟨hQ, x, hx, -⟩ | ⟨hQ, m, rfl⟩
  · exact iff_of_true ⟨x, hx⟩ hQ
  · exact iff_of_false (fun ⟨x, hx⟩ => by cases hx) hQ

theorem bind {f : β → Decoded γ} {S : γ → Prop} (h : Takes d Q P)
    (hf : ∀ x, P x → Takes (f x) R S) : Takes (d >>= f) (Q ∧ R) S := by
  rcases h with ⟨hQ, x, rfl, hx⟩ | ⟨hQ, m, rfl⟩
  · exact (hf x hx).imp (And.imp_left (And.intro hQ)) (And.imp_left (mt And.right))
  · exact Or.inr ⟨mt And.left hQ, m, rfl⟩

theorem map {f : β → γ} {S : γ → Prop} (h : Takes d Q P) (hf : ∀ x, P x → S (f x)) :
    Takes (d.map f) Q S := by
  rcases h with ⟨hQ, x, rfl, hx⟩ | ⟨hQ, m, rfl⟩
  · exact Or.inl ⟨hQ, f x, rfl, hf x hx⟩
  · exact Or.inr ⟨hQ, m, rfl⟩

end Takes

theorem takes_mapM {f : β → Decoded γ} {Q : β → Prop} {P : γ → Prop} (hf : ∀ x, Takes (f x) (Q x) P)
    (xs : List β) : Takes (xs.mapM f) (∀ x ∈ xs, Q x) fun _ => True := by
  induction xs with
  | nil => exact (takes_ok trivial).of_iff (by simp)
  | cons x xs ih =>
    rw [List.mapM_cons, List.forall_mem_cons]
    refine (hf x).bind fun y _ => ?_
    exact (ih.bind fun ys _ => takes_ok trivial).of_iff (iff_of_eq (and_true _))

/-! ## Records

A record asks of its fields what their decoders ask, and nothing of the members that it does not know. -/

section Record

variable {ν : Type}

/-- Members with distinct names are taken if the value of each known one will do for its field, and the
unknown ones are left out. -/
theorem takes_collect {shape : RecordShape ν} {A : Field ν → ν → Prop}
    (hcheck : ∀ field ∈ shape.fields, ∀ v, Takes (field.check v) (A field v) fun _ => True)
    (seen ms : List (String × ν)) (hdistinct : Json.DistinctNames (seen ++ ms)) :
    Takes (shape.collect (fun name : String => .ok name) (fun _ => .ok ()) seen ms)
      (∀ m ∈ ms, ∀ field, shape.fields.find? (·.name = m.1) = some field → A field m.2)
      fun entries => entries = seen ++ ms.filter fun m =>
        (shape.fields.find? (·.name = m.1)).isSome := by
  induction ms generalizing seen with
  | nil =>
    refine Takes.of_iff (takes_ok ?_) (by simp)
    exact (List.append_nil seen).symm
  | cons m ms ih =>
    -- a member that is met joins those seen, and the names stay distinct
    have hmoved : Json.DistinctNames ((seen ++ [m]) ++ ms) := by
      rwa [List.append_assoc, List.singleton_append]
    have hrest : Json.DistinctNames (seen ++ ms) :=
      hdistinct.sublist (((List.sublist_cons_self m ms).append_left seen).map Prod.fst)
    rw [RecordShape.collect]
    simp only [bind, Except.bind, List.forall_mem_cons, List.filter_cons]
    cases hfield : shape.fields.find? (·.name = m.1) with
    | none => exact (ih seen hrest).of_iff (by simp)
    | some field =>
      have hnew : seen.lookup m.1 = none := Json.lookup_eq_none_of_middle hdistinct
      have htail := (ih (seen ++ [m]) hmoved).mono fun entries heq =>
        heq.trans (List.append_assoc seen [m] _)
      have hboth := (hcheck field (List.mem_of_find?_eq_some hfield) m.2).bind fun _ _ => htail
      simp only [hnew, Option.isSome_none, Option.isSome_some, if_neg Bool.false_ne_true, if_true]
      refine Takes.of_iff hboth ?_
      simp

end Record

end FieldDiagram
