import Mathlib.Data.List.Induction
/-!
# What a history says last

Several laws of this library say that a thing is as the last event that concerned it left it. A history
is a list of events, oldest first, and a function tells what each event says about the thing, if it
tells anything. Histories grow at their end, so every lemma here has a form for `h ++ [b]`, which is the
step of an induction over a run.
-/

namespace FieldDiagram

variable {β γ : Type}

/-- The last thing that a history says, and the events after it. -/
def sinceLatest? (tells : β → Option γ) : List β → Option (γ × List β)
  | [] => none
  | b :: h => (sinceLatest? tells h).or ((tells b).map (·, h))

/-- The last thing that a history says. -/
def latest? (tells : β → Option γ) (h : List β) : Option γ := (sinceLatest? tells h).map Prod.fst

@[simp] theorem sinceLatest?_nil (tells : β → Option γ) : sinceLatest? tells [] = none := rfl

@[simp] theorem latest?_nil (tells : β → Option γ) : latest? tells [] = none := rfl

/-- One more event either says something itself, or is one more event after the last that did. -/
theorem sinceLatest?_concat (tells : β → Option γ) (h : List β) (b : β) :
    sinceLatest? tells (h ++ [b]) =
      ((tells b).map (·, [])).or ((sinceLatest? tells h).map fun (c, later) => (c, later ++ [b])) := by
  induction h with
  | nil => simp [sinceLatest?]
  | cons a h ih =>
    rw [List.cons_append, sinceLatest?, ih, sinceLatest?]
    cases tells b <;> cases sinceLatest? tells h <;> cases tells a <;> rfl

/-- What is said by one more event replaces what was said before. -/
theorem latest?_concat (tells : β → Option γ) (h : List β) (b : β) :
    latest? tells (h ++ [b]) = (tells b).or (latest? tells h) := by
  rw [latest?, sinceLatest?_concat, latest?]
  cases tells b <;> cases sinceLatest? tells h <;> rfl

@[simp] theorem latest?_singleton (tells : β → Option γ) (b : β) : latest? tells [b] = tells b := by
  rw [← List.nil_append [b], latest?_concat, latest?_nil, Option.or_none]

theorem latest?_append (tells : β → Option γ) (h k : List β) :
    latest? tells (h ++ k) = (latest? tells k).or (latest? tells h) := by
  induction k using List.reverseRecOn with
  | nil => simp
  | append_singleton k b ih =>
    rw [← List.append_assoc, latest?_concat, ih, latest?_concat, Option.or_assoc]

theorem getD_latest?_concat (tells : β → Option γ) (h : List β) (b : β) (c : γ) :
    (latest? tells (h ++ [b])).getD c = (tells b).getD ((latest? tells h).getD c) := by
  rw [latest?_concat]
  cases tells b <;> rfl

/-- A thing that starts as `c` and is afterwards as it was last said to be. -/
theorem getD_latest?_append (tells : β → Option γ) (h k : List β) (c : γ) :
    (latest? tells (h ++ k)).getD c = (latest? tells k).getD ((latest? tells h).getD c) := by
  rw [latest?_append]
  cases latest? tells k <;> rfl

theorem sinceLatest?_eq_none_iff {tells : β → Option γ} {h : List β} :
    sinceLatest? tells h = none ↔ ∀ d ∈ h, tells d = none := by
  induction h with
  | nil => simp
  | cons a h ih =>
    rw [sinceLatest?, Option.or_eq_none_iff, ih, Option.map_eq_none_iff, List.forall_mem_cons, and_comm]

theorem latest?_eq_none_iff {tells : β → Option γ} {h : List β} :
    latest? tells h = none ↔ ∀ d ∈ h, tells d = none := by
  rw [latest?, Option.map_eq_none_iff, sinceLatest?_eq_none_iff]

theorem sinceLatest?_map {δ : Type} (tells : β → Option γ) (part : γ → δ) (h : List β) :
    sinceLatest? (fun b => (tells b).map part) h =
      (sinceLatest? tells h).map fun (c, later) => (part c, later) := by
  induction h with
  | nil => rfl
  | cons a h ih =>
    rw [sinceLatest?, ih, sinceLatest?]
    cases sinceLatest? tells h <;> cases tells a <;> rfl

/-- **The defining property**: the last thing that is said is said by an event after which nothing
more is said. -/
theorem sinceLatest?_eq_some_iff {tells : β → Option γ} {h later : List β} {c : γ} :
    sinceLatest? tells h = some (c, later) ↔
      ∃ before b, h = before ++ b :: later ∧ tells b = some c ∧ ∀ d ∈ later, tells d = none := by
  induction h with
  | nil => simp
  | cons a h ih =>
    rw [sinceLatest?, Option.or_eq_some_iff, ih, sinceLatest?_eq_none_iff]
    constructor
    · rintro (⟨before, b, rfl, hb, hlater⟩ | ⟨hnone, ha⟩)
      · exact ⟨a :: before, b, rfl, hb, hlater⟩
      · obtain ⟨c', hc', heq⟩ := Option.map_eq_some_iff.1 ha
        obtain ⟨rfl, rfl⟩ := Prod.mk.inj heq
        exact ⟨[], a, rfl, hc', hnone⟩
    · rintro ⟨before, b, heq, hb, hlater⟩
      cases before with
      | nil =>
        obtain ⟨rfl, rfl⟩ := List.cons.inj heq
        exact Or.inr ⟨hlater, by rw [hb, Option.map_some]⟩
      | cons a' before =>
        obtain ⟨rfl, rfl⟩ := List.cons.inj heq
        exact Or.inl ⟨before, b, rfl, hb, hlater⟩

theorem exists_of_latest?_eq_some {tells : β → Option γ} {h : List β} {c : γ}
    (hc : latest? tells h = some c) : ∃ b ∈ h, tells b = some c := by
  obtain ⟨⟨c', later⟩, hsince, rfl⟩ := Option.map_eq_some_iff.1 hc
  obtain ⟨before, b, rfl, hb, -⟩ := sinceLatest?_eq_some_iff.1 hsince
  exact ⟨b, List.mem_append_right _ (List.mem_cons_self ..), hb⟩

/-! ## What is still outstanding

Some things that are said hold only until a later event ends them. What an event says, and whether it
ends something, may depend on the events before it. -/

/-- `c` was said last and nothing has ended it since. -/
def Outstanding (tells : List β → β → Option γ) (ends : List β → β → Prop) (h : List β) (c : γ) :
    Prop :=
  ∃ before b later, h = before ++ b :: later ∧ tells before b = some c ∧
    ∀ mid d rest, later = mid ++ d :: rest →
      tells (before ++ b :: mid) d = none ∧ ¬ ends (before ++ b :: mid) d

section Outstanding

variable {tells : List β → β → Option γ} {ends : List β → β → Prop}

@[simp] theorem not_outstanding_nil (c : γ) : ¬ Outstanding tells ends [] c := by
  rintro ⟨before, b, later, heq, -⟩
  exact absurd heq (by simp)

/-- One more event says `c` itself, or it says nothing and lets `c` stand. -/
theorem outstanding_concat {h : List β} {d : β} {c : γ} :
    Outstanding tells ends (h ++ [d]) c ↔
      tells h d = some c ∨ (tells h d = none ∧ ¬ ends h d ∧ Outstanding tells ends h c) := by
  constructor
  -- the event is the last one if nothing comes later, and otherwise the last one lets it stand
  · rintro ⟨before, b, later, heq, hb, hlater⟩
    rcases List.eq_nil_or_concat later with rfl | ⟨mid, d', rfl⟩
    · obtain ⟨rfl, hd⟩ := List.append_inj' heq rfl
      obtain ⟨rfl, -⟩ := List.cons.inj hd
      exact Or.inl hb
    · rw [List.concat_eq_append] at heq hlater
      rw [← List.cons_append, ← List.append_assoc] at heq
      obtain ⟨rfl, hd⟩ := List.append_inj' heq rfl
      obtain ⟨rfl, -⟩ := List.cons.inj hd
      obtain ⟨hsilent, hkept⟩ := hlater mid d [] rfl
      refine Or.inr ⟨hsilent, hkept, before, b, mid, rfl, hb, ?_⟩
      intro mid' e rest hmid
      exact hlater mid' e (rest ++ [d]) (by rw [hmid, List.append_assoc, List.cons_append])
  · rintro (hd | ⟨hsilent, hkept, before, b, later, rfl, hb, hlater⟩)
    · exact ⟨h, d, [], rfl, hd, by simp⟩
    · refine ⟨before, b, later ++ [d], by rw [List.append_assoc, List.cons_append], hb, ?_⟩
      intro mid e rest hmid
      rcases List.eq_nil_or_concat rest with rfl | ⟨rest', e', rfl⟩
      · obtain ⟨rfl, hde⟩ := List.append_inj' hmid rfl
        obtain ⟨rfl, -⟩ := List.cons.inj hde
        exact ⟨hsilent, hkept⟩
      · rw [List.concat_eq_append, ← List.cons_append, ← List.append_assoc] at hmid
        exact hlater mid e rest' (List.append_inj' hmid rfl).1

end Outstanding

end FieldDiagram
