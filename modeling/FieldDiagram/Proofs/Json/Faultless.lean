import FieldDiagram.Json.Reading
import FieldDiagram.Proofs.Ensures
import Mathlib.Data.List.Infix
/-!
# Texts that are read to their end

A reader that gets past a value has met no fault in it. So in a text that is an object every member has
a value that can be skipped (`firstFault?_of_read`), whatever the value would be for someone who wants it.
-/

namespace FieldDiagram.Json

/-! ## Tokens

Cutting a text into tokens does not stop at a string that is broken; such a token is the last one, and
whoever gets past it has not met it. -/

/-- Tokens of which only the last one may be a string with a fault. -/
def Tidy (ts : List Token) : Prop :=
  ∀ s t rest, Token.string s :: t :: rest <:+ ts → s.fault = none

theorem Tidy.tail {t : Token} {ts : List Token} (h : Tidy (t :: ts)) : Tidy ts :=
  fun s u rest hsuffix => h s u rest (hsuffix.trans (List.suffix_cons t ts))

theorem Tidy.cons {t : Token} {ts : List Token} (h : Tidy ts)
    (ht : ∀ s, t = .string s → s.fault = none ∨ ts = []) : Tidy (t :: ts) := by
  intro s u rest hsuffix
  rcases List.suffix_cons_iff.1 hsuffix with heq | hrest
  · obtain ⟨rfl, rfl⟩ := List.cons.inj heq
    exact (ht s rfl).resolve_right (List.cons_ne_nil _ _)
  · exact h s u rest hrest

/-- Nothing is read after a string with a fault. -/
theorem scanString_of_fault (text : List Char) :
    (scanString text).1.fault = none ∨ (scanString text).2 = [] := by
  fun_induction scanString text with
  | case1 => exact Or.inr rfl
  | case2 rest => exact Or.inl rfl
  | case3 => exact Or.inr rfl
  | case4 escape unit rest found s after eq ih =>
    rw [eq] at ih
    exact ih
  | case5 => exact Or.inr rfl
  | case6 c rest _ _ _ s after eq ih =>
    rw [eq] at ih
    exact ih

theorem scanToken_of_fault {c : Char} {rest : List Char} {s : StringToken}
    (h : (scanToken c rest).1 = .string s) : s.fault = none ∨ (scanToken c rest).2 = [] := by
  have hword : ∀ {t : Token} (word : List Char), (∀ s, t ≠ .string s) →
      (scanWord t word rest).1 ≠ .string s := by
    intro t word ht
    rw [scanWord]
    split
    · exact ht s
    · split <;> nofun
  unfold scanToken at h ⊢
  split at h
  case h_10 =>
    cases h
    exact scanString_of_fault rest
  case h_7 => exact absurd h (hword _ nofun)
  case h_8 => exact absurd h (hword _ nofun)
  case h_9 => exact absurd h (hword _ nofun)
  case h_11 =>
    split at h
    · split at h <;> cases h
    · cases h
  all_goals cases h

theorem tidy_tokens (text : List Char) : Tidy (tokens text) := by
  fun_induction tokens text with
  | case1 => exact fun s t rest hsuffix => by cases List.suffix_nil.1 hsuffix
  | case2 c rest hspace ih => exact ih
  | case3 c rest hspace ih =>
    -- a string with a fault takes all that is left with it, so it is the last token
    refine ih.cons fun s hs => (scanToken_of_fault hs).imp_right fun hrest => ?_
    rw [hrest, tokens]

/-! ## Readings

Each of the three readers leaves tokens behind only if it has met no fault, and this is proved for all three
at once along their recursion. -/

mutual

/-- A value that is left has no fault. -/
theorem firstFault?_of_readValue {ts : List Token} (h : Tidy ts) {r : Reading} {rest : Rest ts}
    (hread : readValue ts = (r, .ok rest)) : Tidy rest.1 ∧ r.firstFault? = none := by
  -- the first token tells what is read; `hread` is impossible wherever a fault leaves nothing behind
  rw [readValue.eq_def] at hread
  split at hread
  case h_1 => cases hread
  case h_2 =>
    cases hread
    exact ⟨h.tail, rfl⟩
  case h_3 =>
    cases hread
    exact ⟨h.tail, rfl⟩
  case h_4 =>
    cases hread
    exact ⟨h.tail, rfl⟩
  case h_5 s _ =>
    cases hs : s.fault with
    | some f =>
      rw [hs] at hread
      cases hread
    | none =>
      rw [hs] at hread
      cases hread
      exact ⟨h.tail, hs⟩
  case h_6 =>
    cases hread
    exact ⟨h.tail.tail, rfl⟩
  case h_7 more _ =>
    rcases hitems : readItems more with ⟨xs, ending, f | after⟩
    · simp only [hitems] at hread
      cases hread
    · simp only [hitems] at hread
      cases hread
      obtain ⟨htidy, rfl, hfault⟩ := itemsFault?_of_readItems h.tail hitems
      refine ⟨htidy, ?_⟩
      rw [Reading.firstFault?, hfault]
      rfl
  case h_8 =>
    cases hread
    exact ⟨h.tail.tail, rfl⟩
  case h_9 more _ =>
    rcases hmembers : readMembers more with ⟨ms, ending, f | after⟩
    · simp only [hmembers] at hread
      cases hread
    · simp only [hmembers] at hread
      cases hread
      obtain ⟨hfault, hleft⟩ := membersFault?_of_readMembers h.tail hmembers
      obtain ⟨htidy, rfl⟩ := hleft _ rfl
      refine ⟨htidy, ?_⟩
      rw [Reading.firstFault?, hfault rfl]
      rfl
  case h_10 => cases hread
  case h_11 => cases hread
termination_by 2 * ts.length

/-- Nor have the items of an array that is left. -/
theorem itemsFault?_of_readItems {ts : List Token} (h : Tidy ts) {xs : List Reading}
    {ending : Option Fault} {rest : Rest ts} (hread : readItems ts = (xs, ending, .ok rest)) :
    Tidy rest.1 ∧ ending = none ∧ itemsFault? xs = none := by
  -- what follows an item decides: a comma goes on, a bracket closes, and all else is a fault
  rcases hx : readValue ts with ⟨x, f | ⟨us, hus⟩⟩
  · rw [readItems] at hread
    simp only [hx] at hread
    cases hread
  · obtain ⟨htidy, hfault⟩ := firstFault?_of_readValue h hx
    rw [readItems] at hread
    simp only [hx] at hread
    rcases us with _ | ⟨t, us⟩
    · cases hread
    · cases t with
      | comma =>
        have hfewer : us.length < ts.length := Nat.lt_of_succ_lt hus
        rcases hmore : readItems us with ⟨ys, ending', f | after⟩
        · simp only [hmore] at hread
          cases hread
        · simp only [hmore] at hread
          cases hread
          obtain ⟨htidy', rfl, hfault'⟩ := itemsFault?_of_readItems htidy.tail hmore
          refine ⟨htidy', rfl, ?_⟩
          rw [itemsFault?, hfault, hfault']
          rfl
      | closeArray =>
        cases hread
        refine ⟨htidy.tail, rfl, ?_⟩
        rw [itemsFault?, hfault]
        rfl
      | _ => cases hread
termination_by 2 * ts.length + 1

/-- Nor have the members of an object that is closed, and an object that is left is closed. -/
theorem membersFault?_of_readMembers {ts : List Token} (h : Tidy ts)
    {ms : List (StringToken × Reading)} {ending : Ending} {after : Except Fault (Rest ts)}
    (hread : readMembers ts = (ms, ending, after)) :
    (ending = .closed → membersFault? ms = none) ∧
      ∀ rest, after = .ok rest → Tidy rest.1 ∧ ending = .closed := by
  rw [readMembers.eq_def] at hread
  split at hread
  case h_1 =>
    cases hread
    exact ⟨nofun, nofun⟩
  case h_2 name more =>
    -- a colon follows the name, so the name was read to its end
    have hname : name.fault = none := h name .colon more (List.suffix_refl _)
    rcases hv : readValue more with ⟨v, f | ⟨us, hus⟩⟩
    · simp only [hv] at hread
      cases hread
      exact ⟨nofun, nofun⟩
    · obtain ⟨htidy, hfault⟩ := firstFault?_of_readValue h.tail.tail hv
      simp only [hv] at hread
      rcases us with _ | ⟨t, us⟩
      · cases hread
        exact ⟨nofun, nofun⟩
      · cases t with
        | comma =>
          have hfewer : us.length < more.length := Nat.lt_of_succ_lt hus
          rcases hmore : readMembers us with ⟨ms', ending', after'⟩
          simp only [hmore] at hread
          cases hread
          obtain ⟨hfault', hleft⟩ := membersFault?_of_readMembers htidy.tail hmore
          refine ⟨fun hclosed => ?_, fun rest hrest => ?_⟩
          · rw [membersFault?, hname, hfault, hfault' hclosed]
            rfl
          · obtain ⟨rest', hrest', rfl⟩ := exists_of_map hrest
            exact hleft rest' hrest'
        | closeObject =>
          cases hread
          refine ⟨fun _ => ?_, fun rest hrest => ?_⟩
          · rw [membersFault?, hname, hfault]
            rfl
          · cases hrest
            exact ⟨htidy.tail, rfl⟩
        | _ =>
          cases hread
          exact ⟨nofun, nofun⟩
  case h_3 =>
    cases hread
    exact ⟨nofun, nofun⟩
  case h_4 =>
    cases hread
    exact ⟨nofun, nofun⟩
termination_by 2 * ts.length + 1
decreasing_by
  all_goals
    subst_vars
    simp only [List.length_cons]
    omega

end

theorem membersFault?_eq_none_iff {ms : List (StringToken × Reading)} :
    membersFault? ms = none ↔ ∀ m ∈ ms, m.1.fault = none ∧ m.2.firstFault? = none := by
  induction ms with
  | nil => simp [membersFault?]
  | cons m ms ih =>
    rw [membersFault?, List.forall_mem_cons, Option.or_eq_none_iff, Option.or_eq_none_iff, ih, and_assoc]

/-- The members of a closed object have no fault, whatever follows it. -/
theorem membersFault?_of_readValue {ts : List Token} (h : Tidy ts)
    {members : List (StringToken × Reading)} {after : Except Fault (Rest ts)}
    (hread : readValue ts = (.object members .closed, after)) : membersFault? members = none := by
  rw [readValue.eq_def] at hread
  split at hread
  case h_8 =>
    cases hread
    rfl
  case h_9 more _ =>
    rcases hmembers : readMembers more with ⟨ms, ending, after'⟩
    simp only [hmembers] at hread
    cases hread
    exact (membersFault?_of_readMembers h.tail hmembers).1 rfl
  all_goals cases hread

/-- **In a text that is an object every member can be skipped.** -/
theorem firstFault?_of_read {text : String} {members : List (StringToken × Reading)}
    {rest : List Token} (h : read text = (.object members .closed, rest)) :
    ∀ m ∈ members, m.2.firstFault? = none := by
  have hreading : ∃ after, readValue (tokens text.toList) = (.object members .closed, after) := by
    rw [read] at h
    rcases hread : readValue (tokens text.toList) with ⟨r, f | after⟩
    · rw [hread] at h
      cases h
      exact ⟨_, rfl⟩
    · rw [hread] at h
      cases h
      exact ⟨_, rfl⟩
  obtain ⟨after, hread⟩ := hreading
  have hfault := membersFault?_of_readValue (tidy_tokens text.toList) hread
  exact fun m hm => (membersFault?_eq_none_iff.1 hfault m hm).2

end FieldDiagram.Json
