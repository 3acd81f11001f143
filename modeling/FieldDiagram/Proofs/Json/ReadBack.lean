import FieldDiagram.Proofs.Ensures
import FieldDiagram.Proofs.Json.Text
/-!
# Written values read back

Whoever reads the text of a value sees the tokens of that value, with `null` for every number that is not
finite: `read_text`. A decoder of the text is thus a decoder of that reading. A reader that wants the whole
value gets it if whole numbers are in range and it is not nested too deeply, with each real number as its
digits are read (`value_reading`), and out of a value that is nested too deeply it gets nothing:
`depth_le_of_value`.
-/

namespace FieldDiagram.Json

/-! ## Readings

What is read of a text keeps everything in its place, the order of members and their repetitions included.
For a text that was written it is the value itself, seen as a reading. -/

mutual

/-- What a reader sees of the text of a value. -/
def Value.reading : Value → Reading
  | .null => .null
  | .boolean b => .boolean b
  | .number n => n.token?.elim .null .number
  | .string s => .string (.ofText s)
  | .array items => .array (itemReadings items) none
  | .object members => .object (memberReadings members) .closed

/-- What a reader sees of items. -/
def itemReadings : List Value → List Reading
  | [] => []
  | x :: xs => x.reading :: itemReadings xs

/-- What a reader sees of members. -/
def memberReadings : List (String × Value) → List (StringToken × Reading)
  | [] => []
  | (k, v) :: ms => (.ofText k, v.reading) :: memberReadings ms

end

theorem itemReadings_eq_map (xs : List Value) : itemReadings xs = xs.map Value.reading := by
  induction xs with
  | nil => rfl
  | cons x xs ih => rw [itemReadings, ih, List.map_cons]

theorem tokens_ne_closeArray (v : Value) (ts rest : List Token) :
    v.tokens ++ ts ≠ .closeArray :: rest := by
  cases v with
  | number n =>
    rw [Value.tokens]
    cases n.token? <;> simp
  | array items => cases items <;> simp [Value.tokens]
  | object members => cases members <;> simp [Value.tokens]
  | _ => simp [Value.tokens]

/-- Behind an item stands the end of the array or a further item. -/
theorem readItems_of_read {ts us : List Token} {x : Reading} {h : us.length < ts.length}
    (hx : readValue ts = (x, .ok ⟨us, h⟩)) :
    (∀ rest, us = .closeArray :: rest → ∃ h', readItems ts = ([x], none, .ok ⟨rest, h'⟩)) ∧
      ∀ more xs rest h', us = .comma :: more → readItems more = (xs, none, .ok ⟨rest, h'⟩) →
        ∃ h'', readItems ts = (x :: xs, none, .ok ⟨rest, h''⟩) := by
  constructor
  · rintro rest rfl
    refine ⟨Nat.lt_trans (Nat.lt_succ_self _) h, ?_⟩
    rw [readItems]
    simp only [hx]
    rfl
  · rintro more xs rest h' rfl hmore
    refine ⟨Nat.lt_trans h' (Nat.lt_trans (Nat.lt_succ_self _) h), ?_⟩
    rw [readItems]
    simp only [hx, hmore]
    rfl

/-- Behind a member stands the end of the object or a further member. -/
theorem readMembers_of_read {name : StringToken} {ts us : List Token} {x : Reading}
    {h : us.length < ts.length} (hx : readValue ts = (x, .ok ⟨us, h⟩)) :
    (∀ rest, us = .closeObject :: rest → ∃ h',
      readMembers (.string name :: .colon :: ts) = ([(name, x)], .closed, .ok ⟨rest, h'⟩)) ∧
      ∀ more ms rest h', us = .comma :: more → readMembers more = (ms, .closed, .ok ⟨rest, h'⟩) →
        ∃ h'', readMembers (.string name :: .colon :: ts) =
          ((name, x) :: ms, .closed, .ok ⟨rest, h''⟩) := by
  have hlonger : ts.length < (Token.string name :: Token.colon :: ts).length := by
    simp only [List.length_cons]
    omega
  constructor
  · rintro rest rfl
    refine ⟨Nat.lt_trans (Nat.lt_trans (Nat.lt_succ_self _) h) hlonger, ?_⟩
    rw [readMembers]
    simp only [hx]
    rfl
  · rintro more ms rest h' rfl hmore
    refine ⟨Nat.lt_trans (Nat.lt_trans h' (Nat.lt_trans (Nat.lt_succ_self _) h)) hlonger, ?_⟩
    rw [readMembers]
    simp only [hx, hmore]
    rfl

mutual

/-- The tokens of a value are read as its reading, and what follows them is left. -/
theorem readValue_tokens (ts : List Token) :
    ∀ v : Value, ∃ h, readValue (v.tokens ++ ts) = (v.reading, .ok ⟨ts, h⟩)
  | .null => ⟨by simp [Value.tokens], by simp [Value.tokens, Value.reading, readValue]⟩
  | .boolean b => ⟨by simp [Value.tokens], by simp [Value.tokens, Value.reading, readValue]⟩
  | .number n => by
    rw [Value.tokens, Value.reading]
    rcases n.token? with _ | t
    · exact ⟨by simp, by simp [readValue]⟩
    · exact ⟨by simp, by simp [readValue]⟩
  | .string s =>
    ⟨by simp [Value.tokens], by
      simp [Value.tokens, Value.reading, readValue, StringToken.ofText]⟩
  | .array [] => by
    refine ⟨?_, by simp [Value.tokens, Value.reading, itemReadings, readValue]⟩
    simp only [Value.tokens, List.cons_append, List.nil_append, List.length_cons]
    omega
  | .array (x :: xs) => by
    -- the reader is past the bracket when it reads the first item
    have htokens : (Value.array (x :: xs)).tokens ++ ts =
        .openArray :: (x.tokens ++ (itemTokens xs ++ .closeArray :: ts)) := by
      simp [Value.tokens]
    obtain ⟨h, hx⟩ := readValue_tokens (itemTokens xs ++ .closeArray :: ts) x
    obtain ⟨h', hitems⟩ := readItems_of_tail ts xs hx
    rw [htokens, readValue.eq_7 _ (tokens_ne_closeArray x _), hitems]
    exact ⟨Nat.lt_trans h' (Nat.lt_succ_self _), rfl⟩
  | .object [] => by
    refine ⟨?_, by simp [Value.tokens, Value.reading, memberReadings, readValue]⟩
    simp only [Value.tokens, List.cons_append, List.nil_append, List.length_cons]
    omega
  | .object ((k, v) :: ms) => by
    have htokens : (Value.object ((k, v) :: ms)).tokens ++ ts =
        .openObject :: .string (.ofText k) :: .colon ::
          (v.tokens ++ (memberTokens ms ++ .closeObject :: ts)) := by
      simp [Value.tokens]
    obtain ⟨h, hv⟩ := readValue_tokens (memberTokens ms ++ .closeObject :: ts) v
    obtain ⟨h', hmembers⟩ := readMembers_of_tail ts k ms hv
    rw [htokens, readValue.eq_9 _ (by simp), hmembers]
    exact ⟨Nat.lt_trans h' (Nat.lt_succ_self _), rfl⟩

theorem readItems_of_tail (ts : List Token) :
    ∀ (xs : List Value) {us : List Token} {x : Reading} {h},
      readValue us = (x, .ok ⟨itemTokens xs ++ .closeArray :: ts, h⟩) →
        ∃ h', readItems us = (x :: itemReadings xs, none, .ok ⟨ts, h'⟩)
  | [], _, _, _, hx => (readItems_of_read hx).1 ts rfl
  | y :: ys, _, _, _, hx => by
    obtain ⟨h, hy⟩ := readValue_tokens (itemTokens ys ++ .closeArray :: ts) y
    obtain ⟨h', hys⟩ := readItems_of_tail ts ys hy
    exact (readItems_of_read hx).2 _ _ _ h' (by simp [itemTokens]) hys

theorem readMembers_of_tail (ts : List Token) (k : String) :
    ∀ (ms : List (String × Value)) {us : List Token} {v : Reading} {h},
      readValue us = (v, .ok ⟨memberTokens ms ++ .closeObject :: ts, h⟩) →
        ∃ h', readMembers (.string (.ofText k) :: .colon :: us) =
          ((.ofText k, v) :: memberReadings ms, .closed, .ok ⟨ts, h'⟩)
  | [], _, _, _, hv => (readMembers_of_read hv).1 ts rfl
  | (j, w) :: ms, _, _, _, hv => by
    obtain ⟨h, hw⟩ := readValue_tokens (memberTokens ms ++ .closeObject :: ts) w
    obtain ⟨h', hms⟩ := readMembers_of_tail ts j ms hw
    exact (readMembers_of_read hv).2 _ _ _ h' (by simp [memberTokens]) hms

end

/-- What is read of the tokens of a text is read of the text. -/
theorem read_of_tokens {text : String} {ts rest : List Token} {r : Reading} {h : rest.length < ts.length}
    (htokens : tokens text.toList = ts) (hread : readValue ts = (r, .ok ⟨rest, h⟩)) :
    read text = (r, rest) := by
  subst htokens
  rw [read, hread]

/-- **The text of a value is read as its reading**, and nothing is left of it. -/
theorem read_text (v : Value) : read v.text = (v.reading, []) := by
  have htokens : tokens v.text.toList = v.tokens := by
    have hchars := tokens_chars endsNumber_nil v
    rw [List.append_nil, show tokens [] = [] by simp [tokens], List.append_nil] at hchars
    rwa [Value.text, String.toList_ofList]
  have hvalue := readValue_tokens [] v
  rw [List.append_nil] at hvalue
  obtain ⟨h, hread⟩ := hvalue
  exact read_of_tokens htokens hread

/-! ## Values

A value is made of a reading by a decoder of its own, which minds how deeply things are nested and whether
numbers are in range. Real numbers become what their digits are read as. -/

mutual

/-- A value as its text has it: finite numbers as their digits are read, and `null` for the others. -/
def Value.reread : Value → Value
  | .number n => if n.token?.isSome then .number n.reread else .null
  | .array items => .array (rereadItems items)
  | .object members => .object (rereadMembers members)
  | v => v

/-- Items as a text has them. -/
def rereadItems : List Value → List Value
  | [] => []
  | x :: xs => x.reread :: rereadItems xs

/-- Members as a text has them. -/
def rereadMembers : List (String × Value) → List (String × Value)
  | [] => []
  | (k, v) :: ms => (k, v.reread) :: rereadMembers ms

end

namespace Value

theorem reread_real {x : Float} (h : x.isFinite = true) : (real x).reread = real (Double.reread x) := by
  rw [real, reread, Number.isSome_token?_real, if_pos h]
  rfl

theorem reread_real_of_not_isFinite {x : Float} (h : ¬ x.isFinite = true) : (real x).reread = null := by
  rw [real, reread, Number.isSome_token?_real, if_neg h]

@[simp] theorem reread_integer (n : Int) : (integer n).reread = integer n := rfl

@[simp] theorem reread_string (s : String) : (string s).reread = string s := rfl

@[simp] theorem reread_boolean (b : Bool) : (boolean b).reread = boolean b := rfl

end Value

theorem rereadItems_eq_map (xs : List Value) : rereadItems xs = xs.map Value.reread := by
  induction xs with
  | nil => rfl
  | cons x xs ih => rw [rereadItems, ih, List.map_cons]

theorem rereadMembers_eq_map (ms : List (String × Value)) :
    rereadMembers ms = ms.map fun m => (m.1, m.2.reread) := by
  induction ms with
  | nil => rfl
  | cons m ms ih => rw [rereadMembers, ih, List.map_cons]

mutual

/-- Whether a reader that takes so many levels of arrays and objects takes a value, and gets whole
numbers as they are. -/
def Value.FitsIn (depth : Nat) : Value → Prop
  | .number n => n.InRange
  | .array items =>
    match depth with
    | 0 => False
    | depth + 1 => itemsFitIn depth items
  | .object members =>
    match depth with
    | 0 => False
    | depth + 1 => membersFitIn depth members
  | _ => True

/-- Whether items are taken. -/
def itemsFitIn (depth : Nat) : List Value → Prop
  | [] => True
  | x :: xs => x.FitsIn depth ∧ itemsFitIn depth xs

/-- Whether members are taken. -/
def membersFitIn (depth : Nat) : List (String × Value) → Prop
  | [] => True
  | (_, v) :: ms => v.FitsIn depth ∧ membersFitIn depth ms

end

theorem membersFitIn_iff {depth : Nat} {ms : List (String × Value)} :
    membersFitIn depth ms ↔ ∀ m ∈ ms, m.2.FitsIn depth := by
  induction ms with
  | nil => simp [membersFitIn]
  | cons m ms ih => rw [membersFitIn, ih, List.forall_mem_cons]

mutual

/-- **What a reader gets of a value** that it takes. -/
theorem value_reading : ∀ {depth : Nat} {v : Value}, v.FitsIn depth →
    v.reading.value depth = .ok v.reread
  | _, .null, _ => rfl
  | _, .boolean _, _ => rfl
  | _, .number n, h => by
    rw [Value.reading, Value.reread]
    rcases ht : n.token? with _ | t
    · rfl
    · rw [Option.elim_some, Reading.value, Number.ofToken?_of_token? h ht]
      rfl
  | _, .string s, _ => by
    rw [Value.reading, Reading.value, StringToken.text_ofText]
    rfl
  | 0, .array _, h => h.elim
  | depth + 1, .array items, h => by
    rw [Value.reading, Reading.value, itemValues_reading h]
    rfl
  | 0, .object _, h => h.elim
  | depth + 1, .object members, h => by
    rw [Value.reading, Reading.value, memberValues_reading h]
    rfl

theorem itemValues_reading : ∀ {depth : Nat} {xs : List Value}, itemsFitIn depth xs →
    itemValues depth (itemReadings xs) = .ok (rereadItems xs)
  | _, [], _ => rfl
  | _, x :: xs, h => by
    rw [itemReadings, itemValues, value_reading h.1, itemValues_reading h.2]
    rfl

theorem memberValues_reading : ∀ {depth : Nat} {ms : List (String × Value)},
    membersFitIn depth ms → memberValues depth (memberReadings ms) = .ok (rereadMembers ms)
  | _, [], _ => rfl
  | _, (k, v) :: ms, h => by
    rw [memberReadings, memberValues, StringToken.text_ofText, value_reading h.1,
      memberValues_reading h.2]
    rfl

end

/-! ## Nesting

Where the limit is, seen from the value that was written. -/

mutual

/-- How many arrays and objects stand inside each other in a value. -/
def Value.depth : Value → Nat
  | .array items => itemsDepth items + 1
  | .object members => membersDepth members + 1
  | _ => 0

/-- How deeply the deepest item is nested. -/
def itemsDepth : List Value → Nat
  | [] => 0
  | x :: xs => max x.depth (itemsDepth xs)

/-- How deeply the deepest member is nested. -/
def membersDepth : List (String × Value) → Nat
  | [] => 0
  | (_, v) :: ms => max v.depth (membersDepth ms)

end

mutual

/-- **A reader gets no value** out of what is nested more deeply than it allows. -/
theorem depth_le_of_value : ∀ {depth : Nat} {v w : Value}, v.reading.value depth = .ok w →
    v.depth ≤ depth
  | 0, .array _, _, h => by cases h
  | depth + 1, .array items, _, h => by
    rw [Value.reading, Reading.value] at h
    obtain ⟨ws, hitems, -⟩ := exists_of_bind h
    exact Nat.succ_le_succ (itemsDepth_le_of_itemValues hitems)
  | 0, .object _, _, h => by cases h
  | depth + 1, .object members, _, h => by
    rw [Value.reading, Reading.value] at h
    obtain ⟨ws, hmembers, -⟩ := exists_of_bind h
    exact Nat.succ_le_succ (membersDepth_le_of_memberValues hmembers)
  | _, .null, _, _ => Nat.zero_le _
  | _, .boolean _, _, _ => Nat.zero_le _
  | _, .number _, _, _ => Nat.zero_le _
  | _, .string _, _, _ => Nat.zero_le _

theorem itemsDepth_le_of_itemValues : ∀ {depth : Nat} {xs ws : List Value},
    itemValues depth (itemReadings xs) = .ok ws → itemsDepth xs ≤ depth
  | _, [], _, _ => Nat.zero_le _
  | depth, x :: xs, _, h => by
    rw [itemReadings, itemValues] at h
    obtain ⟨w, hx, h⟩ := exists_of_bind h
    obtain ⟨ws, hxs, -⟩ := exists_of_bind h
    exact Nat.max_le.2 ⟨depth_le_of_value hx, itemsDepth_le_of_itemValues hxs⟩

theorem membersDepth_le_of_memberValues : ∀ {depth : Nat} {ms ws : List (String × Value)},
    memberValues depth (memberReadings ms) = .ok ws → membersDepth ms ≤ depth
  | _, [], _, _ => Nat.zero_le _
  | depth, (k, v) :: ms, _, h => by
    rw [memberReadings, memberValues] at h
    obtain ⟨name, -, h⟩ := exists_of_bind h
    obtain ⟨w, hv, h⟩ := exists_of_bind h
    obtain ⟨ws, hms, -⟩ := exists_of_bind h
    exact Nat.max_le.2 ⟨depth_le_of_value hv, membersDepth_le_of_memberValues hms⟩

end

end FieldDiagram.Json
