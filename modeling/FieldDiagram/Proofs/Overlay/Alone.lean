import FieldDiagram.Proofs.Overlay.Items
/-!
# Operations on their own

An operation on its own is decoded from its text member by member, the kind wherever it stands; the
item of an overlay becomes a value with sorted members first. For an object of a known kind in which no
name stands twice both come to the same: the same form is given the same members, in another order and
with the objects inside them sorted, and neither has a say in what the form builds. Main statement:
`decode_alone_iff`.

The two differ elsewhere. An operation on its own of a kind that is not known is refused, a repeated
kind is refused too, and an item may be nested two levels less deeply.
-/

namespace FieldDiagram

open Json (Value Reading StringToken)

/-- What goes with a list in which something stands in the middle. -/
theorem exists_of_forall₂_middle {β γ : Type} {R : β → γ → Prop} {before after : List β} {x : β}
    {ys : List γ} (h : List.Forall₂ R (before ++ x :: after) ys) :
    ∃ first y rest, ys = first ++ y :: rest ∧ List.Forall₂ R before first ∧ R x y ∧
      List.Forall₂ R after rest := by
  induction before generalizing ys with
  | nil =>
    cases h with
    | @cons _ y _ rest hy hrest => exact ⟨[], y, rest, rfl, .nil, hy, hrest⟩
  | cons b before ih =>
    cases h with
    | @cons _ z _ zs hz hzs =>
      obtain ⟨first, y, rest, rfl, hfirst, hy, hrest⟩ := ih hzs
      exact ⟨z :: first, y, rest, rfl, .cons hz hfirst, hy, hrest⟩

/-- Where no name stands twice, the last member of a name is the only one. -/
theorem Json.Value.member?_of_distinctNames {members : List (String × Value)}
    (h : Json.DistinctNames members) (name : String) :
    (Value.object members).member? name = members.lookup name :=
  Json.lookup_congr h.reverse h (fun _ => List.mem_reverse) name

namespace Op

/-! ## Collecting the members

On its own, an operation is read in one go: members before the kind are put aside until the kind is known.
With one member for the kind it makes no difference where it stands. -/

/-- Whether a member tells the kind. -/
def IsTag (m : StringToken × Reading) : Prop := m.1.text = .ok tag

/-- A member that does not tell the kind is collected with those after it. -/
theorem collect_cons_other {m : StringToken × Reading} (hm : ¬ IsTag m) {form form' : Option OpForm}
    {members rest : List (StringToken × Reading)}
    (h : ∀ others, collect form others members =
      (ofText (Json.memberValues (Json.nestingLimit - 1) rest)).map fun ms => (form', others ++ ms))
    (others : List (String × Value)) :
    collect form others (m :: members) =
      (ofText (Json.memberValues (Json.nestingLimit - 1) (m :: rest))).map fun ms =>
        (form', others ++ ms) := by
  obtain ⟨k, r⟩ := m
  rw [collect, Json.memberValues]
  cases hk : k.text with
  | error f => rfl
  | ok name =>
    have hname : name ≠ tag := fun heq => hm (by rw [IsTag, hk, heq])
    simp only [ofText, bind, Except.bind, if_neg hname]
    cases r.value (Json.nestingLimit - 1) with
    | error f => rfl
    | ok v =>
      dsimp only
      rw [h]
      cases Json.memberValues (Json.nestingLimit - 1) rest with
      | error f => rfl
      | ok vs => simp only [ofText, Except.map, List.append_assoc, List.singleton_append]

/-- Members that do not tell the kind are collected as they are. -/
theorem collect_others {members : List (StringToken × Reading)} (h : ∀ m ∈ members, ¬ IsTag m)
    (form : Option OpForm) (others : List (String × Value)) :
    collect form others members =
      (ofText (Json.memberValues (Json.nestingLimit - 1) members)).map fun ms =>
        (form, others ++ ms) := by
  induction members generalizing others with
  | nil => rw [collect, Json.memberValues, ofText, Except.map, List.append_nil]
  | cons m members ih =>
    obtain ⟨hm, hrest⟩ := List.forall_mem_cons.1 h
    exact collect_cons_other hm (ih hrest) others

/-- A member that tells a known kind decides the form, wherever it stands. -/
theorem collect_tagged {before after : List (StringToken × Reading)} {m : StringToken × Reading}
    (hbefore : ∀ m ∈ before, ¬ IsTag m) (hafter : ∀ m ∈ after, ¬ IsTag m) (hm : IsTag m)
    {kind : String} (hkind : m.2.found = .ok (.string kind)) {form : OpForm}
    (hform : forms.lookup kind = some form) (others : List (String × Value)) :
    collect none others (before ++ m :: after) =
      (ofText (Json.memberValues (Json.nestingLimit - 1) (before ++ after))).map fun ms =>
        (some form, others ++ ms) := by
  induction before generalizing others with
  | nil =>
    obtain ⟨k, r⟩ := m
    have hfound : formOfTag r = .ok form := by
      rw [formOfTag, hkind]
      simp only [bind, Except.bind, hform]
      rfl
    rw [List.nil_append, List.nil_append, collect, show k.text = .ok tag from hm]
    simp only [ofText, bind, Except.bind, if_pos, hfound, Option.isSome_none, Bool.false_eq_true,
      if_false]
    exact collect_others hafter (some form) others
  | cons first before ih =>
    obtain ⟨hfirst, hrest⟩ := List.forall_mem_cons.1 hbefore
    exact collect_cons_other hfirst (ih hrest) others

/-- An object of a known kind on its own is decoded exactly if the other members have values, and as
what the form of the kind makes of them. -/
theorem ofReading_eq_ok_iff {before after : List (StringToken × Reading)} {m : StringToken × Reading}
    (hbefore : ∀ m ∈ before, ¬ IsTag m) (hafter : ∀ m ∈ after, ¬ IsTag m) (hm : IsTag m)
    {kind : String} (hkind : m.2.found = .ok (.string kind)) {form : OpForm}
    (hform : forms.lookup kind = some form) (op : Op Float) :
    ofReading (.object (before ++ m :: after) .closed) = .ok op ↔
      ∃ ms, Json.memberValues (Json.nestingLimit - 1) (before ++ after) = .ok ms ∧
        ofMembers form ms = .ok op := by
  rw [ofReading, collect_tagged hbefore hafter hm hkind hform]
  cases Json.memberValues (Json.nestingLimit - 1) (before ++ after) with
  | error f =>
    refine iff_of_false ?_ ?_
    · intro h
      cases h
    · rintro ⟨ms, heq, -⟩
      cases heq
  | ok ms =>
    constructor
    · exact fun h => ⟨ms, rfl, h⟩
    · rintro ⟨ms', heq, h⟩
      cases heq
      exact h

/-! ## The same members in an overlay

In an overlay the item is a value first. Its members are sorted then, and what is inside them is sorted,
too; a form looks at its fields by name and at numbers and texts, so it sees the same. -/

/-- Members with distinct names make the same operation, or none, if the same members stand in another
order and with their values in canonical form. -/
theorem ofMembers_eq_ok_iff_of_canonical {kind : String} {form : OpForm}
    (hform : forms.lookup kind = some form) {ms ns : List (String × Value)}
    (hms : Json.DistinctNames ms) (hns : Json.DistinctNames ns)
    (h : ∀ k, ns.lookup k = (ms.lookup k).map Value.canonical) (op : Op Float) :
    ofMembers form ns = .ok op ↔ ofMembers form ms = .ok op := by
  have hasks := asks_of_lookup kind
  rw [hform] at hasks
  rw [ofMembers_eq_ok_iff hasks.2 hns, ofMembers_eq_ok_iff hasks.2 hms]
  refine and_congr ?_ ?_
  · refine forall₂_congr fun rule _ => ?_
    rw [h, rule.met_map_canonical]
  · rw [build_canonical hform]
    intro k
    rw [Json.lookup_filter_fst form.shape.knows, Json.lookup_filter_fst form.shape.knows, h]
    split <;> rfl

/-- An element of a known kind in which no name stands twice is decoded as what the form of the kind
makes of the other members as they stand. -/
theorem ofElement_eq_ok_iff {vs ws : List (String × Value)} {kind : String}
    (hdistinct : Json.DistinctNames (vs ++ (tag, .string kind) :: ws)) {form : OpForm}
    (hform : forms.lookup kind = some form) (index : Nat) (op : Op Float) :
    ofElement index (Value.object (vs ++ (tag, .string kind) :: ws)).canonical = .ok op ↔
      ofMembers form (vs ++ ws) = .ok op := by
  have htag : (vs ++ (tag, Value.string kind) :: ws).lookup tag = some (.string kind) :=
    (Json.lookup_eq_some_iff_mem hdistinct).2 (List.mem_append_right _ List.mem_cons_self)
  rw [← Json.filter_ne_middle hdistinct]
  generalize vs ++ (tag, Value.string kind) :: ws = members at hdistinct htag ⊢
  have hmember : ∀ k, (Value.object members).member? k = members.lookup k :=
    Value.member?_of_distinctNames hdistinct
  rw [ofElement_canonical, elementKind_of_text ((hmember tag).trans htag), hform]
  dsimp only
  rw [mapError_eq_ok_iff]
  apply ofMembers_eq_ok_iff_of_canonical hform (hdistinct.filter _)
    ((Value.distinctNames_members_canonical _).filter _)
  intro k
  rw [Json.lookup_filter_fst (· ≠ tag), Json.lookup_filter_fst (· ≠ tag),
    Value.lookup_members_canonical, hmember]
  split <;> rfl

theorem exists_form {kind : String} (h : kind ∈ kinds) : ∃ form, forms.lookup kind = some form := by
  have hasks := asks_of_lookup kind
  cases hform : forms.lookup kind with
  | none =>
    rw [hform] at hasks
    exact absurd h hasks
  | some form => exact ⟨form, rfl⟩

/-- What says a text has it as its value, however deep it stands. -/
theorem value_of_found {r : Reading} {s : String} (h : r.found = .ok (.string s)) (depth : Nat) :
    r.value depth = .ok (.string s) := by
  -- a number is found as a number, so the strings are the only tokens that say a text
  cases r with
  | string token =>
    rw [Reading.found] at h
    obtain ⟨text, htext, heq⟩ := exists_of_map h
    cases heq
    rw [Reading.value]
    cases hs : token.text with
    | error f =>
      rw [hs] at htext
      cases htext
    | ok t =>
      rw [hs] at htext
      cases htext
      rfl
  | number n =>
    rw [Reading.found] at h
    cases hn : Json.Number.ofToken? n with
    | none =>
      rw [hn] at h
      cases h
    | some n =>
      rw [hn] at h
      cases n <;> cases h
  | _ => cases h

/-- Where no name stands twice, no other member tells the kind. -/
theorem not_isTag_of_nodup {before after : List (StringToken × Reading)} {m : StringToken × Reading}
    (hdistinct : ((before ++ m :: after).filterMap fun m => m.1.text.toOption).Nodup) (hm : IsTag m) :
    ∀ m' ∈ before ++ after, ¬ IsTag m' := by
  intro m' hm' htag'
  rw [List.filterMap_append, List.filterMap_cons, show m.1.text = .ok tag from hm] at hdistinct
  have hnames := List.nodup_middle.1 hdistinct
  rw [← List.filterMap_append, List.nodup_cons] at hnames
  apply hnames.1
  refine List.mem_filterMap.2 ⟨m', hm', ?_⟩
  rw [show m'.1.text = .ok tag from htag']
  rfl

/-- An item of a known kind in which no name stands twice is decoded exactly if the other members have
values, and as what the form of the kind makes of them. -/
theorem takenAs_iff {before after : List (StringToken × Reading)} {m : StringToken × Reading}
    (hdistinct : ((before ++ m :: after).filterMap fun m => m.1.text.toOption).Nodup) (hm : IsTag m)
    {kind : String} (hkind : m.2.found = .ok (.string kind)) {form : OpForm}
    (hform : forms.lookup kind = some form) (op : Op Float) :
    TakenAs (.object (before ++ m :: after) .closed) op ↔
      ∃ ms, Json.memberValues (Json.nestingLimit - 3) (before ++ after) = .ok ms ∧
        ofMembers form ms = .ok op := by
  have htaken : TakenAs (.object (before ++ m :: after) .closed) op ↔
      ofItem 0 (.object (before ++ m :: after) .closed) = .ok op :=
    ⟨fun h => h 0, takenAs_of_ofItem⟩
  -- the item is read with two levels gone, and its members with one more
  have hvalue : (Reading.object (before ++ m :: after) .closed).value (Json.nestingLimit - 2) =
      (Json.memberValues (Json.nestingLimit - 3) (before ++ m :: after)).map Value.object := by
    change Reading.value (Json.nestingLimit - 3 + 1) _ = _
    rw [Reading.value]
    cases Json.memberValues (Json.nestingLimit - 3) (before ++ m :: after) <;> rfl
  have hmiddle := Json.memberValues_middle hm (value_of_found hkind (Json.nestingLimit - 3)) before after
  rw [htaken, ofItem, hvalue, hmiddle, Json.memberValues_append]
  cases hvs : Json.memberValues (Json.nestingLimit - 3) before with
  | error f =>
    refine iff_of_false ?_ ?_
    · intro h
      cases h
    · rintro ⟨ms, heq, -⟩
      cases heq
  | ok vs =>
    cases hws : Json.memberValues (Json.nestingLimit - 3) after with
    | error f =>
      refine iff_of_false ?_ ?_
      · intro h
        cases h
      · rintro ⟨ms, heq, -⟩
        cases heq
    | ok ws =>
      rw [hvs, hws] at hmiddle
      have hnames : Json.DistinctNames (vs ++ (tag, .string kind) :: ws) := by
        rw [Json.DistinctNames, Json.names_of_memberValues hmiddle]
        exact hdistinct
      refine (ofElement_eq_ok_iff hnames hform 0 op).trans ?_
      constructor
      · exact fun hop => ⟨vs ++ ws, rfl, hop⟩
      · rintro ⟨ms, heq, hop⟩
        cases heq
        exact hop

/-- **On its own or in an overlay**: an object of a known kind in which no name stands twice is decoded
as the same operation, or as none. -/
theorem ofReading_eq_ok_iff_takenAs {members : List (StringToken × Reading)}
    (hdistinct : (members.filterMap fun m => m.1.text.toOption).Nodup)
    (hkind : ∃ m ∈ members, IsTag m ∧ ∃ kind ∈ kinds, m.2.found = .ok (.string kind))
    (hshallow : (Reading.object members .closed).depth ≤ Json.nestingLimit - 2) (op : Op Float) :
    ofReading (.object members .closed) = .ok op ↔ TakenAs (.object members .closed) op := by
  obtain ⟨m, hm, htag, kind, hknown, hfound⟩ := hkind
  obtain ⟨form, hform⟩ := exists_form hknown
  obtain ⟨before, after, rfl⟩ := List.append_of_mem hm
  obtain ⟨hbefore, hafter⟩ := List.forall_mem_append.1 (not_isTag_of_nodup hdistinct htag)
  -- the limits of both readers leave room for the other members
  have hrest : Json.membersNesting (before ++ after) ≤ Json.nestingLimit - 3 := by
    apply Json.membersNesting_le_iff.2
    intro m' hm'
    have hnesting := Json.membersNesting_le_iff.1 (Nat.le_of_succ_le_succ hshallow)
    exact hnesting m' (((List.sublist_cons_self m after).append_left before).subset hm')
  rw [ofReading_eq_ok_iff hbefore hafter htag hfound hform,
    takenAs_iff hdistinct htag hfound hform,
    Json.memberValues_eq_of_nesting_le (hrest.trans (by decide)) hrest]

end Op

namespace Overlay

/-- **An operation on its own and in an overlay.** Take a text that is an object in which no name stands
twice and whose kind is a known one, nested no more deeply than both readers allow, and any overlay text
in whose list of operations the same object stands somewhere. Whatever else the object has, lacks or has
in the wrong shape, and in whichever order: the text is decoded as an operation on its own exactly if
the item is, and as the same operation. So the overlay is decoded exactly if the text is and all other
items are, and then the operation of the text stands at the place of the item. -/
theorem decode_alone_iff (text overlay : String) (members : List (StringToken × Reading))
    (before after : List Reading)
    (hread : Json.read text = (.object members .closed, []))
    (hdistinct : (members.filterMap fun m => m.1.text.toOption).Nodup)
    (hkind : ∃ m ∈ members, m.1.text = .ok Op.tag ∧ ∃ kind ∈ Op.kinds, m.2.found = .ok (.string kind))
    (hshallow : (Reading.object members .closed).depth ≤ Json.nestingLimit - 2)
    (hitems : items overlay = .ok (before ++ .object members .closed :: after)) :
    (∀ index op, decodeText Op.ofReading text = .ok op ↔
      Op.ofItem index (.object members .closed) = .ok op) ∧
    ∀ o, decode overlay = .ok o ↔ ∃ first op rest, o.ops = first ++ op :: rest ∧
      List.Forall₂ Op.TakenAs before first ∧ decodeText Op.ofReading text = .ok op ∧
      List.Forall₂ Op.TakenAs after rest := by
  have halone : ∀ op, decodeText Op.ofReading text = .ok op ↔
      Op.TakenAs (.object members .closed) op := by
    intro op
    rw [decodeText_of_read hread]
    exact Op.ofReading_eq_ok_iff_takenAs hdistinct hkind hshallow op
  refine ⟨?_, ?_⟩
  · intro index op
    rw [halone]
    exact ⟨fun h => h index, Op.takenAs_of_ofItem⟩
  · intro o
    rw [decode_eq_ok_iff hitems]
    constructor
    · intro h
      obtain ⟨first, op, rest, hops, hfirst, hop, hrest⟩ := exists_of_forall₂_middle h
      exact ⟨first, op, rest, hops, hfirst, (halone op).2 hop, hrest⟩
    · rintro ⟨first, op, rest, hops, hfirst, hop, hrest⟩
      rw [hops]
      exact List.rel_append hfirst (.cons ((halone op).1 hop) hrest)

/-- The members stand in any order and one is not known. The text is decoded on its own, so the item is
decoded too, after one that is no object at all. -/
theorem decode_alone_after_null :
    let fill : Value := .object [("color", .string "red"), ("note", .null), ("type", .string "fill")]
    let overlay := (Value.object [("ops", .array [.null, fill])]).text
    decodeText Op.ofReading fill.text = .ok (.fill "red") ∧
      ∀ o, decode overlay = .ok o ↔ o.ops = [.unknown "undefined", .fill "red"] := by
  intro fill overlay
  have hread : Json.read fill.text = (fill.reading, []) := Json.read_text fill
  have hitems : items overlay = .ok ([Value.null.reading] ++ fill.reading :: []) :=
    items_written [.null, fill]
  have hkind : ∃ m ∈ Json.memberReadings [("color", .string "red"), ("note", .null),
      ("type", .string "fill")], m.1.text = .ok Op.tag ∧
        ∃ kind ∈ Op.kinds, m.2.found = .ok (.string kind) :=
    ⟨(.ofText "type", .string (.ofText "fill")), by simp [Json.memberReadings, Value.reading],
      Json.StringToken.text_ofText _, "fill", by decide, rfl⟩
  obtain ⟨-, hplaced⟩ := decode_alone_iff fill.text overlay _ [Value.null.reading] []
    hread (by decide +kernel) hkind (by decide) hitems
  have halone : decodeText Op.ofReading fill.text = .ok (.fill "red") := by
    rw [decodeText_of_read hread]
    rfl
  have hnull : Op.ofItem 0 Value.null.reading = .ok (.unknown "undefined") := rfl
  refine ⟨halone, fun o => (hplaced o).trans ⟨?_, ?_⟩⟩
  · rintro ⟨first, op, rest, hops, hfirst, hop, hrest⟩
    cases hrest
    cases hfirst with
    | cons htaken hnil =>
      cases hnil
      cases (htaken 0).symm.trans hnull
      cases hop.symm.trans halone
      exact hops
  · intro hops
    exact ⟨_, _, [], hops, .cons (Op.takenAs_of_ofItem hnull) .nil, halone, .nil⟩

end Overlay

end FieldDiagram
