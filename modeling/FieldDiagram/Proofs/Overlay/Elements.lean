import FieldDiagram.Proofs.Decode.Single
import FieldDiagram.Proofs.Json.ReadBack
import FieldDiagram.Proofs.Overlay.FieldRules
import FieldDiagram.Proofs.Renderer.Outcome
/-!
# Overlays element by element

The elements of a list of operations can be any values. What becomes of each is told by the element
alone: its kind is the text of its last member `type`, and if that kind is known its other members have
to meet the rules of the kind. So a list is decoded exactly if no element of a known kind breaks a rule,
the first that does is the one that is reported, and a pass over the operations ends at the first
element of a kind that is not known. Main statement: `decode_elements`. It is about elements that can be
read as values; one that is nested too deeply cannot, of whichever kind it is: `depth_le_of_decode`.
-/

namespace FieldDiagram

open Json (Value Reading)

/-! ## Members of elements

An element may have a member twice, and then the last one counts. The decoder sorts members before it looks,
and sorting keeps the last ones. -/

namespace Json.Value

/-- The member with a name, the last one where the name stands more than once. -/
def member? (name : String) (v : Value) : Option Value := v.members.reverse.lookup name

/-- Sorting members keeps the last one of each name. -/
theorem lookup_members_canonical (v : Value) (name : String) :
    v.canonical.members.lookup name = (v.member? name).map canonical := by
  cases v with
  | object members =>
    rw [canonical, Value.members, lookup_sortMembers, canonicalMembers_eq_map, ← List.map_reverse,
      lookup_map_snd]
    rfl
  | _ => rfl

theorem distinctNames_members_canonical (v : Value) : DistinctNames v.canonical.members := by
  cases v with
  | object members =>
    rw [canonical, Value.members]
    exact distinctNames_sortMembers _
  | _ => exact List.nodup_nil

theorem isNumber_canonical (v : Value) : v.canonical.isNumber = v.isNumber := by
  cases v <;> rfl

end Json.Value

theorem FieldSort.admits_canonical (sort : FieldSort) (v : Value) :
    sort.admits v.canonical = sort.admits v := by
  have hitems : ∀ items : List Value,
      (Json.canonicalItems items).all Value.isNumber = items.all Value.isNumber := by
    intro items
    induction items with
    | nil => rfl
    | cons item items ih =>
      rw [Json.canonicalItems, List.all_cons, ih, item.isNumber_canonical, List.all_cons]
  cases v with
  | array items => cases sort <;> first | rfl | exact hitems items
  | _ => cases sort <;> rfl

theorem FieldRule.met_map_canonical (rule : FieldRule) (v? : Option Value) :
    rule.Met (v?.map Value.canonical) ↔ rule.Met v? := by
  cases v? with
  | none => exact Iff.rfl
  | some v =>
    rw [Option.map_some, Met, Met, rule.sort.admits_canonical]

/-! ## Kinds of elements

The kind of an element is always a text, also where its member `type` is none. No such text is a known kind,
so what is not tagged by a text is never malformed. -/

namespace Op

/-- The kind of an element: what its member `type` says, as a text or else in its written form. -/
def elementKind (element : Value) : String :=
  match element.member? tag with
  | none => "undefined"
  | some (.string kind) => kind
  | some other => other.canonical.text

/-- Whether the members of an element meet the rules of its kind, if the kind is a text and known. -/
def WellFormed (element : Value) : Prop :=
  ∀ kind ∈ kinds, element.member? tag = some (.string kind) →
    ∀ rule ∈ rulesOf kind, rule.Met (element.member? rule.name)

/-- No written form of a value that is no text is a kind that is known. -/
theorem text_not_mem_kinds {v : Value} (h : ∀ s, v ≠ .string s) : v.text ∉ kinds := by
  -- every kind begins with a small letter, which settles numbers, arrays and objects
  have hstart : ∀ (c : Char) (cs : List Char), c.isLower = false →
      String.ofList (c :: cs) ∉ kinds := by
    intro c cs hc hmem
    have hlower : ∀ kind ∈ kinds, kind.toList.head?.any Char.isLower = true := by decide
    have hhead := hlower _ hmem
    rw [String.toList_ofList, List.head?_cons, Option.any_some, hc] at hhead
    exact Bool.false_ne_true hhead
  rw [Value.text]
  cases v with
  | null => decide
  | boolean b => cases b <;> decide
  | number n =>
    rw [Value.chars, Json.Number.chars_eq]
    cases htoken : n.token? with
    | none => decide
    | some t =>
      obtain ⟨c, cs, hchars, hc⟩ :=
        Json.NumberToken.chars_eq_cons (Json.Number.wellFormed_of_token? htoken)
      rw [Option.elim_some, hchars]
      refine hstart c cs ?_
      rcases hc with rfl | hc
      · rfl
      · simp only [Char.isDigit, Bool.and_eq_true, decide_eq_true_eq, UInt32.le_iff_toNat_le] at hc
        simp only [Char.isLower, Bool.and_eq_false_iff, decide_eq_false_iff_not,
          UInt32.le_iff_toNat_le]
        have hdigit : c.val.toNat ≤ 57 := hc.2
        left
        change ¬ 97 ≤ c.val.toNat
        omega
  | string s => exact absurd rfl (h s)
  | array items => cases items <;> exact hstart _ _ rfl
  | object members =>
    rcases members with _ | ⟨⟨k, w⟩, ms⟩ <;> exact hstart _ _ rfl

/-- What has a known kind says so with a text. -/
theorem member?_tag_of_known {element : Value} (h : elementKind element ∈ kinds) :
    element.member? tag = some (.string (elementKind element)) := by
  rw [elementKind] at h ⊢
  cases htag : element.member? tag with
  | none =>
    rw [htag] at h
    exact absurd h (by decide)
  | some v =>
    rw [htag] at h
    cases v with
    | string kind => rfl
    | _ => exact absurd h (text_not_mem_kinds fun s => Value.noConfusion)

theorem elementKind_of_text {element : Value} {kind : String}
    (h : element.member? tag = some (.string kind)) : elementKind element = kind := by
  rw [elementKind, h]

theorem wellFormed_iff (element : Value) :
    WellFormed element ↔ (elementKind element ∈ kinds →
      ∀ rule ∈ rulesOf (elementKind element), rule.Met (element.member? rule.name)) := by
  constructor
  · exact fun h hknown => h _ hknown (member?_tag_of_known hknown)
  · intro h kind hknown htag
    obtain rfl := elementKind_of_text htag
    exact h hknown

instance (element : Value) : Decidable (WellFormed element) :=
  decidable_of_iff _ (wellFormed_iff element).symm

/-! ## One element

There are two outcomes: the element is well-formed, and becomes an operation of its kind, or it is not, and
its place and kind are reported. The proof goes through the rules of the kind, so the fields of the kinds
are not looked at here. -/

/-- What an element is decoded as: an operation of its kind, which is one that is not known if the kind
is not. -/
structure StandsFor (element : Value) (op : Op Float) : Prop where
  kind : op.kind = elementKind element
  isUnknown : op.isUnknown = true ↔ elementKind element ∉ kinds

/-- The kind alone decides how an element is decoded. -/
theorem ofElement_canonical (index : Nat) (element : Value) :
    ofElement index element.canonical =
      match forms.lookup (elementKind element) with
      | none => .ok (.unknown (elementKind element))
      | some form => (ofMembers form (element.canonical.members.filter (·.1 ≠ tag))).mapError
          (atPlace index (elementKind element)) := by
  have hnone : ∀ kind, kind ∉ kinds → forms.lookup kind = none := by
    intro kind hkind
    have hasks := asks_of_lookup kind
    cases hform : forms.lookup kind with
    | none => rfl
    | some form =>
      rw [hform] at hasks
      exact absurd hasks.1 hkind
  have hmembers : ofElement index element.canonical =
      match element.canonical.members.lookup tag with
      | none => .ok (.unknown "undefined")
      | some (.string kind) =>
        match forms.lookup kind with
        | none => .ok (.unknown kind)
        | some form =>
          (ofMembers form (element.canonical.members.filter (·.1 ≠ tag))).mapError
            (atPlace index kind)
      | some other => .ok (.unknown other.text) := rfl
  rw [hmembers, element.lookup_members_canonical, elementKind]
  cases element.member? tag with
  | none => rfl
  | some v =>
    cases v with
    | string kind => rfl
    | _ =>
      -- the written form of the member is the kind, and that has no form
      dsimp only
      rw [hnone _ (text_not_mem_kinds fun s => Value.noConfusion)]
      rfl

/-- The members of an element are asked for what the rules of its kind say, in whichever order they
stand. -/
theorem takes_element {element : Value} {kind : String} {form : OpForm}
    (hasks : Asks kind form (rulesOf kind)) :
    Takes (ofMembers form (element.canonical.members.filter (·.1 ≠ tag)))
      (∀ rule ∈ rulesOf kind, rule.Met (element.member? rule.name)) fun op =>
        op.kind = kind ∧ op.isUnknown = false := by
  have hdistinct : Json.DistinctNames (element.canonical.members.filter fun m => m.1 ≠ tag) :=
    element.distinctNames_members_canonical.filter _
  refine (takes_ofMembers hasks hdistinct).of_iff (forall₂_congr fun rule hrule => ?_)
  rw [Json.lookup_filter _ fun _ => decide_eq_true (name_ne_tag rule hrule),
    element.lookup_members_canonical, rule.met_map_canonical]

/-- An element is decoded if it is well-formed, and otherwise it is of a known kind and its place is
reported. -/
theorem ofElement_cases (index : Nat) (element : Value) :
    (WellFormed element ∧ ∃ op, ofElement index element.canonical = .ok op ∧ StandsFor element op) ∨
    (¬ WellFormed element ∧ elementKind element ∈ kinds ∧
      ∃ m, ofElement index element.canonical =
        refuse (.inOperation index (elementKind element) m)) := by
  rw [ofElement_canonical, wellFormed_iff]
  have hasks := asks_of_lookup (elementKind element)
  cases hform : forms.lookup (elementKind element) with
  | none =>
    rw [hform] at hasks
    exact Or.inl ⟨fun hknown => absurd hknown hasks, _, rfl, rfl, iff_of_true rfl hasks⟩
  | some form =>
    rw [hform] at hasks
    obtain ⟨hknown, hasks⟩ := hasks
    dsimp only
    rcases takes_element hasks with ⟨hmet, op, hop, hkind, hop'⟩ | ⟨hmet, m, hm⟩
    · rw [hop]
      refine Or.inl ⟨fun _ => hmet, op, rfl, hkind, ?_⟩
      rw [hop']
      exact iff_of_false Bool.false_ne_true (not_not_intro hknown)
    · rw [hm]
      exact Or.inr ⟨fun h => hmet (h hknown), hknown, m, rfl⟩

/-! ## Lists of elements

Elements are decoded from left to right, and the first failure ends it. So what is reported is the first
malformed element, and elements behind it have no say. -/

/-- A list of elements is decoded one by one, and the first that is not well-formed is reported with
its place. -/
theorem listOfValues_cases (elements : List Value) (start : Nat) :
    let decoded := (elements.zipIdx start).mapM fun (element, index) =>
      ofElement index element.canonical
    ((∀ e ∈ elements, WellFormed e) ∧ ∃ ops, decoded = .ok ops ∧ List.Forall₂ StandsFor elements ops) ∨
    ∃ before e after m, elements = before ++ e :: after ∧ (∀ e' ∈ before, WellFormed e') ∧
      ¬ WellFormed e ∧ elementKind e ∈ kinds ∧
      decoded = refuse (.inOperation (start + before.length) (elementKind e) m) := by
  induction elements generalizing start with
  | nil => exact Or.inl ⟨List.forall_mem_nil _, [], rfl, .nil⟩
  | cons element elements ih =>
    intro decoded
    have hdecoded : decoded = do
        let op ← ofElement start element.canonical
        let ops ← (elements.zipIdx (start + 1)).mapM fun (element, index) =>
          ofElement index element.canonical
        return op :: ops := List.mapM_cons
    rw [hdecoded]
    -- a first element that fails is the one reported; otherwise the report is that of the rest, one place on
    rcases ofElement_cases start element with ⟨hfirst, op, hop, hstands⟩ | ⟨hfirst, hknown, m, hm⟩
    · rw [hop]
      rcases ih (start + 1) with ⟨hall, ops, hops, hrest⟩ |
        ⟨before, e, after, m, rfl, hbefore, he, hknown, hm⟩
      · rw [hops]
        exact Or.inl ⟨List.forall_mem_cons.2 ⟨hfirst, hall⟩, _, rfl, .cons hstands hrest⟩
      · rw [hm]
        refine Or.inr ⟨element :: before, e, after, m, rfl,
          List.forall_mem_cons.2 ⟨hfirst, hbefore⟩, he, hknown, ?_⟩
        rw [List.length_cons, Nat.add_right_comm, Nat.add_assoc]
        rfl
    · rw [hm]
      exact Or.inr ⟨[], element, elements, m, rfl, List.forall_mem_nil _, hfirst, hknown, rfl⟩

theorem map_kind_of_standsFor {elements : List Value} {ops : List (Op Float)}
    (h : List.Forall₂ StandsFor elements ops) : ops.map Op.kind = elements.map elementKind := by
  induction h with
  | nil => rfl
  | cons hstands _ ih => rw [List.map_cons, List.map_cons, hstands.kind, ih]

/-- A pass over decoded elements ends at the first of a kind that is not known. -/
theorem ending?_of_standsFor {elements : List Value} {ops : List (Op Float)}
    (h : List.Forall₂ StandsFor elements ops) :
    ending? true ops = (elements.zipIdx.find? (elementKind ·.1 ∉ kinds)).map
      fun (e, i) => .unknownOperation (elementKind e) i := by
  rw [ending?_true]
  generalize 0 = start
  induction h generalizing start with
  | nil => rfl
  | @cons e op elements ops hstands _ ih =>
    rw [List.zipIdx_cons, List.zipIdx_cons]
    by_cases hknown : elementKind e ∈ kinds
    · have hop := mt hstands.isUnknown.1 (not_not_intro hknown)
      rw [List.find?_cons_of_neg (by exact hop), List.find?_cons_of_neg (by simpa using hknown)]
      exact ih (start + 1)
    · have hop := hstands.isUnknown.2 hknown
      rw [List.find?_cons_of_pos (by exact hop), List.find?_cons_of_pos (by simpa using hknown)]
      exact congrArg (fun kind => some (RenderError.unknownOperation kind start)) hstands.kind

/-- The elements of a list of operations in a text. -/
def elementsOfReading (r : Reading) : Decoded (List Value) :=
  r.list fun item => ofText (item.value (Json.nestingLimit - 2))

/-- A list is decoded once all its elements have been read as values. -/
theorem listOfReading_eq_bind (r : Reading) :
    listOfReading r = elementsOfReading r >>= listOfValues := rfl

/-- The elements of a written list are read as far as they are not nested too deeply. -/
theorem elementsOfReading_reading (vs : List Value) :
    elementsOfReading (Value.array vs).reading =
      ofText (Json.itemValues (Json.nestingLimit - 2) (Json.itemReadings vs)) := by
  have hitems : ∀ rs : List Reading, (rs.mapM fun item => ofText (item.value (Json.nestingLimit - 2))) =
      ofText (Json.itemValues (Json.nestingLimit - 2) rs) := by
    intro rs
    induction rs with
    | nil => rfl
    | cons r rs ih =>
      rw [List.mapM_cons, ih, Json.itemValues]
      cases r.value (Json.nestingLimit - 2) with
      | error f => rfl
      | ok v => cases Json.itemValues (Json.nestingLimit - 2) rs <;> rfl
  rw [Value.reading, elementsOfReading, Json.Reading.list, hitems]
  cases Json.itemValues (Json.nestingLimit - 2) (Json.itemReadings vs) <;> rfl

end Op

namespace Overlay

/-! ## Overlays

An overlay is a record with one member. What remains is to tie its elements to a text: they are what the
list in that text is read as, before any of them is looked at as an operation. -/

/-- The elements of the list of operations in a text, if they can be read as values. -/
def elements (text : String) : Decoded (List Value) :=
  decodeText (RecordShape.readSingle shape.title "ops" Op.elementsOfReading) text

/-- An overlay is a record of its list of operations alone. -/
theorem ofReading_eq_readSingle (r : Reading) :
    ofReading r = (RecordShape.readSingle shape.title "ops" Op.listOfReading r).map Overlay.mk := by
  have hshape : shape = .single shape.title "ops" Op.listOfReading := rfl
  rw [ofReading, RecordShape.readSingle, ← hshape]
  cases hfields : shape.ofReading r with
  | error e => rfl
  | ok fs =>
    change (do return Overlay.mk (← fs.get "ops" Op.listOfReading) : Decoded _) =
      (fs.get "ops" Op.listOfReading).map Overlay.mk
    cases fs.get "ops" Op.listOfReading <;> rfl

theorem decode_eq_decodeText (text : String) :
    decode text = (decodeText (RecordShape.readSingle shape.title "ops" Op.listOfReading) text).map
      Overlay.mk := by
  rw [decode, decodeText, decodeText]
  generalize Json.read text = read
  obtain ⟨r, rest⟩ := read
  dsimp only
  rw [ofReading_eq_readSingle]
  cases RecordShape.readSingle shape.title "ops" Op.listOfReading r with
  | error e => rfl
  | ok ops => cases hrest : rest.isEmpty <;> rfl

/-- Texts with these elements are decoded as the elements are. -/
theorem decode_of_elements {text : String} {vs : List Value} (h : elements text = .ok vs) :
    decode text = (Op.listOfValues vs).map Overlay.mk := by
  obtain ⟨v, hv, hsame⟩ := RecordShape.exists_of_decodeText h
  rw [decode_eq_decodeText, hsame, Op.listOfReading_eq_bind, hv]
  rfl

/-- A text that is decoded has elements. -/
theorem exists_elements {text : String} {o : Overlay Float} (h : decode text = .ok o) :
    ∃ vs, elements text = .ok vs := by
  rw [decode_eq_decodeText] at h
  obtain ⟨ops, hops, -⟩ := exists_of_map h
  obtain ⟨v, hv, hsame⟩ := RecordShape.exists_of_decodeText hops
  rw [Op.listOfReading_eq_bind] at hv
  obtain ⟨vs, hvs, -⟩ := exists_of_bind hv
  exact ⟨vs, (hsame _).trans hvs⟩

/-- The elements of a text that was written from values. -/
theorem elements_written (vs : List Value) :
    elements (Value.object [("ops", .array vs)]).text =
      ofText (Json.itemValues (Json.nestingLimit - 2) (Json.itemReadings vs)) := by
  rw [elements, decodeText_text, Value.reading, Json.memberReadings, Json.memberReadings,
    RecordShape.readSingle_object, Op.elementsOfReading_reading]
  · cases Json.itemValues (Json.nestingLimit - 2) (Json.itemReadings vs) <;> rfl
  · exact RecordShape.collect_single_only (by rw [Json.StringToken.text_ofText, ofText]) _

/-- **The elements of a written array are its items**, as they come back, if they can be read at all. -/
theorem elements_of_fit {vs : List Value} (h : Json.itemsFitIn (Json.nestingLimit - 2) vs) :
    elements (Value.object [("ops", .array vs)]).text = .ok (Json.rereadItems vs) := by
  rw [elements_written, Json.itemValues_reading h, ofText]

/-- The elements of a written overlay that is decoded leave two levels of nesting to the overlay itself. -/
theorem depth_le_of_decode {vs : List Value} {o : Overlay Float}
    (h : decode (Value.object [("ops", .array vs)]).text = .ok o) :
    Json.itemsDepth vs ≤ Json.nestingLimit - 2 := by
  obtain ⟨ws, hws⟩ := exists_elements h
  rw [elements_written] at hws
  cases hvalues : Json.itemValues (Json.nestingLimit - 2) (Json.itemReadings vs) with
  | error f => rw [hvalues] at hws; cases hws
  | ok us => exact Json.itemsDepth_le_of_itemValues hvalues

/-- An element of no known kind can be nested too deeply to be read. -/
theorem deep_element_not_decoded :
    let deep := Nat.repeat (fun v => Value.array [v]) 126 .null
    (∀ e ∈ [deep], Op.WellFormed e) ∧
      ∀ o, decode (Value.object [("ops", .array [deep])]).text ≠ .ok o := by
  intro deep
  constructor
  · intro e he kind _ htag
    obtain rfl := List.mem_singleton.1 he
    have hnone : deep.member? Op.tag = none := rfl
    rw [hnone] at htag
    cases htag
  · intro o ho
    have hdepth : Json.itemsDepth [deep] ≤ 125 := depth_le_of_decode ho
    exact absurd hdepth (by decide +kernel)

/-- A list of operations is decoded as a whole, or else one of its elements is malformed. -/
theorem decode_cases {text : String} {vs : List Value} (h : elements text = .ok vs) :
    ((∀ e ∈ vs, Op.WellFormed e) ∧
      ∃ ops, decode text = .ok ⟨ops⟩ ∧ List.Forall₂ Op.StandsFor vs ops) ∨
    ∃ before e after cause, vs = before ++ e :: after ∧ (∀ e' ∈ before, Op.WellFormed e') ∧
      ¬ Op.WellFormed e ∧ Op.elementKind e ∈ Op.kinds ∧
      decode text = refuse (.inOperation before.length (Op.elementKind e) cause) := by
  rw [decode_of_elements h, Op.listOfValues]
  rcases Op.listOfValues_cases vs 0 with ⟨hall, ops, hops, hstand⟩ |
    ⟨before, e, after, cause, hsplit, hbefore, he, hknown, hcause⟩
  · rw [hops]
    exact Or.inl ⟨hall, ops, rfl, hstand⟩
  · rw [hcause, Nat.zero_add]
    exact Or.inr ⟨before, e, after, cause, hsplit, hbefore, he, hknown, rfl⟩

/-- A text is decoded exactly if it has elements that are well-formed. -/
theorem decode_succeeds_iff (text : String) :
    (∃ o, decode text = .ok o) ↔ ∃ vs, elements text = .ok vs ∧ ∀ e ∈ vs, Op.WellFormed e := by
  constructor
  · rintro ⟨o, ho⟩
    obtain ⟨vs, hvs⟩ := exists_elements ho
    rcases decode_cases hvs with ⟨hall, -⟩ | ⟨before, e, after, cause, -, -, -, -, hcause⟩
    · exact ⟨vs, hvs, hall⟩
    · rw [hcause] at ho
      cases ho
  · rintro ⟨vs, hvs, hall⟩
    rcases decode_cases hvs with ⟨-, ops, hops, -⟩ | ⟨before, e, after, cause, rfl, -, he, -, -⟩
    · exact ⟨⟨ops⟩, hops⟩
    · exact absurd (hall e (by simp)) he

theorem decodeMessage_inOperation (index : Nat) (kind : String) (cause : Mismatch) :
    decodeMessage (.mismatch (.inOperation index kind cause)) =
      "malformed overlay: op " ++ integerText index ++ " (" ++ kind ++ "): " ++ cause.message := by
  have hmessage : decodeMessage (.mismatch (.inOperation index kind cause)) = "malformed overlay: " ++
      ("op " ++ integerText index ++ " (" ++ kind ++ "): " ++ cause.message) := rfl
  have hstart : ("malformed overlay: op " : String) = "malformed overlay: " ++ "op " := by decide
  rw [hmessage, hstart]
  simp only [String.append_assoc]

/-- **Overlays element by element.** The elements of a text are the items of its member `ops`: of an array
that is written, its items as they come back. A text is decoded exactly if it has elements and none of a known
kind breaks a rule of its kind. Then there is one operation for each element, and a pass over them ends
at the first element of a kind that is not known. Otherwise the first malformed element is reported with
its place and kind, whatever comes after it. -/
theorem decode_elements (text : String) :
    (∀ vs, Json.itemsFitIn (Json.nestingLimit - 2) vs → text = (Value.object [("ops", .array vs)]).text →
      elements text = .ok (Json.rereadItems vs)) ∧
    ((∃ o, decode text = .ok o) ↔ ∃ vs, elements text = .ok vs ∧ ∀ e ∈ vs, Op.WellFormed e) ∧
    ∀ vs, elements text = .ok vs →
      (∀ o, decode text = .ok o → List.Forall₂ Op.StandsFor vs o.ops ∧
        ∀ {ι : Type} (r : Renderer Float ι) (size : SurfaceSize Float),
          r.canvas.reportsTransform = true →
          ((r.setOverlay o).render size).2 = (vs.zipIdx.find? (Op.elementKind ·.1 ∉ Op.kinds)).map
            fun (e, i) => .unknownOperation (Op.elementKind e) i) ∧
      ∀ err, decode text = .error err → ∃ before e after cause, vs = before ++ e :: after ∧
        (∀ e' ∈ before, Op.WellFormed e') ∧ ¬ Op.WellFormed e ∧ Op.elementKind e ∈ Op.kinds ∧
        err = .mismatch (.inOperation before.length (Op.elementKind e) cause) ∧
        decodeMessage err = "malformed overlay: op " ++ integerText before.length ++ " (" ++
          Op.elementKind e ++ "): " ++ cause.message := by
  refine ⟨fun vs hfit htext => htext ▸ elements_of_fit hfit, decode_succeeds_iff text,
    fun vs hvs => ⟨fun o ho => ?decoded, fun err herr => ?refused⟩⟩
  case decoded =>
    rcases decode_cases hvs with ⟨-, ops, hops, hstand⟩ | ⟨_, _, _, _, -, -, -, -, hcause⟩
    · obtain rfl : ⟨ops⟩ = o := Except.ok.inj (hops.symm.trans ho)
      refine ⟨hstand, fun r size htells => ?_⟩
      rw [Renderer.error_render (r := r.setOverlay ⟨ops⟩) htells]
      exact Op.ending?_of_standsFor hstand
    · rw [hcause] at ho
      cases ho
  case refused =>
    rcases decode_cases hvs with ⟨-, ops, hops, -⟩ |
      ⟨before, e, after, cause, hsplit, hbefore, he, hknown, hcause⟩
    · rw [hops] at herr
      cases herr
    · obtain rfl := Except.error.inj (hcause.symm.trans herr)
      exact ⟨before, e, after, cause, hsplit, hbefore, he, hknown, rfl,
        decodeMessage_inOperation _ _ _⟩

/-- Elements without a kind or with a kind that is no text do not keep others from being decoded; an
element of a known kind that lacks a member does. -/
theorem decode_mixed_elements :
    let fill : Value := .object [("type", .string "fill"), ("color", .string "red")]
    let listed : Value := .object [("size", .integer 3), ("type", .array [.null])]
    let circle : Value := .object [("type", .string "circle"), ("x", .integer 1)]
    let text (vs : List Value) := (Value.object [("ops", .array vs)]).text
    let renderer : Renderer Float String := .new (.empty true) .standard
    (∃ o, decode (text [fill, .integer 7, listed]) = .ok o ∧
      o.ops.map Op.kind = ["fill", "undefined", "[null]"] ∧
      ((renderer.setOverlay o).render ⟨800, 600, 1⟩).2 = some (.unknownOperation "undefined" 1)) ∧
    ∃ cause, decode (text [listed, circle, circle]) =
      .error (.mismatch (.inOperation 1 "circle" cause)) := by
  intro fill listed circle text renderer
  have helements : ∀ vs ∈ [[fill, .integer 7, listed], [listed, circle, circle]],
      elements (text vs) = .ok vs := by
    intro vs hvs
    have hfit : Json.itemsFitIn (Json.nestingLimit - 2) vs := by
      revert vs
      simp [fill, listed, circle, Json.nestingLimit, Json.itemsFitIn, Json.membersFitIn,
        Value.FitsIn, Value.integer, Json.Number.InRange]
    rw [elements_of_fit hfit]
    simp only [List.mem_cons, List.not_mem_nil, or_false] at hvs
    rcases hvs with rfl | rfl <;> rfl
  constructor
  · have helements := helements _ List.mem_cons_self
    obtain ⟨-, hiff, hrest⟩ := decode_elements (text [fill, .integer 7, listed])
    obtain ⟨o, ho⟩ := hiff.2 ⟨_, helements, by decide +kernel⟩
    obtain ⟨hstand, hrender⟩ := (hrest _ helements).1 o ho
    refine ⟨o, ho, ?_, (hrender _ _ rfl).trans rfl⟩
    rw [Op.map_kind_of_standsFor hstand]
    rfl
  · have helements := helements _ (List.mem_cons_of_mem _ List.mem_cons_self)
    obtain ⟨-, hiff, hrest⟩ := decode_elements (text [listed, circle, circle])
    cases hdecode : decode (text [listed, circle, circle]) with
    | ok o =>
      obtain ⟨vs, hvs, hall⟩ := hiff.1 ⟨o, hdecode⟩
      obtain rfl := Except.ok.inj (helements.symm.trans hvs)
      exact absurd hall (by decide +kernel)
    | error err =>
      obtain ⟨before, e, after, cause, hsplit, hbefore, he, -, rfl, -⟩ :=
        (hrest _ helements).2 err hdecode
      rcases before with _ | ⟨first, _ | ⟨second, before⟩⟩
      · obtain ⟨rfl, -⟩ := List.cons.inj hsplit
        exact absurd (by decide +kernel) he
      · obtain ⟨-, hsplit⟩ := List.cons.inj hsplit
        obtain ⟨rfl, -⟩ := List.cons.inj hsplit
        exact ⟨cause, rfl⟩
      · obtain ⟨-, hsplit⟩ := List.cons.inj hsplit
        obtain ⟨rfl, -⟩ := List.cons.inj hsplit
        exact absurd (hbefore circle (by simp)) (by decide +kernel)

end Overlay

end FieldDiagram
