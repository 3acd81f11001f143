import FieldDiagram.Proofs.Json.Values
import FieldDiagram.Proofs.Overlay.Elements
import FieldDiagram.Proofs.Overlay.Fields
/-!
# The items of an overlay

Where an overlay has its list of operations there stand items, one for each operation, and an item is
decoded as the same operation wherever it stands: a text is decoded exactly as its items are
(`decode_eq_ok_iff`). What an item is decoded as depends on the values of the members that its form
knows, on each by its name, and not on how the objects inside these values are ordered
(`ofMembers_eq_ok_iff`, `build_canonical`).
-/

namespace FieldDiagram

open Json (Value Reading)

/-! ## Values and their canonical form

Fields ask for numbers, texts and lists of numbers, in which there is nothing to sort. -/

namespace Json.Value

theorem found_canonical (v : Value) : v.canonical.found = v.found := by
  cases v with
  | number n => cases n <;> rfl
  | _ => rfl

theorem reals_canonical (v : Value) : v.canonical.reals = v.reals := by
  cases v with
  | array items =>
    rw [canonical, reals, reals]
    induction items with
    | nil => rfl
    | cons item items ih => rw [canonicalItems, List.mapM_cons, List.mapM_cons, ih, found_canonical]
  | _ => rfl

end Json.Value

namespace Op

/-- What a form builds depends on what stands in its fields by name, and is the same for the canonical
forms of the values. -/
theorem build_canonical {form : OpForm} {kind : String} (hform : forms.lookup kind = some form)
    {ms ns : List (String × Value)} (h : ∀ k, ns.lookup k = (ms.lookup k).map Value.canonical) :
    form.build (RecordShape.byName ns) = form.build (RecordShape.byName ms) := by
  have hget : ∀ {β : Type} {decode : Value → Decoded β}, (∀ v, decode v.canonical = decode v) →
      ∀ name, (RecordShape.byName ns).get name decode = (RecordShape.byName ms).get name decode := by
    intro β decode hdecode name
    rw [Fields.get, Fields.get, RecordShape.byName, RecordShape.byName, h]
    cases ms.lookup name with
    | none => rfl
    | some v => exact hdecode v
  have hgetD : ∀ {β : Type} {decode : Value → Decoded β}, (∀ v, decode v.canonical = decode v) →
      ∀ name default, (RecordShape.byName ns).getD name decode default =
        (RecordShape.byName ms).getD name decode default := by
    intro β decode hdecode name default
    rw [Fields.getD, Fields.getD, RecordShape.byName, RecordShape.byName, h]
    cases ms.lookup name with
    | none => rfl
    | some v => exact hdecode v
  have hreal : ∀ v : Value, v.canonical.toReal = v.toReal :=
    fun v => congrArg Found.toReal v.found_canonical
  have htext : ∀ v : Value, v.canonical.toText = v.toText :=
    fun v => congrArg Found.toText v.found_canonical
  have hoptional : ∀ v : Value, v.canonical.toOptionalText = v.toOptionalText :=
    fun v => congrArg Found.toOptionalText v.found_canonical
  have hflag : ∀ v : Value, v.canonical.toFlag = v.toFlag :=
    fun v => congrArg Found.toFlag v.found_canonical
  have hcount : ∀ v : Value, v.canonical.toCount = v.toCount :=
    fun v => congrArg Found.toCount v.found_canonical
  -- every form asks for its fields with one of these
  have hall : ∀ entry ∈ forms,
      entry.2.build (RecordShape.byName ns) = entry.2.build (RecordShape.byName ms) := by
    simp only [forms, List.forall_mem_cons, build_form, point, outlined, SplineCurve.ofFields,
      hget hreal, hget htext, hget hcount, hget Value.reals_canonical, hgetD hreal, hgetD hoptional,
      hgetD hflag, List.not_mem_nil, IsEmpty.forall_iff, implies_true, and_self]
  exact hall _ (Json.mem_of_lookup hform)

/-! ## Members that a form knows

What a form does not know it leaves out before anything is checked. -/

/-- Members that the form does not know make no difference, whatever is wrong. -/
theorem ofMembers_filter (form : OpForm) (ms : List (String × Value)) :
    ofMembers form (ms.filter (form.shape.knows ·.1)) = ofMembers form ms := by
  rw [ofMembers, ofMembers, RecordShape.ofMembers, RecordShape.ofMembers, collect_filter]

/-- Members with distinct names make an operation exactly if they meet the rules of its kind, and it is
built from those that the form knows. -/
theorem ofMembers_eq_ok_iff {kind : String} {form : OpForm} (hasks : Asks kind form (rulesOf kind))
    {ms : List (String × Value)} (hdistinct : Json.DistinctNames ms) {op : Op Float} :
    ofMembers form ms = .ok op ↔ (∀ rule ∈ rulesOf kind, rule.Met (ms.lookup rule.name)) ∧
      form.build (RecordShape.byName (ms.filter (form.shape.knows ·.1))) = .ok op := by
  have htakes := takes_ofMembers hasks hdistinct
  have hbuild : ∀ {built : Op Float}, ofMembers form ms = .ok built →
      form.build (RecordShape.byName (ms.filter (form.shape.knows ·.1))) = .ok built := by
    intro built h
    obtain ⟨fs, hfs, h⟩ := exists_of_bind h
    obtain ⟨entries, hentries, rfl⟩ := exists_of_map hfs
    rw [collect_eq_filter hentries] at h
    exact h
  constructor
  · exact fun h => ⟨htakes.succeeds_iff.1 ⟨op, h⟩, hbuild h⟩
  · rintro ⟨hmet, h⟩
    obtain ⟨built, hbuilt⟩ := htakes.succeeds_iff.2 hmet
    rw [hbuilt, ← hbuild hbuilt, h]

/-! ## Items

Nothing that is decoded of one item is used for another. So a list is decoded as each of its items is, and
an item as it is anywhere else. -/

/-- The operation that an item at a place of an overlay is decoded as. -/
def ofItem (index : Nat) (item : Reading) : Decoded (Op Float) := do
  let v ← ofText (item.value (Json.nestingLimit - 2))
  ofElement index v.canonical

/-- The place of an element has no say in what it is decoded as, only in what is said if it is not. -/
theorem ofElement_eq_ok {v : Value} {op : Op Float} {index : Nat}
    (h : ofElement index v.canonical = .ok op) (other : Nat) :
    ofElement other v.canonical = .ok op := by
  rw [ofElement_canonical] at h ⊢
  cases hform : forms.lookup (elementKind v) with
  | none =>
    rw [hform] at h
    exact h
  | some form =>
    rw [hform] at h
    dsimp only at h ⊢
    cases hop : ofMembers form (v.canonical.members.filter (·.1 ≠ tag)) with
    | error e =>
      rw [hop] at h
      cases h
    | ok built =>
      rw [hop] at h
      exact h

/-- An item is decoded as an operation, wherever it stands. -/
def TakenAs (item : Reading) (op : Op Float) : Prop := ∀ index, ofItem index item = .ok op

theorem takenAs_of_ofItem {item : Reading} {op : Op Float} {index : Nat}
    (h : ofItem index item = .ok op) : TakenAs item op := by
  intro other
  obtain ⟨v, hv, hop⟩ := exists_of_bind h
  rw [ofItem, hv]
  exact ofElement_eq_ok hop other

/-- Items are decoded one by one, each for itself. -/
theorem forall₂_takenAs_iff {items : List Reading} {ops : List (Op Float)} (start : Nat) :
    List.Forall₂ TakenAs items ops ↔
      ∃ vs, (items.mapM fun item => ofText (item.value (Json.nestingLimit - 2))) = .ok vs ∧
        ((vs.zipIdx start).mapM fun (element, index) => ofElement index element.canonical) =
          .ok ops := by
  constructor
  -- one induction for each direction, both over the items with the index of the first one left open
  · intro h
    induction h generalizing start with
    | nil => exact ⟨[], rfl, rfl⟩
    | cons htaken _ ih =>
      obtain ⟨v, hv, hop⟩ := exists_of_bind (htaken start)
      obtain ⟨vs, hvs, hops⟩ := ih (start + 1)
      refine ⟨v :: vs, ?_, ?_⟩
      · rw [List.mapM_cons, hv, hvs]
        rfl
      · rw [List.zipIdx_cons, List.mapM_cons]
        dsimp only
        rw [hop, hops]
        rfl
  · rintro ⟨vs, hvs, hops⟩
    have hvalues := mapM_eq_ok_iff.1 hvs
    clear hvs
    induction hvalues generalizing start ops with
    | nil =>
      cases hops
      exact .nil
    | @cons item v items vs hv _ ih =>
      rw [List.zipIdx_cons, List.mapM_cons] at hops
      obtain ⟨op, hop, hops⟩ := exists_of_bind hops
      obtain ⟨rest, hrest, hops⟩ := exists_of_bind hops
      cases hops
      have htaken : ofItem start item = .ok op := by
        rw [ofItem, hv]
        exact hop
      exact .cons (takenAs_of_ofItem htaken) (ih (start + 1) hrest)

end Op

namespace Overlay

/-- The items that stand in the list of operations of a text. -/
def items (text : String) : Decoded (List Reading) :=
  decodeText (RecordShape.readSingle shape.title "ops" (Reading.list .ok)) text

/-- Items stand in an array that is closed. -/
theorem array_of_list_ok {r : Reading} {items : List Reading} (h : r.list .ok = .ok items) :
    r = .array items none := by
  cases r with
  | array inside ending =>
    have hall : inside.mapM (.ok : Reading → Decoded Reading) = .ok (inside.map id) :=
      mapM_ok fun _ _ => rfl
    rw [Reading.list, hall, List.map_id] at h
    cases ending with
    | some f => cases h
    | none =>
      cases h
      rfl
  | _ =>
    rw [Reading.list] at h
    · obtain ⟨found, -, hwrong⟩ := exists_of_bind h
      cases hwrong
    all_goals exact fun _ _ => Reading.noConfusion

/-- The items of a text that was written from values. -/
theorem items_written (vs : List Value) :
    items (Value.object [("ops", .array vs)]).text = .ok (Json.itemReadings vs) := by
  have hlist : (Value.array vs).reading.list .ok = (.ok (Json.itemReadings vs) : Decoded _) := by
    have hall : (Json.itemReadings vs).mapM (.ok : Reading → Decoded Reading) =
        .ok ((Json.itemReadings vs).map id) := mapM_ok fun _ _ => rfl
    rw [Value.reading, Reading.list, hall, List.map_id]
    rfl
  rw [items, decodeText_text, Value.reading, Json.memberReadings, Json.memberReadings,
    RecordShape.readSingle_object, hlist]
  · rfl
  · exact RecordShape.collect_single_only (by rw [Json.StringToken.text_ofText, ofText]) _

/-- A text with these items is decoded as the list of them is. -/
theorem decode_of_items {text : String} {rs : List Reading} (h : items text = .ok rs) :
    decode text = (Op.listOfReading (.array rs none)).map Overlay.mk := by
  obtain ⟨r, hr, hsame⟩ := RecordShape.exists_of_decodeText h
  rw [decode_eq_decodeText, hsame, array_of_list_ok hr]

/-- **A text is decoded as its items are**, each for itself. -/
theorem decode_eq_ok_iff {text : String} {rs : List Reading} (h : items text = .ok rs)
    (o : Overlay Float) : decode text = .ok o ↔ List.Forall₂ Op.TakenAs rs o.ops := by
  rw [decode_of_items h, Op.forall₂_takenAs_iff 0, Op.listOfReading, Reading.list]
  constructor
  · intro hdecode
    obtain ⟨ops, hops, rfl⟩ := exists_of_map hdecode
    obtain ⟨vs, hvs, hops⟩ := exists_of_bind hops
    obtain ⟨ws, hws, hvs⟩ := exists_of_bind hvs
    cases hvs
    exact ⟨vs, hws, hops⟩
  · rintro ⟨vs, hvs, hops⟩
    rw [hvs]
    change (Op.listOfValues vs).map Overlay.mk = _
    rw [Op.listOfValues, hops]
    rfl

end Overlay

end FieldDiagram
