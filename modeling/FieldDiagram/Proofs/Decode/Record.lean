import FieldDiagram.Decode.Shape
import FieldDiagram.Proofs.Ensures
import FieldDiagram.Proofs.Json.Members
import FieldDiagram.Proofs.Json.ReadBack
/-!
# What decoders make of records

Of some members a record takes exactly those that have a field, if their names are distinct and the value
of each will do for its field (`collect_eq_ok_iff`).
-/

namespace FieldDiagram

variable {β : Type}

/-! ## Records

A record is collected member by member, and what has been collected decides about the next one. The
condition for all of them does not depend on their order: each member passes by itself, and no field is met
twice. -/

section Record

variable {ν κ : Type} {shape : RecordShape ν} {name : κ → Decoded String} {skip : ν → Decoded Unit}

/-- Whether a record has a field of this name. -/
def RecordShape.knows (shape : RecordShape ν) (name : String) : Bool :=
  (shape.fields.find? (·.name = name)).isSome

/-- The members that have a field, under their names. -/
def RecordShape.known (shape : RecordShape ν) (name : κ → Decoded String) (ms : List (κ × ν)) :
    List (String × ν) :=
  ms.filterMap fun m => ((name m.1).toOption.filter shape.knows).map (·, m.2)

/-- Whether a member is no obstacle to a record: its name is one, and its value will do for the field of
this name, or can be skipped where there is no such field. -/
def RecordShape.Passes (shape : RecordShape ν) (name : κ → Decoded String)
    (skip : ν → Decoded Unit) (m : κ × ν) : Prop :=
  ∃ k, name m.1 = .ok k ∧
    ((shape.fields.find? (·.name = k)).elim (skip m.2) fun field => field.check m.2) = .ok ()

theorem passes_iff {m : κ × ν} {k : String} (hk : name m.1 = .ok k) :
    shape.Passes name skip m ↔
      ((shape.fields.find? (·.name = k)).elim (skip m.2) fun field => field.check m.2) = .ok () := by
  constructor
  · rintro ⟨k', hk', h⟩
    obtain rfl := Except.ok.inj (hk.symm.trans hk')
    exact h
  · exact fun h => ⟨k, hk, h⟩

theorem knows_of_find? {k : String} {field : Option (Field ν)}
    (h : shape.fields.find? (·.name = k) = field) : shape.knows k = field.isSome := by
  rw [RecordShape.knows, h]

/-- What a member adds to the known ones. -/
theorem known_cons {m : κ × ν} {k : String} (hk : name m.1 = .ok k) (ms : List (κ × ν)) :
    shape.known name (m :: ms) =
      if shape.knows k then (k, m.2) :: shape.known name ms else shape.known name ms := by
  rw [RecordShape.known, List.filterMap_cons, hk]
  by_cases hknows : shape.knows k = true
  · simp [Except.toOption, Option.filter, hknows, RecordShape.known]
  · simp [Except.toOption, Option.filter, hknows, RecordShape.known]

/-- Where names are read as they are, the known members are those with a field. -/
theorem known_eq_filter (shape : RecordShape ν) (ms : List (String × ν)) :
    shape.known (fun name : String => .ok name) ms = ms.filter (shape.knows ·.1) := by
  induction ms with
  | nil => rfl
  | cons m ms ih => rw [known_cons rfl, ih, List.filter_cons]

theorem mem_known_iff {ms : List (κ × ν)} {e : String × ν} :
    e ∈ shape.known name ms ↔
      shape.knows e.1 = true ∧ ∃ m ∈ ms, name m.1 = .ok e.1 ∧ m.2 = e.2 := by
  rw [RecordShape.known, List.mem_filterMap]
  constructor
  · rintro ⟨m, hm, heq⟩
    obtain ⟨k, hk, rfl⟩ := Option.map_eq_some_iff.1 heq
    obtain ⟨htext, hknows⟩ := Option.filter_eq_some_iff.1 hk
    refine ⟨hknows, m, hm, ?_, rfl⟩
    cases hname : name m.1 with
    | error e =>
      rw [hname] at htext
      cases htext
    | ok j =>
      rw [hname] at htext
      exact congrArg Except.ok (Option.some.inj htext)
  · rintro ⟨hknows, m, hm, hname, heq⟩
    refine ⟨m, hm, ?_⟩
    rw [hname]
    simp [Except.toOption, hknows, heq]

/-- **What a record takes of members**: those that have a field, if no member is an obstacle and no
field is met twice. -/
theorem collect_eq_ok_iff {seen entries : List (String × ν)} {ms : List (κ × ν)}
    (hseen : Json.DistinctNames seen) :
    shape.collect name skip seen ms = .ok entries ↔
      (∀ m ∈ ms, shape.Passes name skip m) ∧
        Json.DistinctNames (seen ++ shape.known name ms) ∧
        entries = seen ++ shape.known name ms := by
  induction ms generalizing seen with
  | nil =>
    rw [RecordShape.collect, RecordShape.known, List.filterMap_nil, List.append_nil]
    constructor
    · exact fun h => ⟨by simp, hseen, (Except.ok.inj h).symm⟩
    · rintro ⟨-, -, rfl⟩
      rfl
  | cons m ms ih =>
    rw [RecordShape.collect, List.forall_mem_cons]
    -- a member is an obstacle by its name, skipped as unknown, met for the second time, or a new entry
    cases hk : name m.1 with
    | error e =>
      refine iff_of_false nofun ?_
      rintro ⟨⟨⟨k, hk', -⟩, -⟩, -⟩
      rw [hk] at hk'
      cases hk'
    | ok k =>
      rw [known_cons hk, passes_iff hk]
      simp only [bind, Except.bind]
      cases hfield : shape.fields.find? (·.name = k) with
      | none =>
        rw [knows_of_find? hfield, if_neg (by simp)]
        dsimp only [Option.elim]
        cases skip m.2 with
        | error e => exact iff_of_false nofun (by rintro ⟨⟨h, -⟩, -⟩; cases h)
        | ok u => exact (ih hseen).trans (by simp)
      | some field =>
        rw [knows_of_find? hfield, Option.isSome_some, if_pos rfl]
        dsimp only [Option.elim]
        by_cases hmet : (seen.lookup k).isSome = true
        · rw [if_pos hmet]
          refine iff_of_false nofun fun h => ?_
          rw [Json.lookup_eq_none_of_middle h.2.1] at hmet
          cases hmet
        · rw [if_neg hmet]
          have hmoved := hseen.concat (Option.not_isSome_iff_eq_none.1 hmet) m.2
          cases field.check m.2 with
          | error e => exact iff_of_false nofun (by rintro ⟨⟨h, -⟩, -⟩; cases h)
          | ok u =>
            refine (ih hmoved).trans ?_
            simp

theorem collect_fails {ms : List (κ × ν)} {m : κ × ν} (hm : m ∈ ms) {k : String}
    (hname : name m.1 = .ok k) {field : Field ν}
    (hfield : shape.fields.find? (·.name = k) = some field)
    (hcheck : Ensures (field.check m.2) fun _ => False) :
    Ensures (shape.collect name skip [] ms) fun _ => False := by
  intro entries h
  obtain ⟨hpasses, -, -⟩ := (collect_eq_ok_iff Json.distinctNames_nil).1 h
  have hok := (passes_iff hname).1 (hpasses m hm)
  rw [hfield] at hok
  exact hcheck () hok

/-- The members that are taken are some of those that were there. -/
theorem ensures_collect {Q : ν → Prop} {seen : List (String × ν)} {ms : List (κ × ν)}
    (hseen : ∀ e ∈ seen, Q e.2) (hms : ∀ m ∈ ms, Q m.2) :
    Ensures (shape.collect name skip seen ms) fun entries => ∀ e ∈ entries, Q e.2 := by
  induction ms generalizing seen with
  | nil => exact ensures_ok hseen
  | cons m ms ih =>
    obtain ⟨hm, hrest⟩ := List.forall_mem_cons.1 hms
    rw [RecordShape.collect]
    refine (ensures_true (name m.1)).bind fun k _ => ?_
    split
    · exact (ensures_true _).bind fun _ _ => ih hseen hrest
    · split
      · exact ensures_error _ _
      · refine (ensures_true _).bind fun _ _ => ih ?_ hrest
        rw [List.forall_mem_append, List.forall_mem_singleton]
        exact ⟨hseen, hm⟩

/-- Members without a field make no difference. -/
theorem collect_filter (shape : RecordShape ν) (seen ms : List (String × ν)) :
    shape.collect (fun name : String => .ok name) (fun _ => .ok ()) seen
        (ms.filter (shape.knows ·.1)) =
      shape.collect (fun name : String => .ok name) (fun _ => .ok ()) seen ms := by
  induction ms generalizing seen with
  | nil => rfl
  | cons m ms ih =>
    rw [List.filter_cons, RecordShape.knows]
    cases hfield : shape.fields.find? (·.name = m.1) with
    | none =>
      rw [RecordShape.collect]
      simp only [bind, Except.bind, hfield]
      exact ih seen
    | some field =>
      rw [Option.isSome_some, if_pos rfl, RecordShape.collect, RecordShape.collect]
      simp only [bind, Except.bind, hfield, ih]

/-- What is taken are the members with a field. -/
theorem collect_eq_filter {shape : RecordShape ν} {ms entries : List (String × ν)}
    (h : shape.collect (fun name : String => .ok name) (fun _ => .ok ()) [] ms = .ok entries) :
    entries = ms.filter (shape.knows ·.1) := by
  obtain ⟨-, -, rfl⟩ := (collect_eq_ok_iff Json.distinctNames_nil).1 h
  rw [List.nil_append, known_eq_filter]

/-- Members with distinct known names, each of which will do for its field, are a record. -/
theorem ofMembers_ok {shape : RecordShape Json.Value} {ms : List (String × Json.Value)}
    (hdistinct : Json.DistinctNames ms)
    (hcheck : ∀ m ∈ ms, ∃ field, shape.fields.find? (·.name = m.1) = some field ∧
      field.check m.2 = .ok ()) :
    shape.ofMembers ms = .ok (RecordShape.byName ms) := by
  have hpasses : ∀ m ∈ ms, shape.Passes (fun name : String => .ok name) (fun _ => .ok ()) m := by
    intro m hm
    obtain ⟨field, hfield, hok⟩ := hcheck m hm
    refine ⟨m.1, rfl, ?_⟩
    rw [hfield]
    exact hok
  have hknown : shape.known (fun name : String => .ok name) ms = ms := by
    rw [known_eq_filter, List.filter_eq_self]
    intro m hm
    obtain ⟨field, hfield, -⟩ := hcheck m hm
    rw [knows_of_find? hfield, Option.isSome_some]
  have hcollect := (collect_eq_ok_iff Json.distinctNames_nil).2 ⟨hpasses, hknown.symm ▸ hdistinct, rfl⟩
  rw [RecordShape.ofMembers, hcollect, List.nil_append, hknown]
  rfl

theorem ensures_ofMembers {shape : RecordShape Json.Value} {Q : Json.Value → Prop}
    {ms : List (String × Json.Value)} (hms : ∀ m ∈ ms, Q m.2) :
    Ensures (shape.ofMembers ms) fun fs => ∀ e ∈ fs.entries, Q e.2 :=
  Ensures.map (ensures_collect (by simp) hms)

end Record

/-! ## Fields

What is collected is looked up by name afterwards, when every value has been checked already. -/

section Fields

variable {ν : Type} {fs : Fields ν} {Q : ν → Prop} {P : β → Prop} {decode : ν → Decoded β}

/-- What decoding ensures of every value that a field may have it ensures of the field. -/
theorem ensures_get (hfs : ∀ e ∈ fs.entries, Q e.2) (hdecode : ∀ v, Q v → Ensures (decode v) P)
    (name : String) : Ensures (fs.get name decode) P := by
  rw [Fields.get]
  split
  · next v hv => exact hdecode v (hfs _ (Json.mem_of_lookup hv))
  · exact ensures_error _ _

theorem ensures_getD (hfs : ∀ e ∈ fs.entries, Q e.2) (hdecode : ∀ v, Q v → Ensures (decode v) P)
    (name : String) {default : β} (hdefault : P default) :
    Ensures (fs.getD name decode default) P := by
  rw [Fields.getD]
  split
  · next v hv => exact hdecode v (hfs _ (Json.mem_of_lookup hv))
  · exact ensures_ok hdefault

end Fields

/-! ## Texts

Decoding a text is decoding what is read of it, where nothing of the text is left over. -/

theorem Ensures.ofText {d : Except Json.Fault β} {P : β → Prop} (h : Ensures d P) :
    Ensures (ofText d) P := by
  cases d with
  | error f => exact ensures_error _ P
  | ok x => exact ensures_ok (h x rfl)

/-- Who decodes a text decodes what is read of it, if nothing is left. -/
theorem decodeText_of_read {text : String} {r : Json.Reading} (h : Json.read text = (r, []))
    (decode : Json.Reading → Decoded β) : decodeText decode text = decode r := by
  rw [decodeText, h]
  dsimp only
  cases decode r <;> rfl

/-- Who decodes the text of a value decodes its reading. -/
theorem decodeText_text (decode : Json.Reading → Decoded β) (v : Json.Value) :
    decodeText decode v.text = decode v.reading :=
  decodeText_of_read (Json.read_text v) decode

theorem ensures_decodeText {decode : Json.Reading → Decoded β} {P : β → Prop}
    (h : ∀ r, Ensures (decode r) P) (text : String) : Ensures (decodeText decode text) P := by
  rw [decodeText]
  split
  next r rest hread =>
  refine (h r).bind fun x hx => ?_
  split
  · exact ensures_ok hx
  · exact ensures_error _ _

end FieldDiagram
