import FieldDiagram.Options
import FieldDiagram.Proofs.Decode.Readings
import FieldDiagram.Proofs.Json.Faultless
/-!
# Options in documents

Which objects are options, and which options they are (`decode_given`). Every option may be absent and then
is the standard one; what is there has to be right, and may not be there twice; members with other names are
passed over, whatever their values are.

Two things about texts stand between options and what was written of them, and both are exact here.

* The names of all members are read, also of those that are passed over. A name that is no text, such as half
  of a surrogate pair, is refused.
* A number is what its digits are read as, which need not be the number that was written: `reread`.

So the statements come in pairs. What stands in an object is either described by the values of its members, and
then these are what is taken; or by how its members are spelled, and then it is options that come back as
`reread`. Where the digits of all numbers are read as these numbers the two are the same.
-/

namespace FieldDiagram

open Json (Reading Value StringToken)

namespace Options

/-! ## What an object gives

Objects that are options are told by three conditions on what is given, none of which looks at the order of
members. -/

/-- The members of an object that are named like an option. -/
def given (members : List (StringToken × Reading)) : List (String × Reading) :=
  shape.known (fun k : StringToken => ofText k.text) members

/-- What an option asks of what it is given: a positive whole number for the lines of a spline, the text
of a colour for the colour of the grid, a text for the address of the art, and a number for all else. -/
def Admits (name : String) (r : Reading) : Prop :=
  match name with
  | "splineSamples" => ∃ n : Int, 0 < n ∧ r.found = .ok (.integer n)
  | "gridLineColor" => ∃ s c, r.found = .ok (.string s) ∧ Color.parse s = .ok c
  | "fieldImage" => ∃ s, r.found = .ok (.string s)
  | _ => (∃ n, r.found = .ok (.integer n)) ∨ ∃ x, r.found = .ok (.real x)

theorem exists_real_iff (r : Reading) :
    (∃ x, r.real = .ok x) ↔ (∃ n, r.found = .ok (.integer n)) ∨ ∃ x, r.found = .ok (.real x) := by
  simp only [Json.Reading.real_eq_ok_iff]
  constructor
  · rintro ⟨x, h | ⟨n, h, -⟩⟩
    · exact Or.inr ⟨x, h⟩
    · exact Or.inl ⟨n, h⟩
  · rintro (⟨n, h⟩ | ⟨x, h⟩)
    · exact ⟨_, Or.inr ⟨n, h, rfl⟩⟩
    · exact ⟨x, Or.inl h⟩

theorem exists_positive_iff (r : Reading) :
    (∃ n, r.positive = .ok n) ↔ ∃ n : Int, 0 < n ∧ r.found = .ok (.integer n) := by
  simp only [Json.Reading.positive_eq_ok_iff]
  constructor
  · rintro ⟨n, h⟩
    exact ⟨n.1, Int.natCast_pos.2 n.2, h⟩
  · rintro ⟨n, hn, h⟩
    refine ⟨⟨n.toNat, by omega⟩, ?_⟩
    rw [Int.toNat_of_nonneg hn.le]
    exact h

theorem exists_color_iff (r : Reading) :
    (∃ c, r.color = .ok c) ↔ ∃ s c, r.found = .ok (.string s) ∧ Color.parse s = .ok c := by
  simp only [Json.Reading.color_eq_ok_iff]
  exact exists_comm

theorem exists_text_iff (r : Reading) :
    (∃ s, r.text = .ok s) ↔ ∃ s, r.found = .ok (.string s) :=
  exists_congr fun _ => Json.Reading.text_eq_ok_iff

/-- A field checks that it is given what its option asks for. -/
theorem check_eq_ok_iff_admits :
    ∀ field ∈ shape.fields, ∀ r, field.check r = .ok () ↔ Admits field.name r := by
  simp only [shape, List.forall_mem_cons]
  have hreal := fun name r => (Field.check_eq_ok_iff name).trans (exists_real_iff r)
  refine ⟨hreal _, hreal _, hreal _, fun r => ?_, hreal _, fun r => ?_, fun r => ?_, by simp⟩
  · exact (Field.check_eq_ok_iff _).trans (exists_positive_iff r)
  · exact (Field.check_eq_ok_iff _).trans (exists_color_iff r)
  · exact (Field.check_eq_ok_iff _).trans (exists_text_iff r)

theorem mem_given_iff {members : List (StringToken × Reading)} {e : String × Reading} :
    e ∈ given members ↔
      shape.knows e.1 = true ∧ ∃ m ∈ members, m.1.text = .ok e.1 ∧ m.2 = e.2 := by
  simp only [given, mem_known_iff, ofText_eq_ok_iff]

section Object

variable {members : List (StringToken × Reading)}

/-- No member is an obstacle exactly if all names can be read and all options are given what they ask
for. -/
theorem forall_passes_iff (hskipped : ∀ m ∈ members, m.2.firstFault? = none) :
    (∀ m ∈ members, shape.Passes (fun k : StringToken => ofText k.text)
      (fun v => unlessBroken v.firstFault?) m) ↔
      (∀ m ∈ members, ∃ name, m.1.text = .ok name) ∧ ∀ e ∈ given members, Admits e.1 e.2 := by
  have hadmits : ∀ name field, shape.fields.find? (·.name = name) = some field → ∀ r,
      field.check r = .ok () ↔ Admits name r := by
    intro name field hfield r
    have hname : field.name = name := by simpa using List.find?_some hfield
    rw [check_eq_ok_iff_admits field (List.mem_of_find?_eq_some hfield) r, hname]
  constructor
  · intro hpasses
    refine ⟨fun m hm => ?_, fun e he => ?_⟩
    · obtain ⟨name, hname, -⟩ := hpasses m hm
      exact ⟨name, ofText_eq_ok_iff.1 hname⟩
    · obtain ⟨hknows, m, hm, hname, heq⟩ := mem_given_iff.1 he
      obtain ⟨field, hfield⟩ := Option.isSome_iff_exists.1 hknows
      have hread : (fun k : StringToken => ofText k.text) m.1 = .ok e.1 := ofText_eq_ok_iff.2 hname
      have hcheck := (passes_iff hread).1 (hpasses m hm)
      rw [hfield, Option.elim_some, heq] at hcheck
      exact (hadmits e.1 field hfield e.2).1 hcheck
  · rintro ⟨hnames, hgiven⟩ m hm
    obtain ⟨name, hname⟩ := hnames m hm
    refine ⟨name, ofText_eq_ok_iff.2 hname, ?_⟩
    cases hfield : shape.fields.find? (·.name = name) with
    | none =>
      -- no option has this name, and the value is passed over
      change unlessBroken m.2.firstFault? = .ok ()
      rw [hskipped m hm]
      rfl
    | some field =>
      have hknows : shape.knows name = true := by rw [knows_of_find? hfield, Option.isSome_some]
      exact (hadmits name field hfield m.2).2
        (hgiven (name, m.2) (mem_given_iff.2 ⟨hknows, m, hm, hname, rfl⟩))

/-- Options are read from a record field by field. -/
theorem ofReading_eq_ok {r : Reading} {fs : Fields Reading} (hfs : shape.ofReading r = .ok fs)
    {o : Options Float}
    (hpadding : fs.getD "padding" Reading.real standard.padding = .ok o.padding)
    (halpha : fs.getD "alpha" Reading.real standard.alpha = .ok o.alpha)
    (hfieldSize : fs.getD "fieldSize" Reading.real standard.fieldSize = .ok o.fieldSize)
    (hsplineSamples : fs.getD "splineSamples" Reading.positive standard.splineSamples =
      .ok o.splineSamples)
    (hgridLineWidth : fs.getD "gridLineWidth" Reading.real standard.gridLineWidth =
      .ok o.gridLineWidth)
    (hgridLineColor : fs.getD "gridLineColor" Reading.color standard.gridLineColor =
      .ok o.gridLineColor)
    (hfieldImage : fs.getD "fieldImage" Reading.text standard.fieldImage = .ok o.fieldImage) :
    ofReading r = .ok o := by
  rw [ofReading, hfs]
  simp only [bind, Except.bind, hpadding, halpha, hfieldSize, hsplineSamples, hgridLineWidth,
    hgridLineColor, hfieldImage]
  rfl

/-- What is given for an option is read, if it is what the option asks for. -/
theorem exists_getD_given {β : Type} (hadmits : ∀ e ∈ given members, Admits e.1 e.2) (name : String)
    (decode : Reading → Decoded β) (default : β)
    (h : ∀ r, Admits name r → ∃ x, decode r = .ok x) :
    ∃ x, (RecordShape.byName (given members)).getD name decode default = .ok x := by
  rw [Fields.getD]
  split
  · next r hr => exact h r (hadmits (name, r) (Json.mem_of_lookup hr))
  · exact ⟨default, rfl⟩

/-- **Which objects are options**: those with names that can be read, no option among them twice, and
each given what it asks for. -/
theorem exists_ofReading_iff (hskipped : ∀ m ∈ members, m.2.firstFault? = none) :
    (∃ o, ofReading (.object members .closed) = .ok o) ↔
      (∀ m ∈ members, ∃ name, m.1.text = .ok name) ∧ Json.DistinctNames (given members) ∧
        ∀ e ∈ given members, Admits e.1 e.2 := by
  constructor
  · rintro ⟨o, ho⟩
    obtain ⟨fs, hfs, -⟩ := exists_of_bind ho
    obtain ⟨hpasses, hdistinct, -⟩ := RecordShape.ofReading_object_eq_ok_iff.1 hfs
    obtain ⟨hnames, hadmits⟩ := (forall_passes_iff hskipped).1 hpasses
    exact ⟨hnames, hdistinct, hadmits⟩
  · rintro ⟨hnames, hdistinct, hadmits⟩
    have hpasses := (forall_passes_iff hskipped).2 ⟨hnames, hadmits⟩
    have hfs := RecordShape.ofReading_object_eq_ok_iff.2 ⟨hpasses, hdistinct, rfl⟩
    -- what is given can be read, and for what is not there is the standard value
    obtain ⟨padding, hpadding⟩ := exists_getD_given hadmits "padding" Reading.real standard.padding
      fun r => (exists_real_iff r).2
    obtain ⟨alpha, halpha⟩ := exists_getD_given hadmits "alpha" Reading.real standard.alpha
      fun r => (exists_real_iff r).2
    obtain ⟨fieldSize, hfieldSize⟩ := exists_getD_given hadmits "fieldSize" Reading.real
      standard.fieldSize fun r => (exists_real_iff r).2
    obtain ⟨splineSamples, hsplineSamples⟩ := exists_getD_given hadmits "splineSamples"
      Reading.positive standard.splineSamples fun r => (exists_positive_iff r).2
    obtain ⟨gridLineWidth, hgridLineWidth⟩ := exists_getD_given hadmits "gridLineWidth" Reading.real
      standard.gridLineWidth fun r => (exists_real_iff r).2
    obtain ⟨gridLineColor, hgridLineColor⟩ := exists_getD_given hadmits "gridLineColor"
      Reading.color standard.gridLineColor fun r => (exists_color_iff r).2
    obtain ⟨fieldImage, hfieldImage⟩ := exists_getD_given hadmits "fieldImage" Reading.text
      standard.fieldImage fun r => (exists_text_iff r).2
    exact ⟨⟨padding, alpha, fieldSize, splineSamples, gridLineWidth, gridLineColor, fieldImage⟩,
      ofReading_eq_ok hfs hpadding halpha hfieldSize hsplineSamples hgridLineWidth hgridLineColor
        hfieldImage⟩

end Object

/-! ## What is made of it

Once an object is known to be options, each option is what is found under its name, or the standard value. -/

/-- The options of which those chosen by name are taken from others. -/
def taking (d o : Options Float) (chosen : String → Bool) : Options Float where
  padding := if chosen "padding" then o.padding else d.padding
  alpha := if chosen "alpha" then o.alpha else d.alpha
  fieldSize := if chosen "fieldSize" then o.fieldSize else d.fieldSize
  splineSamples := if chosen "splineSamples" then o.splineSamples else d.splineSamples
  gridLineWidth := if chosen "gridLineWidth" then o.gridLineWidth else d.gridLineWidth
  gridLineColor := if chosen "gridLineColor" then o.gridLineColor else d.gridLineColor
  fieldImage := if chosen "fieldImage" then o.fieldImage else d.fieldImage

/-- Members with these values under these names, one by one. -/
def HaveValues (rs : List (String × Reading)) (vs : List (String × Value)) : Prop :=
  List.Forall₂ (fun r v => r.1 = v.1 ∧ r.2.value Json.nestingLimit = .ok v.2) rs vs

theorem HaveValues.names_eq {rs : List (String × Reading)} {vs : List (String × Value)}
    (h : HaveValues rs vs) : rs.map Prod.fst = vs.map Prod.fst := by
  induction h with
  | nil => rfl
  | cons hr _ ih => rw [List.map_cons, List.map_cons, hr.1, ih]

theorem HaveValues.exists_of_mem {rs : List (String × Reading)} {vs : List (String × Value)}
    (h : HaveValues rs vs) {r : String × Reading} (hr : r ∈ rs) :
    ∃ v, v ∈ vs ∧ r.1 = v.1 ∧ r.2.value Json.nestingLimit = .ok v.2 := by
  induction h with
  | nil => cases hr
  | cons hfirst _ ih =>
    rcases List.mem_cons.1 hr with rfl | hrest
    · exact ⟨_, List.mem_cons_self, hfirst⟩
    · obtain ⟨v, hv, hsame⟩ := ih hrest
      exact ⟨v, List.mem_cons_of_mem _ hv, hsame⟩

/-- What is found under a name has the value that stands under this name. -/
theorem HaveValues.lookup {rs : List (String × Reading)} {vs : List (String × Value)}
    (h : HaveValues rs vs) (name : String) :
    Option.Rel (fun r v => r.value Json.nestingLimit = .ok v) (rs.lookup name) (vs.lookup name) := by
  induction h with
  | nil => exact .none
  | @cons r v rs vs hr _ ih =>
    obtain ⟨j, r⟩ := r
    obtain ⟨k, v⟩ := v
    obtain ⟨rfl, hvalue⟩ := hr
    rw [Json.lookup_cons_eq_ite, Json.lookup_cons_eq_ite]
    split
    · exact .some hvalue
    · exact ih

theorem distinctNames_members (o : Options Float) : Json.DistinctNames o.value.members := by
  simp [Json.DistinctNames, value, Value.members]

/-- The members of written options of which some are chosen. -/
theorem lookup_chosen {o : Options Float} {chosen : String → Bool} {vs : List (String × Value)}
    (h : vs.Perm (o.value.members.filter (chosen ·.1))) (name : String) :
    vs.lookup name = if chosen name then o.value.members.lookup name else none := by
  have hchosen := (distinctNames_members o).filter (chosen ·.1)
  rw [Json.lookup_congr (hchosen.perm h) hchosen (fun m => h.mem_iff), Json.lookup_filter_fst]

/-- What is read of an option that was written, where it is chosen, and of one that was not. -/
theorem getD_chosen {o : Options Float} {chosen : String → Bool} {vs : List (String × Value)}
    (hchosen : vs.Perm (o.value.members.filter (chosen ·.1))) {rs : List (String × Reading)}
    (hvalues : HaveValues rs vs) {β : Type} {name : String} {v : Value}
    (hv : o.value.members.lookup name = some v) {decode : Reading → Decoded β} {x : β}
    (hdecode : ∀ r : Reading, r.value Json.nestingLimit = .ok v → decode r = .ok x) (default : β) :
    (RecordShape.byName rs).getD name decode default =
      .ok (if chosen name then x else default) := by
  have hrel := hvalues.lookup name
  rw [lookup_chosen hchosen, hv] at hrel
  rw [Fields.getD, RecordShape.byName]
  by_cases hname : chosen name = true
  · rw [if_pos hname] at hrel ⊢
    cases hrs : rs.lookup name with
    | none =>
      rw [hrs] at hrel
      cases hrel
    | some r =>
      rw [hrs] at hrel
      cases hrel with
      | some hr => exact hdecode r hr
  · rw [if_neg hname] at hrel ⊢
    cases hrs : rs.lookup name with
    | none => rfl
    | some r =>
      rw [hrs] at hrel
      cases hrel

/-- A written option is what the option asks for. -/
theorem admits_of_mem {o : Options Float} {name : String} {v : Value}
    (h : (name, v) ∈ o.value.members) {r : Reading} (hr : r.value Json.nestingLimit = .ok v) :
    Admits name r := by
  have hfound := Json.Reading.found_of_value hr
  simp only [value, Value.members, List.mem_cons, List.not_mem_nil, or_false, Prod.mk.injEq] at h
  rcases h with ⟨rfl, rfl⟩ | ⟨rfl, rfl⟩ | ⟨rfl, rfl⟩ | ⟨rfl, rfl⟩ | ⟨rfl, rfl⟩ | ⟨rfl, rfl⟩ | ⟨rfl, rfl⟩
  · exact Or.inr ⟨_, hfound⟩
  · exact Or.inr ⟨_, hfound⟩
  · exact Or.inr ⟨_, hfound⟩
  · exact ⟨_, Int.natCast_pos.2 o.splineSamples.2, hfound⟩
  · exact Or.inr ⟨_, hfound⟩
  · exact ⟨_, _, hfound, Color.parse_written _⟩
  · exact ⟨_, hfound⟩

/-- **An object that gives some options as they were written** is read as these options, and as the
standard ones where it gives none. -/
theorem ofReading_chosen {o : Options Float} (hcolor : o.gridLineColor.OnGrid)
    (chosen : String → Bool) {vs : List (String × Value)}
    (hchosen : vs.Perm (o.value.members.filter (chosen ·.1))) {members : List (StringToken × Reading)}
    (hskipped : ∀ m ∈ members, m.2.firstFault? = none)
    (hnames : ∀ m ∈ members, ∃ name, m.1.text = .ok name) (hvalues : HaveValues (given members) vs) :
    ofReading (.object members .closed) = .ok (standard.taking o chosen) := by
  have hadmits : ∀ e ∈ given members, Admits e.1 e.2 := by
    intro e he
    obtain ⟨v, hv, hname, hvalue⟩ := hvalues.exists_of_mem he
    rw [hname]
    exact admits_of_mem (List.mem_of_mem_filter (hchosen.mem_iff.1 hv)) hvalue
  have hdistinct : Json.DistinctNames (given members) := by
    rw [Json.DistinctNames, hvalues.names_eq]
    exact ((distinctNames_members o).filter (chosen ·.1)).perm hchosen
  have hfs := RecordShape.ofReading_object_eq_ok_iff.2
    ⟨(forall_passes_iff hskipped).2 ⟨hnames, hadmits⟩, hdistinct, rfl⟩
  have hreal : ∀ (x : Float) (r : Reading), r.value Json.nestingLimit = .ok (.real x) →
      r.real = .ok x := fun x r hr =>
    Json.Reading.real_eq_ok_iff.2 (Or.inl (Json.Reading.found_of_value hr))
  apply ofReading_eq_ok hfs
  · exact getD_chosen hchosen hvalues rfl (hreal _) _
  · exact getD_chosen hchosen hvalues rfl (hreal _) _
  · exact getD_chosen hchosen hvalues rfl (hreal _) _
  · refine getD_chosen hchosen hvalues rfl (fun r hr => ?_) _
    exact Json.Reading.positive_eq_ok_iff.2 (Json.Reading.found_of_value hr)
  · exact getD_chosen hchosen hvalues rfl (hreal _) _
  · refine getD_chosen hchosen hvalues rfl (fun r hr => ?_) _
    -- the colour comes through its text as it was
    rw [← hcolor.reread_eq]
    exact Json.Reading.color_eq_ok_iff.2
      ⟨_, Json.Reading.found_of_value hr, Color.parse_written _⟩
  · refine getD_chosen hchosen hvalues rfl (fun r hr => ?_) _
    exact Json.Reading.text_eq_ok_iff.2 (Json.Reading.found_of_value hr)

/-! ## Written options

Members that are spelled as they were written have values, the ones that come back. With that, what was said
of values can be said of spellings. -/

/-- The numbers of options, the number of lines apart. -/
def numbers (o : Options Float) : List Float := [o.padding, o.alpha, o.fieldSize, o.gridLineWidth]

/-- What comes back of options that are written: the numbers are what their digits are read as. -/
def reread (o : Options Float) : Options Float where
  padding := Double.reread o.padding
  alpha := Double.reread o.alpha
  fieldSize := Double.reread o.fieldSize
  splineSamples := o.splineSamples
  gridLineWidth := Double.reread o.gridLineWidth
  gridLineColor := o.gridLineColor
  fieldImage := o.fieldImage

theorem reread_eq_self_iff (o : Options Float) : o.reread = o ↔ ∀ x ∈ o.numbers, Double.reread x = x := by
  cases o
  simp [reread, numbers]

/-- The members of the options that come back are the members as they come back. -/
theorem members_reread {o : Options Float} (hfinite : ∀ x ∈ o.numbers, x.isFinite = true) :
    o.reread.value.members = o.value.members.map fun m => (m.1, m.2.reread) := by
  simp only [numbers, List.forall_mem_cons] at hfinite
  obtain ⟨hpadding, halpha, hfieldSize, hgridLineWidth, -⟩ := hfinite
  simp only [value, Value.members, List.map_cons, List.map_nil, reread, Value.reread_real hpadding,
    Value.reread_real halpha, Value.reread_real hfieldSize, Value.reread_real hgridLineWidth,
    Value.reread_integer, Value.reread_string]

/-- Every written option has a value, the one that comes back, if it is a finite number or fits a machine
word. -/
theorem value_of_mem {o : Options Float} (hsamples : o.splineSamples.1 < 2 ^ 64) :
    ∀ m ∈ o.value.members, m.2.reading.value Json.nestingLimit = .ok m.2.reread := by
  have hlines : (Value.integer o.splineSamples.1).FitsIn Json.nestingLimit := by
    constructor <;> omega
  have hreal : ∀ x : Float, (Value.real x).FitsIn Json.nestingLimit := fun _ => trivial
  have htext : ∀ s : String, (Value.string s).FitsIn Json.nestingLimit := fun _ => trivial
  simp only [value, Value.members, List.forall_mem_cons]
  exact ⟨Json.value_reading (hreal _), Json.value_reading (hreal _), Json.value_reading (hreal _),
    Json.value_reading hlines, Json.value_reading (hreal _), Json.value_reading (htext _),
    Json.value_reading (htext _), by simp⟩

theorem haveValues_written {ms : List (String × Value)}
    (h : ∀ m ∈ ms, m.2.reading.value Json.nestingLimit = .ok m.2.reread) :
    HaveValues (ms.map fun m => (m.1, m.2.reading)) (ms.map fun m => (m.1, m.2.reread)) := by
  induction ms with
  | nil => exact .nil
  | cons m ms ih =>
    obtain ⟨hm, hrest⟩ := List.forall_mem_cons.1 h
    exact .cons ⟨rfl, hm⟩ (ih hrest)

theorem exists_name_written (ms : List (String × Value)) :
    ∀ m ∈ Json.memberReadings ms, ∃ name, m.1.text = .ok name := by
  intro m hm
  rw [Json.memberReadings_eq_map] at hm
  obtain ⟨m', -, rfl⟩ := List.mem_map.1 hm
  exact ⟨m'.1, Json.StringToken.text_ofText _⟩

/-- **An object that spells some options as they are written** is read as what comes back of these options,
and as the standard ones where it gives none. -/
theorem ofReading_spelled {o : Options Float} (hfinite : ∀ x ∈ o.numbers, x.isFinite = true)
    (hsamples : o.splineSamples.1 < 2 ^ 64) (hcolor : o.gridLineColor.OnGrid) (chosen : String → Bool)
    {ms : List (String × Value)} (hchosen : ms.Perm (o.value.members.filter (chosen ·.1)))
    {members : List (StringToken × Reading)} (hskipped : ∀ m ∈ members, m.2.firstFault? = none)
    (hnames : ∀ m ∈ members, ∃ name, m.1.text = .ok name)
    (hspelled : given members = ms.map fun m => (m.1, m.2.reading)) :
    ofReading (.object members .closed) = .ok (standard.taking o.reread chosen) := by
  have hmem : ∀ m ∈ ms, m ∈ o.value.members := fun m hm => List.mem_of_mem_filter (hchosen.mem_iff.1 hm)
  have hvalues := haveValues_written fun m hm => value_of_mem hsamples m (hmem m hm)
  have hback : (ms.map fun m => (m.1, m.2.reread)).Perm (o.reread.value.members.filter (chosen ·.1)) := by
    rw [members_reread hfinite, List.filter_map]
    exact hchosen.map _
  exact ofReading_chosen (o := o.reread) hcolor chosen hback hskipped hnames (hspelled ▸ hvalues)

theorem decode_written {o : Options Float} (hfinite : ∀ x ∈ o.numbers, x.isFinite = true)
    (hsamples : o.splineSamples.1 < 2 ^ 64) (hcolor : o.gridLineColor.OnGrid) :
    decode o.encode = .ok o.reread := by
  have hread : Json.read o.encode = (.object (Json.memberReadings o.value.members) .closed, []) :=
    Json.read_text o.value
  have hall : o.value.members.Perm (o.value.members.filter fun _ => true) := by
    rw [List.filter_true]
  rw [encode, decode, decodeText_text]
  exact ofReading_spelled hfinite hsamples hcolor (fun _ => true) hall (Json.firstFault?_of_read hread)
    (exists_name_written _) (known_memberReadings shape o.value.members)

/-- **Options over the standard ones.** Take options whose numbers are finite, whose number of lines fits
a machine word and whose colour has eight bit channels and an opacity between zero and one, and a text that is
an object with names that can be read, with any other members among its own.

* If its members named like an option have the values of some of these options, in any order, the text is
  decoded as the standard options with these ones in their place.
* If they are spelled as these options are written, it is decoded as the standard options with what comes back
  of these ones in their place. So the text of all of them is decoded as what comes back of them, and as the
  options themselves exactly if the digits of every number are read as this number.
* The digits of a number are read as this number if they are few, and otherwise as a number within one part in
  `2 ^ 50` of it, or both numbers are next to nothing.

And altogether an object is decoded exactly if its names can be read, no option stands in it twice, and each
option that it gives is what the option asks for. -/
theorem decode_given (o : Options Float) (hfinite : ∀ x ∈ o.numbers, x.isFinite = true)
    (hsamples : o.splineSamples.1 < 2 ^ 64) (hcolor : o.gridLineColor.OnGrid) :
    (∀ (chosen : String → Bool) (vs : List (String × Value)) (text : String)
        (members : List (StringToken × Reading)),
      vs.Perm (o.value.members.filter (chosen ·.1)) →
      Json.read text = (.object members .closed, []) →
      (∀ m ∈ members, ∃ name, m.1.text = .ok name) →
      (HaveValues (given members) vs → decode text = .ok (standard.taking o chosen)) ∧
      (given members = vs.map (fun v => (v.1, v.2.reading)) →
        decode text = .ok (standard.taking o.reread chosen))) ∧
    decode o.encode = .ok o.reread ∧
    (decode o.encode = .ok o ↔ ∀ x ∈ o.numbers, Double.reread x = x) ∧
    (∀ x ∈ o.numbers, (Double.HasFewDigits x → Double.reread x = x) ∧
      ∃ v w, Double.value? x = some v ∧ Double.value? (Double.reread x) = some w ∧
        (2 ^ 50 * |w - v| ≤ |v| ∨ |w| ≤ 1 / 2 ^ 900 ∧ |v| ≤ 1 / 2 ^ 900)) ∧
    ∀ (text : String) (members : List (StringToken × Reading)),
      Json.read text = (.object members .closed, []) →
      ((∃ o', decode text = .ok o') ↔ (∀ m ∈ members, ∃ name, m.1.text = .ok name) ∧
        Json.DistinctNames (given members) ∧ ∀ e ∈ given members, Admits e.1 e.2) := by
  have hwritten := decode_written hfinite hsamples hcolor
  refine ⟨fun chosen vs text members hchosen hread hnames => ⟨fun hvalues => ?_, fun hspelled => ?_⟩,
    hwritten, ?_, fun x hx => ⟨Double.HasFewDigits.reread_eq, ?_⟩, fun text members hread => ?_⟩
  · rw [decode, decodeText_of_read hread]
    exact ofReading_chosen hcolor chosen hchosen (Json.firstFault?_of_read hread) hnames hvalues
  · rw [decode, decodeText_of_read hread]
    exact ofReading_spelled hfinite hsamples hcolor chosen hchosen (Json.firstFault?_of_read hread) hnames
      hspelled
  · rw [hwritten, Except.ok.injEq, reread_eq_self_iff]
  · obtain ⟨v, hv⟩ := Double.exists_value? (hfinite x hx)
    obtain ⟨w, hw, hnear⟩ := Double.dist_reread hv
    exact ⟨v, w, hv, hw, hnear⟩
  · rw [decode, decodeText_of_read hread]
    exact exists_ofReading_iff (Json.firstFault?_of_read hread)

/-- Of a larger object two options are taken, and no more. -/
theorem decode_given_in_passing :
    let red : Color := .opaqueOfBytes 255 0 0
    let text := (Value.object [("note", .null), ("gridLineColor", .string red.text),
      ("note", .array [.null]), ("padding", .real (Double.ofInt 8))]).text
    decode text = .ok { standard with padding := Double.ofInt 8, gridLineColor := red } := by
  intro red text
  let o : Options Float := ⟨Double.ofInt 8, Double.ofInt 1, Double.ofInt 144, ⟨7, by decide⟩,
    Double.ofInt 2, red, "other.png"⟩
  have hred : red.OnGrid :=
    ⟨255, 0, 0, channelOfByte 255, by decide, by decide, by decide, by decide, by decide, rfl⟩
  have hfinite : ∀ x ∈ o.numbers, x.isFinite = true := by
    simp only [numbers, o, List.forall_mem_cons]
    exact ⟨Double.isFinite_ofInt (by decide), Double.isFinite_ofInt (by decide),
      Double.isFinite_ofInt (by decide), Double.isFinite_ofInt (by decide), by simp⟩
  have height : Double.reread (Double.ofInt 8) = Double.ofInt 8 :=
    Double.reread_ofInt (by decide) (by decide +kernel)
  obtain ⟨hchosen, -⟩ := decode_given o hfinite (by decide) hred
  obtain ⟨-, hspelled⟩ := hchosen (fun name => name = "padding" || name = "gridLineColor") _ text _
    (List.Perm.swap _ _ _) (Json.read_text _) (exists_name_written _)
  refine (hspelled (known_memberReadings shape _)).trans ?_
  simp only [reread, o, height]
  rfl

/-- A name that is no text keeps an object from being options, though no option is meant. -/
theorem unreadable_name_not_decoded :
    let text := "\x7b\"\\ud800\":1\x7d"
    ∃ members, Json.read text = (.object members .closed, []) ∧ given members = [] ∧
      ∀ o, decode text ≠ .ok o := by
  intro text
  have htokens : Json.tokens text.toList = [.openObject, .string ⟨[.surrogate 0xD800], none⟩, .colon,
      .number ⟨false, ['1'], [], none⟩, .closeObject] := by
    decide +kernel
  have hread : Json.read text = (.object [(⟨[.surrogate 0xD800], none⟩,
      .number ⟨false, ['1'], [], none⟩)] .closed, []) := by
    apply Json.read_of_tokens htokens
    simp only [Json.readValue, Json.readMembers]
    rfl
  refine ⟨_, hread, rfl, fun o ho => ?_⟩
  rw [decode, decodeText_of_read hread] at ho
  obtain ⟨hnames, -⟩ := (exists_ofReading_iff (Json.firstFault?_of_read hread)).1 ⟨o, ho⟩
  obtain ⟨name, hname⟩ := hnames _ List.mem_cons_self
  cases hname

/-- Of a padding just above ninety-four the digits that are written are read as the number below it. -/
theorem padding_not_read_back :
    let o : Options Float := { standard with padding := Double.ofPattern false 4636320870874811558 }
    (∀ x ∈ o.numbers, x.isFinite = true) ∧ o.splineSamples.1 < 2 ^ 64 ∧ o.gridLineColor.OnGrid ∧
      Json.Number.realChars o.padding = "94.08230906077605".toList ∧
      Json.Number.realChars (Double.reread o.padding) = "94.08230906077604".toList ∧
      decode o.encode ≠ .ok o := by
  intro o
  have hparts : Double.parts o.padding = .finite false 4636320870874811558 :=
    Double.parts_ofPattern false (by decide)
  have hcolor : o.gridLineColor.OnGrid :=
    ⟨120, 120, 120, channelOfByte 255, by decide, by decide, by decide, by decide, by decide, rfl⟩
  have hfinite : ∀ x ∈ o.numbers, x.isFinite = true := by
    simp only [numbers, o, standard, List.forall_mem_cons]
    exact ⟨(Double.isFinite_iff _).2 ⟨_, _, hparts⟩, by decide +kernel, Double.isFinite_ofInt (by decide),
      Double.isFinite_ofInt (by decide), by simp⟩
  obtain ⟨pattern, hpattern, hback, -⟩ := Double.exists_reread hparts
  have hbelow : (Json.dataToken false
      (BinaryFormat.double.shortest .toEven 4636320870874811558)).pattern? = some 4636320870874811557 := by
    decide +kernel
  obtain rfl : pattern = 4636320870874811557 := Option.some.inj (hpattern.symm.trans hbelow)
  refine ⟨hfinite, by decide, hcolor, ?_, ?_, fun hdecode => ?_⟩
  · rw [Json.Number.realChars, hparts]
    decide +kernel
  · rw [Json.Number.realChars, hback]
    decide +kernel
  · rw [decode_written hfinite (by decide) hcolor, Except.ok.injEq, reread_eq_self_iff] at hdecode
    have hsame := hdecode o.padding (by simp [numbers])
    rw [hsame, hparts] at hback
    cases hback

/-- Two options that are not taken as they were given: an object has to have names that can be read even
where no option is meant, and the padding of others is read as another number. -/
theorem given_not_taken :
    (∃ members, Json.read "\x7b\"\\ud800\":1\x7d" = (.object members .closed, []) ∧
      given members = [] ∧ ∀ o, decode "\x7b\"\\ud800\":1\x7d" ≠ .ok o) ∧
    ∃ o : Options Float, (∀ x ∈ o.numbers, x.isFinite = true) ∧ o.splineSamples.1 < 2 ^ 64 ∧
      o.gridLineColor.OnGrid ∧ Json.Number.realChars o.padding = "94.08230906077605".toList ∧
      decode o.encode ≠ .ok o := by
  obtain ⟨hfinite, hsamples, hcolor, hwritten, -, hlost⟩ := padding_not_read_back
  exact ⟨unreadable_name_not_decoded, _, hfinite, hsamples, hcolor, hwritten, hlost⟩

end Options

end FieldDiagram
