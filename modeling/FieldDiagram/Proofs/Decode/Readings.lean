import FieldDiagram.Proofs.Color.RoundTrip
import FieldDiagram.Proofs.Decode.Record
/-!
# Decoders of readings

What the decoders of the shapes make of what they meet in a text. A number, a text or a colour is taken
by what is found in its place, and of an object a record takes the members that have a field
(`ofReading_object_eq_ok_iff`). What was written is read back shape by shape: numbers, texts, lists,
variants and records, so that what becomes of a document is put together from what becomes of its parts.
-/

namespace FieldDiagram

open Json (Reading Value)

variable {β : Type}

theorem ofText_eq_ok_iff {d : Except Json.Fault β} {x : β} : ofText d = .ok x ↔ d = .ok x := by
  cases d with
  | error f => exact iff_of_false nofun nofun
  | ok y => exact ⟨fun h => congrArg Except.ok (Except.ok.inj h),
      fun h => congrArg Except.ok (Except.ok.inj h)⟩

/-! ## What stands at a place

Shapes are told apart by what is found at a place. Each decoder takes one or two of them and refuses the
others, so a decoder that succeeds tells what was found. -/

namespace Json.Reading

/-- What has a value is found as that value. -/
theorem found_of_value {r : Reading} {depth : Nat} {v : Value} (h : r.value depth = .ok v) :
    r.found = .ok v.found := by
  -- only arrays and objects go deeper, and nothing of what they hold is found at their place
  cases r with
  | defect d => cases h
  | null =>
    cases h
    rfl
  | boolean b =>
    cases h
    rfl
  | number t =>
    rw [Reading.value] at h
    rw [found]
    cases hn : Number.ofToken? t with
    | none =>
      rw [hn] at h
      cases h
    | some n =>
      rw [hn] at h
      cases h
      rfl
  | string s =>
    rw [Reading.value] at h
    obtain ⟨text, htext, rfl⟩ := exists_of_map h
    rw [found, htext]
    rfl
  | array items ending =>
    cases depth with
    | zero => cases h
    | succ depth =>
      rw [Reading.value] at h
      obtain ⟨vs, -, h⟩ := exists_of_bind h
      cases ending <;> cases h
      rfl
  | object members ending =>
    cases depth with
    | zero => cases h
    | succ depth =>
      rw [Reading.value] at h
      obtain ⟨vs, -, h⟩ := exists_of_bind h
      cases ending <;> cases h
      rfl

theorem real_eq_ok_iff {r : Reading} {x : Float} :
    r.real = .ok x ↔ r.found = .ok (.real x) ∨ ∃ n, r.found = .ok (.integer n) ∧ Double.ofInt n = x := by
  rw [real]
  cases r.found with
  | error e => exact ⟨nofun, by rintro (h | ⟨n, h, -⟩) <;> cases h⟩
  | ok found =>
    cases found <;> simp [bind, Except.bind, Found.toReal, refuse]

theorem text_eq_ok_iff {r : Reading} {s : String} : r.text = .ok s ↔ r.found = .ok (.string s) := by
  rw [text]
  cases r.found with
  | error e => exact iff_of_false nofun nofun
  | ok found => cases found <;> simp [bind, Except.bind, Found.toText, refuse]

theorem color_eq_ok_iff {r : Reading} {c : Color} :
    r.color = .ok c ↔ ∃ s, r.found = .ok (.string s) ∧ Color.parse s = .ok c := by
  rw [color]
  cases r.found with
  | error e => exact ⟨nofun, by rintro ⟨s, h, -⟩; cases h⟩
  | ok found =>
    cases found with
    | string s =>
      cases hc : Color.parse s <;>
        simp [bind, Except.bind, pure, Except.pure, Found.toColor, Found.toText, refuse, hc]
    | _ => simp [bind, Except.bind, Found.toColor, Found.toText, refuse]

theorem positive_eq_ok_iff {r : Reading} {n : { n : Nat // 0 < n }} :
    r.positive = .ok n ↔ r.found = .ok (.integer n.1) := by
  obtain ⟨n, hn⟩ := n
  rw [positive]
  cases r.found with
  | error e => exact iff_of_false nofun nofun
  | ok found =>
    cases found with
    | integer k =>
      rcases k with (_ | k) | k
      · simp [bind, Except.bind, Found.toPositive, refuse]
        omega
      · simp [bind, Except.bind, Found.toPositive]
        omega
      · simp [bind, Except.bind, Found.toPositive, refuse]
    | _ => simp [bind, Except.bind, Found.toPositive, refuse]

/-! ## Written values

The inverse of writing, shape by shape. Real numbers are the one shape that is not read back exactly. -/

/-- A finite number has a value, the number that its digits are read as. -/
theorem value_real {x : Float} (h : x.isFinite = true) (depth : Nat) :
    (Value.real x).reading.value depth = .ok (.real (Double.reread x)) := by
  have hfits : (Value.real x).FitsIn depth := trivial
  have hvalue := value_reading hfits
  rwa [Value.reread_real h] at hvalue

theorem real_written {x : Float} (h : x.isFinite = true) :
    (Value.real x).reading.real = .ok (Double.reread x) :=
  real_eq_ok_iff.2 (Or.inl (found_of_value (value_real h 0)))

theorem found_string (s : String) : (Value.string s).reading.found = .ok (.string s) := by
  rw [Value.reading, found, StringToken.text_ofText]
  rfl

theorem text_written (s : String) : (Value.string s).reading.text = .ok s :=
  text_eq_ok_iff.2 (found_string s)

/-- Of a written colour the reader gets what is left of it. -/
theorem color_written (c : Color) : (Value.string c.text).reading.color = .ok c.reread :=
  color_eq_ok_iff.2 ⟨_, found_string _, c.parse_written⟩

/-- A written list is read item by item. -/
theorem list_written {γ : Type} {decode : Reading → Decoded β} {value : γ → Value} {f : γ → β}
    {xs : List γ} (h : ∀ x ∈ xs, decode (value x).reading = .ok (f x)) :
    (Value.array (xs.map value)).reading.list decode = .ok (xs.map f) := by
  have hitems : (xs.map fun x => (value x).reading).mapM decode = .ok (xs.map f) := by
    rw [List.mapM_map]
    exact mapM_ok h
  rw [Value.reading, itemReadings_eq_map, List.map_map, list]
  change (do
    let ys ← (xs.map fun x => (value x).reading).mapM decode
    unlessBroken none
    return ys) = _
  rw [hitems]
  rfl

/-- A written list of as many numbers as are wanted. -/
theorem reals_written {xs : List Float} (h : ∀ x ∈ xs, x.isFinite = true) (expected : String) :
    (Value.array (xs.map Value.real)).reading.reals xs.length expected =
      .ok (xs.map Double.reread) := by
  have hitems : (xs.map fun x => (Value.real x).reading).mapM real = .ok (xs.map Double.reread) := by
    rw [List.mapM_map]
    exact mapM_ok fun x hx => real_written (h x hx)
  have hlength : (xs.map fun x => (Value.real x).reading).length = xs.length := List.length_map _
  rw [Value.reading, itemReadings_eq_map, List.map_map, reals]
  simp only [Function.comp_def, hlength, lt_irrefl, if_false, List.take_of_length_le hlength.le, hitems]
  rfl

/-- A written name of a variant. -/
theorem variant_name {known : List String} {name : String} (h : known.contains name = true)
    (decode : String → VariantContents → Decoded β) :
    (Value.string name).reading.variant known decode = decode name none := by
  rw [Value.reading, variant, StringToken.text_ofText]
  change (do knownVariant known name; decode name none) = _
  rw [knownVariant, if_pos h]
  rfl

/-- A written variant with contents. -/
theorem variant_written {known : List String} {name : String} (h : known.contains name = true)
    (decode : String → VariantContents → Decoded β) (contents : Value) :
    (Value.object [(name, contents)]).reading.variant known decode =
      decode name (some contents.reading) := by
  rw [Value.reading, memberReadings, memberReadings, variant, StringToken.text_ofText]
  simp only [ofText, bind, Except.bind, knownVariant, h, if_true, List.isEmpty_nil, Bool.not_true,
    Bool.false_eq_true, if_false]
  cases decode name (some contents.reading) <;> rfl

end Json.Reading

/-! ## Records

An object is a record if its members pass, one after the other. Names in a text may be broken, so a name has
to be read before it can be compared. -/

namespace Json

theorem memberReadings_eq_map (ms : List (String × Value)) :
    memberReadings ms = ms.map fun m => (.ofText m.1, m.2.reading) := by
  induction ms with
  | nil => rfl
  | cons m ms ih => rw [memberReadings, ih, List.map_cons]

end Json

section Field

variable {ν : Type} {decode : ν → Decoded β} {v : ν}

/-- A field that is decoded has passed its check. -/
theorem Field.check_eq_ok_iff (name : String) :
    (Field.of name decode).check v = .ok () ↔ ∃ x, decode v = .ok x := by
  change (decode v).map (fun _ => ()) = .ok () ↔ _
  cases decode v with
  | error e => exact iff_of_false nofun (by rintro ⟨x, h⟩; cases h)
  | ok x => exact iff_of_true rfl ⟨x, rfl⟩

theorem Field.check_of {x : β} (h : decode v = .ok x) (name : String) :
    (Field.of name decode).check v = .ok () :=
  (check_eq_ok_iff name).2 ⟨x, h⟩

end Field

/-- **What a record takes of an object** that is closed. -/
theorem RecordShape.ofReading_object_eq_ok_iff {shape : RecordShape Reading}
    {members : List (Json.StringToken × Reading)} {fs : Fields Reading} :
    shape.ofReading (.object members .closed) = .ok fs ↔
      (∀ m ∈ members, shape.Passes (fun k : Json.StringToken => ofText k.text)
        (fun v => unlessBroken v.firstFault?) m) ∧
      Json.DistinctNames (shape.known (fun k : Json.StringToken => ofText k.text) members) ∧
      fs = byName (shape.known (fun k : Json.StringToken => ofText k.text) members) := by
  have hclosed : shape.ofReading (.object members .closed) =
      (shape.collect (fun k : Json.StringToken => ofText k.text)
        (fun v => unlessBroken v.firstFault?) [] members).map byName := by
    rw [ofReading]
    cases shape.collect (fun k : Json.StringToken => ofText k.text)
      (fun v => unlessBroken v.firstFault?) [] members <;> rfl
  rw [hclosed]
  constructor
  · intro h
    obtain ⟨entries, hentries, rfl⟩ := exists_of_map h
    obtain ⟨hpasses, hdistinct, rfl⟩ := (collect_eq_ok_iff Json.distinctNames_nil).1 hentries
    exact ⟨hpasses, hdistinct, rfl⟩
  · rintro ⟨hpasses, hdistinct, rfl⟩
    rw [(collect_eq_ok_iff Json.distinctNames_nil).2 ⟨hpasses, hdistinct, rfl⟩]
    rfl

theorem ofText_text_ofText (k : String) : ofText (Json.StringToken.ofText k).text = .ok k :=
  ofText_eq_ok_iff.2 (Json.StringToken.text_ofText k)

/-- The known ones of written members are those with a field. -/
theorem known_memberReadings (shape : RecordShape Reading) (ms : List (String × Value)) :
    shape.known (fun k : Json.StringToken => ofText k.text) (Json.memberReadings ms) =
      (ms.filter (shape.knows ·.1)).map fun m => (m.1, m.2.reading) := by
  induction ms with
  | nil => rfl
  | cons m ms ih =>
    rw [Json.memberReadings, known_cons (ofText_text_ofText _), ih, List.filter_cons]
    split <;> rfl

/-- A written record of distinct known members, each of which will do for its field, is taken as it
stands. -/
theorem RecordShape.ofReading_written {shape : RecordShape Reading} {ms : List (String × Value)}
    (hdistinct : Json.DistinctNames ms)
    (hcheck : ∀ m ∈ ms, ∃ field, shape.fields.find? (·.name = m.1) = some field ∧
      field.check m.2.reading = .ok ()) :
    shape.ofReading (Value.object ms).reading =
      .ok (byName (ms.map fun m => (m.1, m.2.reading))) := by
  have hknows : ∀ m ∈ ms, shape.knows m.1 = true := by
    intro m hm
    obtain ⟨field, hfield, -⟩ := hcheck m hm
    rw [knows_of_find? hfield, Option.isSome_some]
  -- every member is known, so none is left out
  rw [Value.reading, ofReading_object_eq_ok_iff, known_memberReadings, List.filter_eq_self.2 hknows]
  refine ⟨?_, ?_, rfl⟩
  · intro m' hm'
    rw [Json.memberReadings_eq_map] at hm'
    obtain ⟨m, hm, rfl⟩ := List.mem_map.1 hm'
    obtain ⟨field, hfield, hok⟩ := hcheck m hm
    refine ⟨m.1, ofText_text_ofText _, ?_⟩
    rw [hfield]
    exact hok
  · rw [Json.DistinctNames, List.map_map]
    exact hdistinct

end FieldDiagram
