import FieldDiagram.Decode.Shape
import FieldDiagram.Proofs.Ensures
import FieldDiagram.Proofs.Json.Members
/-!
# Records of one field

A record of one field can be wrong in many ways, but what its field is decoded as has a part in only one
of them. So once some decoder of the field has been given it, every other would have been given the same:
`exists_of_decodeText`. And two records that differ in nothing but the field are decoded alike if the
field is: `readSingle_object_congr`.
-/

namespace FieldDiagram

open Json (Reading)

namespace RecordShape

/-- A record with one field. -/
def single {ν β : Type} (title name : String) (d : ν → Decoded β) : RecordShape ν :=
  ⟨title, [.of name d]⟩

section Single

variable {κ ν β : Type} {title name : String} {d : ν → Decoded β} {key : κ → Decoded String}
  {skip : ν → Decoded Unit} {ms : List (κ × ν)} {entries : List (String × ν)}

/-- A member with the name of the field is taken, unless the field has been met; any other is skipped. -/
theorem collect_single_cons (seen : List (String × ν)) (m : κ × ν) :
    (single title name d).collect key skip seen (m :: ms) = (do
      let k ← key m.1
      if name = k then
        if (seen.lookup k).isSome then refuse (.duplicateField k)
        else do
          let _ ← d m.2
          (single title name d).collect key skip (seen ++ [(k, m.2)]) ms
      else do
        skip m.2
        (single title name d).collect key skip seen ms) := by
  rw [collect]
  cases key m.1 with
  | error e => rfl
  | ok k =>
    have hfield : (single title name d).fields.find? (·.name = k) =
        if name = k then some (.of name d) else none := by
      rw [single, List.find?_cons]
      by_cases h : name = k <;> simp [Field.of, h]
    simp only [bind, Except.bind, hfield]
    by_cases h : name = k
    · simp only [if_pos h, Field.of]
      cases d m.2 <;> rfl
    · simp only [if_neg h]

/-- Once the field has been met nothing more is taken. -/
theorem collect_single_met {v : ν}
    (h : (single title name d).collect key skip [(name, v)] ms = .ok entries) :
    entries = [(name, v)] ∧ ∀ {γ : Type} (d' : ν → Decoded γ),
      (single title name d').collect key skip [(name, v)] ms = .ok [(name, v)] := by
  induction ms with
  | nil => exact ⟨(Except.ok.inj h).symm, fun _ => rfl⟩
  | cons m ms ih =>
    rw [collect_single_cons] at h
    obtain ⟨k, hkey, h⟩ := exists_of_bind h
    by_cases hname : name = k
    · -- the field may not stand twice
      have hseen : ([(name, v)].lookup k).isSome = true := by simp [hname]
      rw [if_pos hname, if_pos hseen] at h
      cases h
    · rw [if_neg hname] at h
      obtain ⟨u, hskip, h⟩ := exists_of_bind h
      simp only [collect_single_cons, hkey, bind, Except.bind, if_neg hname, hskip]
      exact ih h

/-- The field is met at most once, and nothing else is taken. -/
theorem collect_single (h : (single title name d).collect key skip [] ms = .ok entries) :
    entries = [] ∨ ∃ v, entries = [(name, v)] ∧ ∀ {γ : Type} (d' : ν → Decoded γ),
      (single title name d').collect key skip [] ms = (d' v).map fun _ => [(name, v)] := by
  induction ms with
  | nil => exact Or.inl (Except.ok.inj h).symm
  | cons m ms ih =>
    rw [collect_single_cons] at h
    obtain ⟨k, hkey, h⟩ := exists_of_bind h
    by_cases hname : name = k
    · subst hname
      rw [if_pos rfl, if_neg (by simp)] at h
      obtain ⟨x, -, h⟩ := exists_of_bind h
      obtain ⟨hentries, hrest⟩ := collect_single_met h
      refine Or.inr ⟨m.2, hentries, fun d' => ?_⟩
      simp only [collect_single_cons, hkey, bind, Except.bind, if_true, List.lookup_nil,
        Option.isSome_none, Bool.false_eq_true, if_false, List.nil_append, hrest d']
      cases d' m.2 <;> rfl
    · rw [if_neg hname] at h
      obtain ⟨u, hskip, h⟩ := exists_of_bind h
      simp only [collect_single_cons, hkey, bind, Except.bind, if_neg hname, hskip]
      exact ih h

/-- What is collected of the field alone. -/
theorem collect_single_only {k : κ} (h : key k = .ok name) (v : ν) :
    (single title name d).collect key skip [] [(k, v)] = (d v).map fun _ => [(name, v)] := by
  rw [collect_single_cons, h]
  simp only [bind, Except.bind, if_true, List.lookup_nil, Option.isSome_none, Bool.false_eq_true,
    if_false, List.nil_append]
  cases d v <;> rfl

theorem get_single {fs : Fields ν} {v : ν} (h : fs.entries = [(name, v)]) : fs.get name d = d v := by
  rw [Fields.get, h, List.lookup_cons_self]

/-- The record of one field, and what stands in the field. -/
def readSingle (title name : String) (d : Reading → Decoded β) (r : Reading) : Decoded β := do
  (← (single title name d).ofReading r).get name d

variable {r : Reading} {x : β} {d : Reading → Decoded β}

theorem readSingle_array (title name : String) (d : Reading → Decoded β) (v : Reading)
    (ending : Option Json.Fault) :
    readSingle title name d (.array [v] ending) = (do let _ ← d v; unlessBroken ending; d v) := by
  have hread : (single title name d).ofReading (.array [v] ending) =
      (do let _ ← d v; unlessBroken ending; return (single title name d).byPosition [(name, v)]) := by
    rw [ofReading, align, single, List.zip_cons_cons, List.zip_nil_right]
    simp only [List.mapM_cons, List.mapM_nil, Field.of]
    cases d v <;> rfl
  rw [readSingle, hread]
  cases hd : d v with
  | error e => rfl
  | ok x =>
    cases ending with
    | some f => rfl
    | none => exact (get_single rfl).trans hd

theorem readSingle_object {members : List (Json.StringToken × Reading)} (ending : Json.Ending) {v : Reading}
    (h : (single title name d).collect (fun name => ofText name.text)
      (fun v => unlessBroken v.firstFault?) [] members = (d v).map fun _ => [(name, v)]) :
    readSingle title name d (.object members ending) =
      (do let _ ← d v; unlessBroken ending.fault?; d v) := by
  rw [readSingle, ofReading, h]
  cases hd : d v with
  | error e => rfl
  | ok x =>
    cases hending : ending.fault? with
    | some f => rfl
    | none => exact (get_single rfl).trans hd

/-- What is checked before it is taken can be taken by every other decoder too, once one has taken it. -/
theorem taken_of_checked {v : Reading} {fault : Option Json.Fault}
    (h : (do let _ ← d v; unlessBroken fault; d v) = .ok x) :
    d v = .ok x ∧ ∀ {γ : Type} (d' : Reading → Decoded γ),
      (do let _ ← d' v; unlessBroken fault; d' v) = d' v := by
  obtain ⟨-, -, h⟩ := exists_of_bind h
  cases fault with
  | some f => cases h
  | none =>
    refine ⟨h, fun d' => ?_⟩
    cases d' v <;> rfl

/-- A record of one field that is taken has the field in one place, and any other decoder of the field is
given what stands there. -/
theorem exists_of_readSingle (h : readSingle title name d r = .ok x) :
    ∃ v, d v = .ok x ∧ ∀ {γ : Type} (d' : Reading → Decoded γ), readSingle title name d' r = d' v := by
  obtain ⟨fs, hfs, hget⟩ := exists_of_bind h
  cases r with
  | array items ending =>
    -- only an array of exactly one item is taken
    rcases items with _ | ⟨v, _ | ⟨w, items⟩⟩
    · cases ending <;> cases h
    · rw [readSingle_array] at h
      obtain ⟨hv, hsame⟩ := taken_of_checked h
      exact ⟨v, hv, fun d' => (readSingle_array title name d' v ending).trans (hsame d')⟩
    · obtain ⟨entries, -, hlonger⟩ := exists_of_bind hfs
      cases hlonger
  | object members ending =>
    obtain ⟨entries, hcollect, hfs⟩ := exists_of_bind hfs
    obtain ⟨-, -, hfs⟩ := exists_of_bind hfs
    rcases collect_single hcollect with rfl | ⟨v, rfl, hall⟩
    · cases hfs
      cases hget
    · rw [readSingle_object ending (hall d)] at h
      obtain ⟨hv, hsame⟩ := taken_of_checked h
      exact ⟨v, hv, fun d' => (readSingle_object ending (hall d')).trans (hsame d')⟩
  | _ =>
    rw [ofReading] at hfs
    · obtain ⟨found, -, hwrong⟩ := exists_of_bind hfs
      cases hwrong
    all_goals exact fun _ _ => Reading.noConfusion

/-- **Texts of records of one field.** A text that is decoded as such a record has the field in one
place, and any other decoder of the field is given what stands there. -/
theorem exists_of_decodeText {text : String} (h : decodeText (readSingle title name d) text = .ok x) :
    ∃ v, d v = .ok x ∧ ∀ {γ : Type} (d' : Reading → Decoded γ),
      decodeText (readSingle title name d') text = d' v := by
  rw [decodeText] at h
  simp only [decodeText]
  generalize Json.read text = read at h ⊢
  obtain ⟨r, rest⟩ := read
  obtain ⟨y, hread, h⟩ := exists_of_bind h
  cases hrest : rest.isEmpty with
  | false => rw [hrest] at h; cases h
  | true =>
    rw [hrest] at h
    obtain ⟨v, hv, hsame⟩ := exists_of_readSingle hread
    refine ⟨v, hv.trans h, fun d' => ?_⟩
    rw [hsame]
    cases d' v <;> rfl

/-! ### Readings that differ in the field alone -/

/-- Entries with what is made of them. -/
def decodedEntries (d : ν → Decoded β) (entries : List (String × ν)) : List (String × Decoded β) :=
  entries.map fun e => (e.1, d e.2)

/-- Members that differ only in the field, and there in nothing that the decoder of the field minds. -/
def AgreeFor (key : κ → Decoded String) (name : String) (d : ν → Decoded β) (m m' : κ × ν) : Prop :=
  m.1 = m'.1 ∧ (m.2 = m'.2 ∨ key m.1 = .ok name ∧ d m.2 = d m'.2)

theorem collect_single_congr {d : ν → Decoded β} {seen seen' : List (String × ν)}
    {ms ms' : List (κ × ν)} (hms : List.Forall₂ (AgreeFor key name d) ms ms')
    (hseen : decodedEntries d seen = decodedEntries d seen') :
    ((single title name d).collect key skip seen ms).map (decodedEntries d) =
      ((single title name d).collect key skip seen' ms').map (decodedEntries d) := by
  induction hms generalizing seen seen' with
  | nil => exact congrArg Except.ok hseen
  | @cons m m' ms ms' hm _ ih =>
    obtain ⟨hkey, hvalue⟩ := hm
    rw [collect_single_cons, collect_single_cons, ← hkey]
    cases hk : key m.1 with
    | error e => rfl
    | ok k =>
      simp only [bind, Except.bind]
      by_cases hname : name = k
      · have hsame : d m.2 = d m'.2 := by
          rcases hvalue with heq | ⟨-, hd⟩
          · rw [heq]
          · exact hd
        have hmet : (seen.lookup k).isSome = (seen'.lookup k).isSome := by
          have hlookup := congrArg (fun entries => (entries.lookup k).isSome) hseen
          simpa only [decodedEntries, Json.lookup_map_snd, Option.isSome_map] using hlookup
        rw [if_pos hname, if_pos hname, hmet, hsame]
        split
        · rfl
        · cases hd : d m'.2 with
          | error e => rfl
          | ok x =>
            apply ih
            rw [decodedEntries, decodedEntries, List.map_append, List.map_append]
            exact congrArg₂ _ hseen (by rw [List.map_singleton, List.map_singleton, hsame])
      · -- another member is skipped, and it is the same
        have hsame : m.2 = m'.2 := by
          refine hvalue.resolve_right ?_
          rintro ⟨hfield, -⟩
          rw [hk] at hfield
          exact hname (Except.ok.inj hfield).symm
        rw [if_neg hname, if_neg hname, hsame]
        cases skip m'.2 with
        | error e => rfl
        | ok u => exact ih hseen

/-- What is read of an object with one field, told by what the decoder makes of the field. -/
theorem readSingle_object_eq (members : List (Json.StringToken × Reading)) (ending : Json.Ending) :
    readSingle title name d (.object members ending) = (do
      let entries ← ((single title name d).collect (fun name => ofText name.text)
        (fun v => unlessBroken v.firstFault?) [] members).map (decodedEntries d)
      unlessBroken ending.fault?
      (entries.lookup name).getD (refuse (.missingField name))) := by
  rw [readSingle, ofReading]
  cases (single title name d).collect (fun name => ofText name.text)
    (fun v => unlessBroken v.firstFault?) [] members with
  | error e => rfl
  | ok entries =>
    cases ending.fault? with
    | some f => rfl
    | none =>
      change (byName entries).get name d =
        ((decodedEntries d entries).lookup name).getD (refuse (.missingField name))
      rw [decodedEntries, Json.lookup_map_snd, Fields.get, byName]
      cases entries.lookup name <;> rfl

theorem readSingle_object_congr {members members' : List (Json.StringToken × Reading)}
    (h : List.Forall₂ (AgreeFor (fun name => ofText name.text) name d) members members')
    (ending : Json.Ending) :
    readSingle title name d (.object members ending) =
      readSingle title name d (.object members' ending) := by
  rw [readSingle_object_eq, readSingle_object_eq, collect_single_congr h rfl]

theorem readSingle_array_congr {v v' : Reading} (h : d v = d v') (more : List Reading)
    (ending : Option Json.Fault) :
    readSingle title name d (.array (v :: more) ending) =
      readSingle title name d (.array (v' :: more) ending) := by
  cases more with
  | nil => rw [readSingle_array, readSingle_array, h]
  | cons w more =>
    -- an array that is too long is refused once its first item has been decoded
    have hlong : ∀ u, readSingle title name d (.array (u :: w :: more) ending) =
        (do let _ ← d u; broken .malformed) := by
      intro u
      rw [readSingle, ofReading, align, single, List.zip_cons_cons, List.zip_nil_left]
      simp only [List.mapM_cons, List.mapM_nil, Field.of]
      cases d u <;> rfl
    rw [hlong, hlong, h]

end Single

end RecordShape
end FieldDiagram
