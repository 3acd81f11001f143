import FieldDiagram.Overlay.Codec
import FieldDiagram.Proofs.Decode.Verdict
/-!
# What operations ask of their fields

Each kind of operation has a list of rules, one for each field: the shape of its value, and whether the
field may be absent. An operation is decoded exactly if its members meet the rules of its kind, whatever
else stands beside them. Main statement: `takes_ofMembers`.
-/

namespace FieldDiagram

open Json (Value)

/-! ## Shapes

There are as many shapes as there are kinds of values that a field may ask for, and one lemma says of all of
them what is taken. -/

/-- The shapes of values that operations ask for. -/
inductive FieldSort where
  | real
  | text
  | optionalText
  | flag
  | count
  | reals
  deriving DecidableEq, Repr

/-- Whether a value is a number. -/
def Json.Value.isNumber : Value → Bool
  | .number _ => true
  | _ => false

namespace FieldSort

/-- Whether a value has a shape. A number of grid lines may be sent as any number that is whole. -/
def admits : FieldSort → Value → Bool
  | real, .number _ => true
  | text, .string _ => true
  | optionalText, .string _ => true
  | optionalText, .null => true
  | flag, .boolean _ => true
  | count, .number n => (Double.whole? n.toFloat).isSome
  | reals, .array items => items.all Value.isNumber
  | _, _ => false

/-- What a field makes of a value that has its shape. -/
abbrev Contents : FieldSort → Type
  | real => Float
  | text => String
  | optionalText => Option String
  | flag => Bool
  | count => LineCount
  | reals => List Float

/-- Decodes a value that must have a shape. -/
def decode : (sort : FieldSort) → Value → Decoded sort.Contents
  | real => Value.toReal
  | text => Value.toText
  | optionalText => Value.toOptionalText
  | flag => Value.toFlag
  | count => Value.toCount
  | reals => Value.reals

/-- What has the right shape is taken and everything else is refused. -/
theorem takes_iff_true {β : Type} {d : Decoded β} {admitted : Bool}
    (h : match admitted with
      | true => ∃ x, d = .ok x
      | false => ∃ m, d = refuse m) :
    Takes d (admitted = true) fun _ => True := by
  cases admitted with
  | true =>
    obtain ⟨x, rfl⟩ := h
    exact (takes_ok trivial).of_iff (iff_of_true trivial rfl)
  | false =>
    obtain ⟨m, rfl⟩ := h
    exact (takes_refuse m _).of_iff (iff_of_false id Bool.false_ne_true)

theorem takes_number (v : Value) : Takes v.found.toReal (v.isNumber = true) fun _ => True := by
  rcases v with _ | b | ⟨n | x⟩ | s | items | ms <;> exact takes_iff_true ⟨_, rfl⟩

theorem takes_whole (x : Float) :
    Takes (match Double.whole? x with
      | some n => return LineCount.saturating n
      | none => refuse (.fractionalCount x)) ((Double.whole? x).isSome = true) fun _ => True := by
  cases Double.whole? x <;> exact takes_iff_true ⟨_, rfl⟩

/-- Exactly the values of a shape are taken. -/
theorem takes_decode (sort : FieldSort) (v : Value) :
    Takes (sort.decode v) (sort.admits v = true) fun _ => True := by
  cases sort with
  | count =>
    rcases v with _ | b | ⟨n | x⟩ | s | items | ms
    case number.integer => exact takes_whole _
    case number.real => exact takes_whole _
    all_goals exact takes_iff_true ⟨_, rfl⟩
  | reals =>
    cases v with
    | array items =>
      exact (takes_mapM takes_number items).of_iff List.all_eq_true.symm
    | _ => exact takes_iff_true ⟨_, rfl⟩
  | _ => rcases v with _ | b | ⟨n | x⟩ | s | items | ms <;> exact takes_iff_true ⟨_, rfl⟩

end FieldSort

/-! ## Rules

Forms are programs and rules are data. That each form asks for what its rules say is proved kind by kind,
along the order in which the form looks at its fields; after that only the rules are used. -/

/-- What an operation asks of one of its fields. -/
structure FieldRule where
  name : String
  sort : FieldSort
  required : Bool
  deriving DecidableEq, Repr

namespace FieldRule

/-- A field of this shape that has to be present. -/
def needs (sort : FieldSort) (name : String) : FieldRule := ⟨name, sort, true⟩

/-- A field of this shape that may be absent. -/
def allows (sort : FieldSort) (name : String) : FieldRule := ⟨name, sort, false⟩

@[simp] theorem name_needs (sort : FieldSort) (name : String) : (needs sort name).name = name := rfl

@[simp] theorem name_allows (sort : FieldSort) (name : String) : (allows sort name).name = name := rfl

/-- Whether what stands in a field, if anything does, meets the rule. -/
def Met (rule : FieldRule) (v? : Option Value) : Prop :=
  match v? with
  | some v => rule.sort.admits v = true
  | none => rule.required = false

instance (rule : FieldRule) : DecidablePred rule.Met
  | some _ => inferInstanceAs (Decidable (_ = true))
  | none => inferInstanceAs (Decidable (_ = false))

/-- The field as forms of operations have it. -/
def field (rule : FieldRule) : Field Value := .of rule.name rule.sort.decode

end FieldRule

namespace Op

/-- The rules of each kind that is known. -/
def fieldRules : List (String × List FieldRule) := [
  ("image", .needs .text "src" :: ["x", "y", "width", "height"].map (.needs .real) ++
    [.allows .flag "opaque"]),
  ("grid", [.needs .count "numHorizontal", .needs .count "numVertical"]),
  ("scale", [.needs .real "scaleX", .needs .real "scaleY"]),
  ("rotation", [.needs .real "rotation"]),
  ("origin", [.needs .real "x", .needs .real "y"]),
  ("alpha", [.needs .real "alpha"]),
  ("fill", [.needs .text "color"]),
  ("stroke", [.needs .text "color"]),
  ("strokeWidth", [.needs .real "width"]),
  ("text", [.needs .text "text", .needs .real "x", .needs .real "y", .allows .optionalText "font",
    .allows .real "theta", .allows .flag "stroke"]),
  ("circle", ["x", "y", "radius"].map (.needs .real) ++ [.allows .flag "stroke"]),
  ("polygon", [.needs .reals "xPoints", .needs .reals "yPoints", .allows .flag "stroke"]),
  ("polyline", [.needs .reals "xPoints", .needs .reals "yPoints"]),
  ("spline", ["ax", "bx", "cx", "dx", "ex", "fx", "ay", "by", "cy", "dy", "ey", "fy"].map
    (.needs .real))]

/-- The rules of a kind. -/
def rulesOf (kind : String) : List FieldRule := (fieldRules.lookup kind).getD []

/-- What the form of a kind asks for, told by rules. -/
structure Asks (kind : String) (form : OpForm) (rules : List FieldRule) : Prop where
  fields : form.shape.fields = rules.map FieldRule.field
  build : ∀ fs : Fields Value, Takes (form.build fs)
    (∀ rule ∈ rules, rule.Met (fs.entries.lookup rule.name)) fun op =>
      op.kind = kind ∧ op.isUnknown = false

section Fields

variable (fs : Fields Value)

theorem takes_needed (sort : FieldSort) (name : String) :
    Takes (fs.get name sort.decode) ((FieldRule.needs sort name).Met (fs.entries.lookup name))
      fun _ => True := by
  rw [Fields.get]
  cases fs.entries.lookup name with
  | some v => exact sort.takes_decode v
  | none => exact (takes_refuse _ _).of_iff (iff_of_false id (Bool.noConfusion ·))

theorem takes_allowed (sort : FieldSort) (name : String) (default : sort.Contents) :
    Takes (fs.getD name sort.decode default)
      ((FieldRule.allows sort name).Met (fs.entries.lookup name)) fun _ => True := by
  rw [Fields.getD]
  cases fs.entries.lookup name with
  | some v => exact sort.takes_decode v
  | none => exact (takes_ok trivial).of_iff (iff_of_true trivial rfl)

theorem takes_point :
    Takes (point fs) (∀ rule ∈ [.needs .real "x", .needs .real "y"],
      FieldRule.Met rule (fs.entries.lookup rule.name)) fun _ => True := by
  refine Takes.of_iff ((takes_needed fs .real "x").bind fun _ _ =>
    (takes_needed fs .real "y").bind fun _ _ => takes_ok trivial) ?_
  simp

theorem takes_spline :
    Takes (SplineCurve.ofFields Value.toReal fs)
      (∀ rule ∈ ["ax", "bx", "cx", "dx", "ex", "fx", "ay", "by", "cy", "dy", "ey", "fy"].map
        (FieldRule.needs .real), rule.Met (fs.entries.lookup rule.name)) fun _ => True := by
  have hreal := takes_needed fs .real
  refine Takes.of_iff ((hreal "ax").bind fun _ _ => (hreal "bx").bind fun _ _ =>
    (hreal "cx").bind fun _ _ => (hreal "dx").bind fun _ _ => (hreal "ex").bind fun _ _ =>
    (hreal "fx").bind fun _ _ => (hreal "ay").bind fun _ _ => (hreal "by").bind fun _ _ =>
    (hreal "cy").bind fun _ _ => (hreal "dy").bind fun _ _ => (hreal "ey").bind fun _ _ =>
    (hreal "fy").bind fun _ _ => takes_ok trivial) ?_
  simp

end Fields

/-- The form of each kind asks for what its rules say. -/
theorem asks_forms :
    List.Forall₂ (fun (kind, form) (kind', rules) => kind = kind' ∧ Asks kind form rules) forms
      fieldRules := by
  -- the rules of a kind stand in the order in which its form asks for them, so each case follows the form
  refine .cons ⟨rfl, rfl, fun fs => ?image⟩ <| .cons ⟨rfl, rfl, fun fs => ?grid⟩ <|
    .cons ⟨rfl, rfl, fun fs => ?scale⟩ <| .cons ⟨rfl, rfl, fun fs => ?rotation⟩ <|
    .cons ⟨rfl, rfl, fun fs => ?origin⟩ <| .cons ⟨rfl, rfl, fun fs => ?alpha⟩ <|
    .cons ⟨rfl, rfl, fun fs => ?fill⟩ <| .cons ⟨rfl, rfl, fun fs => ?stroke⟩ <|
    .cons ⟨rfl, rfl, fun fs => ?strokeWidth⟩ <| .cons ⟨rfl, rfl, fun fs => ?text⟩ <|
    .cons ⟨rfl, rfl, fun fs => ?circle⟩ <| .cons ⟨rfl, rfl, fun fs => ?polygon⟩ <|
    .cons ⟨rfl, rfl, fun fs => ?polyline⟩ <| .cons ⟨rfl, rfl, fun fs => ?spline⟩ .nil
  case image =>
    refine Takes.of_iff ((takes_needed fs .text "src").bind fun _ _ =>
      (takes_point fs).bind fun _ _ => (takes_needed fs .real "width").bind fun _ _ =>
      (takes_needed fs .real "height").bind fun _ _ =>
      (takes_allowed fs .flag "opaque" false).bind fun _ _ => takes_ok ⟨rfl, rfl⟩) ?_
    simp [and_assoc]
  case grid =>
    refine Takes.of_iff ((takes_needed fs .count "numHorizontal").bind fun _ _ =>
      (takes_needed fs .count "numVertical").bind fun _ _ => takes_ok ⟨rfl, rfl⟩) ?_
    simp
  case scale =>
    refine Takes.of_iff ((takes_needed fs .real "scaleX").bind fun _ _ =>
      (takes_needed fs .real "scaleY").bind fun _ _ => takes_ok ⟨rfl, rfl⟩) ?_
    simp
  case rotation =>
    refine Takes.of_iff ((takes_needed fs .real "rotation").bind fun _ _ => takes_ok ⟨rfl, rfl⟩) ?_
    simp
  case origin =>
    refine Takes.of_iff ((takes_point fs).bind fun _ _ => takes_ok ⟨rfl, rfl⟩) ?_
    simp
  case alpha =>
    refine Takes.of_iff ((takes_needed fs .real "alpha").bind fun _ _ => takes_ok ⟨rfl, rfl⟩) ?_
    simp
  case fill =>
    refine Takes.of_iff ((takes_needed fs .text "color").bind fun _ _ => takes_ok ⟨rfl, rfl⟩) ?_
    simp
  case stroke =>
    refine Takes.of_iff ((takes_needed fs .text "color").bind fun _ _ => takes_ok ⟨rfl, rfl⟩) ?_
    simp
  case strokeWidth =>
    refine Takes.of_iff ((takes_needed fs .real "width").bind fun _ _ => takes_ok ⟨rfl, rfl⟩) ?_
    simp
  case text =>
    refine Takes.of_iff ((takes_needed fs .text "text").bind fun _ _ =>
      (takes_point fs).bind fun _ _ => (takes_allowed fs .optionalText "font" none).bind fun _ _ =>
      (takes_allowed fs .real "theta" (Double.ofInt 0)).bind fun _ _ =>
      (takes_allowed fs .flag "stroke" false).bind fun _ _ => takes_ok ⟨rfl, rfl⟩) ?_
    simp [and_assoc]
  case circle =>
    refine Takes.of_iff ((takes_point fs).bind fun _ _ =>
      (takes_needed fs .real "radius").bind fun _ _ =>
      (takes_allowed fs .flag "stroke" false).bind fun _ _ => takes_ok ⟨rfl, rfl⟩) ?_
    simp [and_assoc]
  case polygon =>
    refine Takes.of_iff ((takes_needed fs .reals "xPoints").bind fun _ _ =>
      (takes_needed fs .reals "yPoints").bind fun _ _ =>
      (takes_allowed fs .flag "stroke" false).bind fun _ _ => takes_ok ⟨rfl, rfl⟩) ?_
    simp
  case polyline =>
    refine Takes.of_iff ((takes_needed fs .reals "xPoints").bind fun _ _ =>
      (takes_needed fs .reals "yPoints").bind fun _ _ => takes_ok ⟨rfl, rfl⟩) ?_
    simp
  case spline =>
    refine Takes.of_iff ((takes_spline fs).bind fun _ _ => takes_ok ⟨rfl, rfl⟩) ?_
    simp

/-- A kind that has no form is not known, and any other is known and has rules. -/
theorem asks_of_lookup (kind : String) :
    match forms.lookup kind with
    | none => kind ∉ kinds
    | some form => kind ∈ kinds ∧ Asks kind form (rulesOf kind) := by
  rw [← map_fst_forms, rulesOf]
  have hall := asks_forms
  -- both tables are searched side by side
  generalize forms = forms at hall ⊢
  generalize fieldRules = fieldRules at hall ⊢
  induction hall with
  | nil => exact List.not_mem_nil
  | @cons entry rules forms fieldRules hentry _ ih =>
    obtain ⟨name, form⟩ := entry
    obtain ⟨name', rules⟩ := rules
    obtain ⟨rfl, hasks⟩ := hentry
    rw [Json.lookup_cons_eq_ite, Json.lookup_cons_eq_ite, List.map_cons]
    by_cases hname : kind = name
    · rw [if_pos hname, if_pos hname]
      exact ⟨hname ▸ List.mem_cons_self, hname ▸ hasks⟩
    · rw [if_neg hname, if_neg hname]
      cases hlookup : forms.lookup kind with
      | none =>
        rw [hlookup] at ih
        exact List.not_mem_cons_of_ne_of_not_mem hname ih
      | some form =>
        rw [hlookup] at ih
        exact ⟨List.mem_cons_of_mem _ ih.1, ih.2⟩

/-- No rule is about the member that tells the kind. -/
theorem name_ne_tag {kind : String} : ∀ rule ∈ rulesOf kind, rule.name ≠ tag := by
  have htable : ∀ entry ∈ fieldRules, ∀ rule ∈ entry.2, rule.name ≠ tag := by decide
  rw [rulesOf]
  cases hrules : fieldRules.lookup kind with
  | none => exact List.forall_mem_nil _
  | some rules => exact htable _ (Json.mem_of_lookup hrules)

/-- **What an operation asks of its members.** From members with distinct names an operation of a kind
is decoded exactly if they meet the rules of that kind; members that no rule is about are left out. -/
theorem takes_ofMembers {kind : String} {form : OpForm} {rules : List FieldRule}
    (h : Asks kind form rules) {ms : List (String × Value)} (hdistinct : Json.DistinctNames ms) :
    Takes (ofMembers form ms) (∀ rule ∈ rules, rule.Met (ms.lookup rule.name)) fun op =>
      op.kind = kind ∧ op.isUnknown = false := by
  have hcheck : ∀ rule : FieldRule, ∀ v,
      Takes (rule.field.check v) (rule.sort.admits v = true) fun _ => True :=
    fun rule v => (rule.sort.takes_decode v).map fun _ _ => trivial
  have hfields : ∀ field ∈ form.shape.fields, ∃ rule ∈ rules, rule.field = field := by
    rw [h.fields]
    exact fun field hfield => List.mem_map.1 hfield
  have hfield : ∀ field ∈ form.shape.fields, ∀ v,
      Takes (field.check v) (∃ u, field.check v = .ok u) fun _ => True := by
    intro field hfield v
    obtain ⟨rule, -, rfl⟩ := hfields field hfield
    exact (hcheck rule v).of_iff (hcheck rule v).succeeds_iff.symm
  -- a field that a rule is about is not left out
  have hlookup : ∀ rule ∈ rules, (ms.filter fun m =>
      (form.shape.fields.find? (·.name = m.1)).isSome).lookup rule.name = ms.lookup rule.name := by
    intro rule hrule
    refine Json.lookup_filter ms fun _ => ?_
    rw [List.find?_isSome]
    exact ⟨rule.field, h.fields ▸ List.mem_map_of_mem hrule, by simp [FieldRule.field, Field.of]⟩
  have hrecord : Takes (form.shape.ofMembers ms) _ fun fs : Fields Value =>
      ∀ rule ∈ rules, fs.entries.lookup rule.name = ms.lookup rule.name :=
    (takes_collect hfield [] ms hdistinct).map fun entries heq => heq ▸ hlookup
  refine Takes.of_iff (hrecord.bind fun fs hfs => (h.build fs).of_iff
    (forall₂_congr fun rule hrule => by rw [hfs rule hrule])) ?_
  -- who meets the rules has put into every field what the field takes
  refine and_iff_right_of_imp fun hmet m hm field hfind => ?_
  obtain ⟨rule, hrule, rfl⟩ := hfields field (List.mem_of_find?_eq_some hfind)
  have hname := List.find?_some hfind
  rw [decide_eq_true_iff] at hname
  have hfound := hmet rule hrule
  rw [show rule.name = m.1 from hname, (Json.lookup_eq_some_iff_mem hdistinct).2 hm] at hfound
  exact (hcheck rule m.2).succeeds_iff.2 hfound

end Op
end FieldDiagram
