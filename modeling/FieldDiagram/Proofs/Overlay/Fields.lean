import FieldDiagram.Overlay.Codec
import FieldDiagram.Proofs.Decimal.Whole
import FieldDiagram.Proofs.Decode.Record
import FieldDiagram.Proofs.Json.Finite
/-!
# The fields of written operations

Every member of a written operation has a field of its name in the form of the operation's kind, and the
field takes the value that stands there; what the form builds from such members is the operation
(`Op.written`). Two things happen to an operation on the way through a text.

* A number of grid lines becomes a machine number: `LineCount.rounded`.
* A real number is replaced by what its digits are read as. That replaces it in the operation, too, since the
  members of the operation with the numbers read back are the members read back:
  `Op.members?_map_reread`.

So an operation that is read back is a written one, with other numbers, and `Op.written` is true of it as
well. A number that is not finite is written as `null`, and a field that asks for a number refuses that.
-/

namespace FieldDiagram

open Json (Value)

/-! ## Numbers of grid lines

Counts are written as whole numbers and read as machine numbers, so some of them change on the way. -/

/-- The count after it was a machine number: the nearest one, and back towards zero within bounds. -/
def LineCount.rounded (c : LineCount) : LineCount :=
  .saturating (Double.roundWithin BinaryFormat.double.floor (-9223372036854775808)
    9223372036854775807 (Double.ofInt c.value))

theorem LineCount.natAbs_le (c : LineCount) : c.value.natAbs ≤ 2 ^ 64 := by
  have := c.lower
  have := c.upper
  omega

/-- A rounded count is nearest to the whole number that the count is as a machine number. -/
theorem LineCount.exists_rounded_eq (c : LineCount) :
    ∃ n, Double.whole? (Double.ofInt c.value) = some n ∧ c.rounded = .saturating n := by
  refine ⟨_, Double.whole?_ofInt c.natAbs_le, ?_⟩
  rw [LineCount.rounded, Double.roundWithin, Double.parts_ofInt c.natAbs_le]
  simp only [LineCount.saturating, Double.clampInt, decide_eq_true_eq, LineCount.mk.injEq]
  omega

/-- A written count is read as a rounded one. -/
theorem toCount_integer (c : LineCount) : (Value.integer c.value).toCount = .ok c.rounded := by
  obtain ⟨n, hn, hrounded⟩ := c.exists_rounded_eq
  have hreal : (Value.integer c.value).found.toReal = .ok (Double.ofInt c.value) := rfl
  rw [Value.toCount, Found.toCount, hreal]
  simp only [bind, Except.bind, hn]
  rw [hrounded]
  rfl

example : (LineCount.rounded ⟨9007199254740993, by decide, by decide⟩).value = 9007199254740992 := by
  decide +kernel

/-! ## What a field keeps

There are six kinds of fields, and each is shown once to keep what is written into it. -/

/-- Whether a field takes a written value, and takes nothing in its place if the value cannot be read back. -/
structure Field.Keeps (field : Field Value) (v : Value) : Prop where
  fits : ∀ depth, v.FitsIn (depth + 1)
  canonical : v.reread.canonical = v.reread
  taken : field.check v = .ok ()
  refused : ¬ v.IsFinite → Ensures (field.check v.reread) fun _ => False

@[simp] theorem isFinite_real_iff (x : Float) : (Value.real x).IsFinite ↔ x.isFinite = true := Iff.rfl

@[simp] theorem isFinite_string (s : String) : (Value.string s).IsFinite := trivial

@[simp] theorem isFinite_boolean (b : Bool) : (Value.boolean b).IsFinite := trivial

@[simp] theorem LineCount.isFinite_value (c : LineCount) : (Value.integer c.value).IsFinite :=
  Double.isFinite_ofInt c.natAbs_le

@[simp] theorem isFinite_realList_iff (xs : List Float) :
    (Op.realList xs).IsFinite ↔ ∀ x ∈ xs, x.isFinite = true := by
  rw [Op.realList, Value.IsFinite, Json.itemsFinite_iff, List.forall_mem_map]
  rfl

theorem reread_realList {xs : List Float} (h : ∀ x ∈ xs, x.isFinite = true) :
    (Op.realList xs).reread = Op.realList (xs.map Double.reread) := by
  rw [Op.realList, Value.reread, Json.rereadItems_eq_map, List.map_map, Op.realList, List.map_map]
  exact congrArg Value.array (List.map_congr_left fun x hx => Value.reread_real (h x hx))

theorem reals_realList (xs : List Float) : (Op.realList xs).reals = .ok xs := by
  rw [Op.realList, Value.reals]
  induction xs with
  | nil => rfl
  | cons x xs ih =>
    rw [List.map_cons, List.mapM_cons, ih]
    rfl

namespace Field.Keeps

theorem real (name : String) (x : Float) : (Field.of name Value.toReal).Keeps (.real x) where
  fits _ := trivial
  canonical := by
    by_cases h : x.isFinite = true
    · rw [Value.reread_real h]
      rfl
    · rw [Value.reread_real_of_not_isFinite h]
      rfl
  taken := rfl
  refused h := by
    rw [isFinite_real_iff] at h
    rw [Value.reread_real_of_not_isFinite h]
    exact ensures_error _ _

theorem text (name : String) (s : String) : (Field.of name Value.toText).Keeps (.string s) :=
  ⟨fun _ => trivial, rfl, rfl, fun h => absurd trivial h⟩

theorem optionalText (name : String) (s : String) :
    (Field.of name Value.toOptionalText).Keeps (.string s) :=
  ⟨fun _ => trivial, rfl, rfl, fun h => absurd trivial h⟩

theorem flag (name : String) (b : Bool) : (Field.of name Value.toFlag).Keeps (.boolean b) :=
  ⟨fun _ => trivial, rfl, rfl, fun h => absurd trivial h⟩

theorem count (name : String) (c : LineCount) :
    (Field.of name Value.toCount).Keeps (.integer c.value) where
  fits _ := by
    have := c.lower
    have := c.upper
    exact ⟨by omega, by omega⟩
  canonical := rfl
  taken := congrArg (Except.map fun _ => ()) (toCount_integer c)
  refused h := absurd c.isFinite_value h

theorem reals (name : String) (xs : List Float) :
    (Field.of name Value.reals).Keeps (Op.realList xs) where
  fits _ := by
    induction xs with
    | nil => trivial
    | cons x xs ih => exact ⟨trivial, ih⟩
  canonical := by
    rw [Op.realList, Value.reread, Value.canonical, Value.array.injEq]
    induction xs with
    | nil => rfl
    | cons x xs ih =>
      rw [List.map_cons, Json.rereadItems, Json.canonicalItems, ih, (real name x).canonical]
  taken := congrArg (Except.map fun _ => ()) (reals_realList xs)
  -- one number that is not finite is written as null, and a null among them refuses the list
  refused h := by
    rw [isFinite_realList_iff] at h
    obtain ⟨x, hx⟩ := Classical.not_forall.1 h
    obtain ⟨hmem, hinfinite⟩ := Classical.not_imp.1 hx
    refine Ensures.map ?_
    rw [Op.realList, Value.reread, Json.rereadItems_eq_map, Value.reals]
    refine ensures_mapM_false (x := (Value.real x).reread) ?_ ?_
    · exact List.mem_map_of_mem (List.mem_map_of_mem hmem)
    · rw [Value.reread_real_of_not_isFinite hinfinite]
      exact ensures_error _ _

end Field.Keeps

/-! ## Forms and fields by name

A form is given members and looks them up, so two lists that have the same under each name are the same to
it. -/

namespace Op

theorem build_form (variant : String) (fields : List (Field Value))
    (build : Fields Value → Decoded (Op Float)) : (form variant fields build).build = build := rfl

/-- What a form builds depends on its fields by name alone. -/
theorem build_congr {form : OpForm} {kind : String} (hform : forms.lookup kind = some form)
    {ms ns : List (String × Value)} (h : ∀ k, ms.lookup k = ns.lookup k) :
    form.build (RecordShape.byName ms) = form.build (RecordShape.byName ns) := by
  have hget : ∀ {β : Type} (name : String) (decode : Value → Decoded β),
      (RecordShape.byName ms).get name decode = (RecordShape.byName ns).get name decode := by
    intro β name decode
    simp only [Fields.get, RecordShape.byName, h]
  have hgetD : ∀ {β : Type} (name : String) (decode : Value → Decoded β) (default : β),
      (RecordShape.byName ms).getD name decode default =
        (RecordShape.byName ns).getD name decode default := by
    intro β name decode default
    simp only [Fields.getD, RecordShape.byName, h]
  have hall : ∀ entry ∈ forms,
      entry.2.build (RecordShape.byName ms) = entry.2.build (RecordShape.byName ns) := by
    simp only [forms, List.forall_mem_cons, build_form, point, outlined, SplineCurve.ofFields, hget,
      hgetD, List.not_mem_nil, IsEmpty.forall_iff, implies_true, and_self]
  exact hall _ (Json.mem_of_lookup hform)

/-! ## Written operations

For each kind the written members are put beside the fields of its form. This is the one place where all
kinds are gone through. -/

/-- The real numbers of an operation. -/
def numbers : Op Float → List Float
  | image _ p => [p.x, p.y, p.width, p.height]
  | grid _ _ => []
  | scale x y => [x, y]
  | rotation angle => [angle]
  | origin point => [point.x, point.y]
  | alpha a => [a]
  | fill _ => []
  | stroke _ => []
  | strokeWidth width => [width]
  | text _ point _ angle _ => [point.x, point.y, angle]
  | circle center radius _ => [center.x, center.y, radius]
  | polygon xs ys _ => xs ++ ys
  | polyline xs ys => xs ++ ys
  | spline curve => [curve.x.a, curve.x.b, curve.x.c, curve.x.d, curve.x.e, curve.x.f,
      curve.y.a, curve.y.b, curve.y.c, curve.y.d, curve.y.e, curve.y.f]
  | unknown _ => []

/-- The operation with its numbers of grid lines rounded. -/
def rounded : Op Float → Op Float
  | grid horizontal vertical => .grid horizontal.rounded vertical.rounded
  | op => op

/-- The operation with its real numbers changed. -/
def map (f : Float → Float) : Op Float → Op Float
  | image url p => .image url ⟨f p.x, f p.y, f p.width, f p.height, p.opaqueArt⟩
  | grid horizontal vertical => .grid horizontal vertical
  | scale x y => .scale (f x) (f y)
  | rotation angle => .rotation (f angle)
  | origin point => .origin ⟨f point.x, f point.y⟩
  | alpha a => .alpha (f a)
  | fill color => .fill color
  | stroke color => .stroke color
  | strokeWidth width => .strokeWidth (f width)
  | text content point font angle outlined => .text content ⟨f point.x, f point.y⟩ font (f angle) outlined
  | circle center radius outlined => .circle ⟨f center.x, f center.y⟩ (f radius) outlined
  | polygon xs ys outlined => .polygon (xs.map f) (ys.map f) outlined
  | polyline xs ys => .polyline (xs.map f) (ys.map f)
  | spline curve => .spline ⟨
      ⟨f curve.x.a, f curve.x.b, f curve.x.c, f curve.x.d, f curve.x.e, f curve.x.f⟩,
      ⟨f curve.y.a, f curve.y.b, f curve.y.c, f curve.y.d, f curve.y.e, f curve.y.f⟩⟩
  | unknown kind => .unknown kind

@[simp] theorem kind_map (f : Float → Float) (op : Op Float) : (op.map f).kind = op.kind := by
  cases op <;> rfl

theorem map_eq_self {f : Float → Float} {op : Op Float} (h : ∀ x ∈ op.numbers, f x = x) : op.map f = op := by
  have hlist : ∀ {xs : List Float}, (∀ x ∈ xs, f x = x) → xs.map f = xs := fun hxs =>
    (List.map_congr_left hxs).trans (List.map_id _)
  cases op with
  | polygon xs ys outlined =>
    rw [numbers, List.forall_mem_append] at h
    rw [map, hlist h.1, hlist h.2]
  | polyline xs ys =>
    rw [numbers, List.forall_mem_append] at h
    rw [map, hlist h.1, hlist h.2]
  | _ => simp_all [numbers, map]

/-- What comes back of an operation that is written: its counts as machine numbers, and its real numbers as
their digits are read. -/
def reread (op : Op Float) : Op Float := (op.map Double.reread).rounded

theorem reread_eq_rounded {op : Op Float} (h : ∀ x ∈ op.numbers, Double.reread x = x) :
    op.reread = op.rounded := by
  rw [reread, map_eq_self h]

/-- **The members of the operation that comes back** are the members as they come back. -/
theorem members?_map_reread {op : Op Float} {ms : List (String × Value)} (h : op.members? = some ms)
    (hfinite : ∀ x ∈ op.numbers, x.isFinite = true) :
    (op.map Double.reread).members? = some (ms.map fun m => (m.1, m.2.reread)) := by
  cases op with
  | polygon xs ys outlined =>
    cases h
    rw [numbers, List.forall_mem_append] at hfinite
    simp [map, members?, reread_realList hfinite.1, reread_realList hfinite.2]
  | polyline xs ys =>
    cases h
    rw [numbers, List.forall_mem_append] at hfinite
    simp [map, members?, reread_realList hfinite.1, reread_realList hfinite.2]
  | text content point font angle outlined =>
    cases h
    simp only [numbers, List.forall_mem_cons] at hfinite
    cases font <;> simp [map, members?, Value.reread_real, hfinite]
  | unknown kind => cases h
  | _ =>
    cases h
    simp only [numbers, List.forall_mem_cons] at hfinite
    simp [map, members?, SplineCurve.members, Value.reread_real, hfinite]

/-- What is true of an operation and its written members: the kind has a form, its fields keep the members,
the numbers of the operation are those of its members, and the form builds the operation from them. -/
structure Written (op : Op Float) (form : OpForm) (ms : List (String × Value)) : Prop where
  lookup : forms.lookup op.kind = some form
  distinct : Json.DistinctNames ((tag, .string op.kind) :: ms)
  keeps : ∀ m ∈ ms, ∃ field, form.shape.fields.find? (·.name = m.1) = some field ∧
    field.Keeps m.2
  finite : (∀ x ∈ op.numbers, x.isFinite = true) ↔ ∀ m ∈ ms, m.2.IsFinite
  build : form.build (RecordShape.byName ms) = .ok op.rounded

/-- Every operation that can be written is written in this way. -/
theorem written {op : Op Float} {ms : List (String × Value)} (h : op.members? = some ms) :
    ∃ form, Written op form ms := by
  -- the form is the one of the operation's kind, and its fields are met by the members one by one
  cases op with
  | image url p =>
    cases h
    refine ⟨_, rfl, by simp [Json.DistinctNames, tag], ?_, by simp [numbers], rfl⟩
    simp only [List.forall_mem_cons]
    exact ⟨⟨_, rfl, .text _ _⟩, ⟨_, rfl, .real _ _⟩, ⟨_, rfl, .real _ _⟩, ⟨_, rfl, .real _ _⟩,
      ⟨_, rfl, .real _ _⟩, ⟨_, rfl, .flag _ _⟩, by simp⟩
  | grid horizontal vertical =>
    cases h
    refine ⟨_, rfl, by simp [Json.DistinctNames, tag], ?_, by simp [numbers], ?_⟩
    · simp only [List.forall_mem_cons]
      exact ⟨⟨_, rfl, .count _ _⟩, ⟨_, rfl, .count _ _⟩, by simp⟩
    · change (do
        let h ← (Value.integer horizontal.value).toCount
        let v ← (Value.integer vertical.value).toCount
        return .grid h v : Decoded (Op Float)) = _
      rw [toCount_integer, toCount_integer]
      rfl
  | scale x y =>
    cases h
    refine ⟨_, rfl, by simp [Json.DistinctNames, tag], ?_, by simp [numbers], rfl⟩
    simp only [List.forall_mem_cons]
    exact ⟨⟨_, rfl, .real _ _⟩, ⟨_, rfl, .real _ _⟩, by simp⟩
  | rotation angle =>
    cases h
    refine ⟨_, rfl, by simp [Json.DistinctNames, tag], ?_, by simp [numbers], rfl⟩
    simp only [List.forall_mem_cons]
    exact ⟨⟨_, rfl, .real _ _⟩, by simp⟩
  | origin p =>
    cases h
    refine ⟨_, rfl, by simp [Json.DistinctNames, tag], ?_, by simp [numbers], rfl⟩
    simp only [List.forall_mem_cons]
    exact ⟨⟨_, rfl, .real _ _⟩, ⟨_, rfl, .real _ _⟩, by simp⟩
  | alpha a =>
    cases h
    refine ⟨_, rfl, by simp [Json.DistinctNames, tag], ?_, by simp [numbers], rfl⟩
    simp only [List.forall_mem_cons]
    exact ⟨⟨_, rfl, .real _ _⟩, by simp⟩
  | fill color =>
    cases h
    refine ⟨_, rfl, by simp [Json.DistinctNames, tag], ?_, by simp [numbers], rfl⟩
    simp only [List.forall_mem_cons]
    exact ⟨⟨_, rfl, .text _ _⟩, by simp⟩
  | stroke color =>
    cases h
    refine ⟨_, rfl, by simp [Json.DistinctNames, tag], ?_, by simp [numbers], rfl⟩
    simp only [List.forall_mem_cons]
    exact ⟨⟨_, rfl, .text _ _⟩, by simp⟩
  | strokeWidth width =>
    cases h
    refine ⟨_, rfl, by simp [Json.DistinctNames, tag], ?_, by simp [numbers], rfl⟩
    simp only [List.forall_mem_cons]
    exact ⟨⟨_, rfl, .real _ _⟩, by simp⟩
  | text content p font angle outlined =>
    cases font with
    | none =>
      cases h
      refine ⟨_, rfl, by simp [Json.DistinctNames, tag], ?_, by simp [numbers], rfl⟩
      simp only [Option.toList, List.map, List.cons_append, List.nil_append, List.forall_mem_cons]
      exact ⟨⟨_, rfl, .text _ _⟩, ⟨_, rfl, .real _ _⟩, ⟨_, rfl, .real _ _⟩, ⟨_, rfl, .real _ _⟩,
        ⟨_, rfl, .flag _ _⟩, by simp⟩
    | some font =>
      cases h
      refine ⟨_, rfl, by simp [Json.DistinctNames, tag], ?_, by simp [numbers], rfl⟩
      simp only [Option.toList, List.map, List.cons_append, List.nil_append, List.forall_mem_cons]
      exact ⟨⟨_, rfl, .text _ _⟩, ⟨_, rfl, .real _ _⟩, ⟨_, rfl, .real _ _⟩,
        ⟨_, rfl, .optionalText _ _⟩, ⟨_, rfl, .real _ _⟩, ⟨_, rfl, .flag _ _⟩, by simp⟩
  | circle center radius outlined =>
    cases h
    refine ⟨_, rfl, by simp [Json.DistinctNames, tag], ?_, by simp [numbers], rfl⟩
    simp only [List.forall_mem_cons]
    exact ⟨⟨_, rfl, .real _ _⟩, ⟨_, rfl, .real _ _⟩, ⟨_, rfl, .real _ _⟩, ⟨_, rfl, .flag _ _⟩,
      by simp⟩
  | polygon xs ys outlined =>
    cases h
    refine ⟨_, rfl, by simp [Json.DistinctNames, tag], ?_, by
      simp [numbers, or_imp, forall_and], ?_⟩
    · simp only [List.forall_mem_cons]
      exact ⟨⟨_, rfl, .reals _ _⟩, ⟨_, rfl, .reals _ _⟩, ⟨_, rfl, .flag _ _⟩, by simp⟩
    · change (do
        let xs ← (realList xs).reals
        let ys ← (realList ys).reals
        return .polygon xs ys outlined : Decoded (Op Float)) = _
      rw [reals_realList, reals_realList]
      rfl
  | polyline xs ys =>
    cases h
    refine ⟨_, rfl, by simp [Json.DistinctNames, tag], ?_, by
      simp [numbers, or_imp, forall_and], ?_⟩
    · simp only [List.forall_mem_cons]
      exact ⟨⟨_, rfl, .reals _ _⟩, ⟨_, rfl, .reals _ _⟩, by simp⟩
    · change (do
        let xs ← (realList xs).reals
        let ys ← (realList ys).reals
        return .polyline xs ys : Decoded (Op Float)) = _
      rw [reals_realList, reals_realList]
      rfl
  | spline curve =>
    cases h
    refine ⟨_, rfl, by simp [Json.DistinctNames, tag, SplineCurve.members], ?_, by
      simp [numbers, SplineCurve.members], rfl⟩
    simp only [SplineCurve.members, List.forall_mem_cons]
    exact ⟨⟨_, rfl, .real _ _⟩, ⟨_, rfl, .real _ _⟩, ⟨_, rfl, .real _ _⟩, ⟨_, rfl, .real _ _⟩,
      ⟨_, rfl, .real _ _⟩, ⟨_, rfl, .real _ _⟩, ⟨_, rfl, .real _ _⟩, ⟨_, rfl, .real _ _⟩,
      ⟨_, rfl, .real _ _⟩, ⟨_, rfl, .real _ _⟩, ⟨_, rfl, .real _ _⟩, ⟨_, rfl, .real _ _⟩, by simp⟩
  | unknown kind => cases h

end Op

end FieldDiagram
