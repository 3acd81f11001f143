import FieldDiagram.Proofs.Overlay.Fields
/-!
# Overlays there and back

What becomes of an overlay that is encoded and decoded again: operation by operation it is the overlay with
its counts rounded and its real numbers as their digits are read (`Overlay.decode_encoded`).

An operation is decoded from its members after they were sorted, and the members are those of an
operation, namely of the one with the numbers read back. So nothing has to be said about the decoder
beyond what it makes of a written operation.
-/

namespace FieldDiagram

open Json (Value Reading)

namespace Op

/-- The members of a written operation as they are decoded: sorted, and without the kind. -/
theorem ofElement_written {op : Op Float} {form : OpForm} {ms : List (String × Value)}
    (h : Written op form ms) (index : Nat) :
    ∃ rest : List (String × Value), Json.DistinctNames rest ∧
      (∀ m, m ∈ rest ↔ m ∈ ms.map fun m => (m.1, m.2.reread)) ∧
      ofElement index (Value.object ((tag, .string op.kind) :: ms)).reread.canonical =
        (ofMembers form rest).mapError (atPlace index op.kind) := by
  generalize hnew : (ms.map fun m => (m.1, m.2.reread)) = new
  -- sorting puts the kind anywhere among the others, so what is left of them is told by membership
  have hcanonical : (Value.object ((tag, .string op.kind) :: ms)).reread.canonical =
      .object (Json.sortMembers ((tag, .string op.kind) :: new)) := by
    rw [Value.reread, Value.canonical, Json.rereadMembers, Json.rereadMembers_eq_map, hnew,
      Json.canonicalMembers_eq_map, List.map_cons, Value.object.injEq]
    congr 2
    rw [← hnew, List.map_map]
    refine List.map_congr_left fun m hm => ?_
    obtain ⟨field, -, hkeeps⟩ := h.keeps m hm
    exact Prod.ext rfl hkeeps.canonical
  have hnames : (new.map Prod.fst) = ms.map Prod.fst := by
    rw [← hnew, List.map_map]
    rfl
  have hdistinct : Json.DistinctNames ((tag, Value.string op.kind) :: new) := by
    rw [Json.DistinctNames, List.map_cons, hnames]
    exact h.distinct
  generalize hsorted : Json.sortMembers ((tag, Value.string op.kind) :: new) = sorted at hcanonical
  have hmem : ∀ m, m ∈ sorted ↔ m = (tag, .string op.kind) ∨ m ∈ new := by
    intro m
    rw [← hsorted, Json.mem_sortMembers hdistinct, List.mem_cons]
  have hkind : sorted.lookup tag = some (.string op.kind) := by
    rw [Json.lookup_eq_some_iff_mem (hsorted ▸ Json.distinctNames_sortMembers _), hmem]
    exact Or.inl rfl
  refine ⟨sorted.filter (·.1 ≠ tag), ?_, ?_, ?_⟩
  · rw [Json.DistinctNames]
    have hall : Json.DistinctNames sorted := hsorted ▸ Json.distinctNames_sortMembers _
    exact hall.sublist (List.filter_sublist.map Prod.fst)
  · intro m
    rw [List.mem_filter, hmem, decide_eq_true_iff]
    constructor
    · rintro ⟨rfl | hm, hne⟩
      · exact absurd rfl hne
      · exact hm
    · intro hm
      refine ⟨Or.inr hm, ?_⟩
      intro heq
      rw [Json.DistinctNames, List.map_cons, List.nodup_cons] at hdistinct
      have hname : m.1 ∈ new.map Prod.fst := List.mem_map_of_mem hm
      rw [heq] at hname
      exact hdistinct.1 hname
  · rw [hcanonical]
    simp only [ofElement, hkind, h.lookup]

/-- **What a written operation is decoded as**: with numbers that are all finite it is what comes back of it,
and otherwise it is refused. -/
theorem ofElement_value? {op : Op Float} {v : Value} (h : op.value? = some v) (index : Nat) :
    ((∀ x ∈ op.numbers, x.isFinite = true) →
      ofElement index v.reread.canonical = .ok op.reread) ∧
    ((¬ ∀ x ∈ op.numbers, x.isFinite = true) →
      Ensures (ofElement index v.reread.canonical) fun _ => False) := by
  obtain ⟨ms, hms, rfl⟩ := Option.map_eq_some_iff.1 h
  obtain ⟨form, hw⟩ := written hms
  obtain ⟨rest, hdistinct, hmem, helement⟩ := ofElement_written hw index
  rw [helement]
  constructor
  · -- the members that come back are those of an operation, and the form is asked for its fields
    intro hfinite
    obtain ⟨form', hback⟩ := written (members?_map_reread hms hfinite)
    have hform := hback.lookup
    rw [kind_map, hw.lookup] at hform
    obtain rfl := Option.some.inj hform
    have hcheck : ∀ m ∈ rest, ∃ field, form.shape.fields.find? (·.name = m.1) = some field ∧
        field.check m.2 = .ok () := by
      intro m hm
      obtain ⟨field, hfield, hkeeps⟩ := hback.keeps m ((hmem m).1 hm)
      exact ⟨field, hfield, hkeeps.taken⟩
    have hlookup := Json.lookup_congr hdistinct (List.nodup_cons.1 hback.distinct).2 hmem
    rw [ofMembers, ofMembers_ok hdistinct hcheck]
    change (form.build (RecordShape.byName rest)).mapError _ = _
    rw [build_congr hw.lookup hlookup, hback.build]
    rfl
  · -- some member is not read back, and the field of that member refuses what is there instead
    intro hinfinite
    rw [hw.finite] at hinfinite
    obtain ⟨m, hm⟩ := Classical.not_forall.1 hinfinite
    obtain ⟨hold, hlost⟩ := Classical.not_imp.1 hm
    obtain ⟨field, hfield, hkeeps⟩ := hw.keeps m hold
    refine Ensures.mapError (Ensures.bind (Ensures.map ?_) fun _ => False.elim)
    exact collect_fails ((hmem _).2 (List.mem_map_of_mem hold)) rfl hfield (hkeeps.refused hlost)

/-- The operations of an overlay, decoded from their values at their places. -/
theorem listOfValues_written {ops : List (Op Float)} {vs : List Value}
    (h : ops.mapM value? = some vs) (start : Nat) :
    let decoded := ((vs.map Value.reread).zipIdx start).mapM fun (element, index) =>
      ofElement index element.canonical
    ((∀ op ∈ ops, ∀ x ∈ op.numbers, x.isFinite = true) → decoded = .ok (ops.map reread)) ∧
    ((¬ ∀ op ∈ ops, ∀ x ∈ op.numbers, x.isFinite = true) → Ensures decoded fun _ => False) := by
  induction ops generalizing vs start with
  | nil =>
    cases h
    exact ⟨fun _ => rfl, fun hnot => absurd (by simp) hnot⟩
  | cons op ops ih =>
    rw [List.mapM_cons] at h
    obtain ⟨v, hv, h⟩ := Option.bind_eq_some_iff.1 h
    obtain ⟨vs', hvs, heq⟩ := Option.bind_eq_some_iff.1 h
    cases heq
    obtain ⟨hok, hfails⟩ := ofElement_value? hv start
    obtain ⟨hoks, hfailss⟩ := ih hvs (start + 1)
    dsimp only at hoks hfailss ⊢
    rw [List.map_cons, List.zipIdx_cons, List.mapM_cons, List.forall_mem_cons]
    constructor
    · rintro ⟨hhead, htail⟩
      rw [hok hhead, hoks htail]
      rfl
    · intro hnot
      -- the first operation fails, or else one of the others does
      by_cases hhead : ∀ x ∈ op.numbers, x.isFinite = true
      · refine (ensures_true _).bind fun _ _ => ?_
        exact (hfailss fun htail => hnot ⟨hhead, htail⟩).bind fun _ => False.elim
      · exact (hfails hhead).bind fun _ => False.elim

theorem listOfReading_reading {ops : List (Op Float)} {vs : List Value}
    (h : ops.mapM value? = some vs) :
    listOfReading (Value.array vs).reading = listOfValues (vs.map Value.reread) := by
  have hitem : ∀ v ∈ vs, ofText (v.reading.value (Json.nestingLimit - 2)) = .ok v.reread := by
    intro v hv
    obtain ⟨op, -, hop⟩ := exists_of_mem_mapM h hv
    obtain ⟨ms, hms, rfl⟩ := Option.map_eq_some_iff.1 hop
    obtain ⟨form, hw⟩ := written hms
    have hfits : (Value.object ((tag, .string op.kind) :: ms)).FitsIn (Json.nestingLimit - 2) := by
      refine ⟨trivial, Json.membersFitIn_iff.2 fun m hm => ?_⟩
      obtain ⟨field, -, hkeeps⟩ := hw.keeps m hm
      exact hkeeps.fits _
    rw [Json.value_reading hfits]
    rfl
  have hitems : (vs.map Value.reading).mapM
      (fun item => ofText (item.value (Json.nestingLimit - 2))) = .ok (vs.map Value.reread) := by
    rw [List.mapM_map]
    exact mapM_ok hitem
  rw [Value.reading, Json.itemReadings_eq_map, listOfReading, Json.Reading.list, hitems]
  rfl

end Op

namespace Overlay

theorem ofReading_ops (items : Reading) :
    ofReading (.object [(.ofText "ops", items)] .closed) =
      (Op.listOfReading items).map Overlay.mk := by
  have hfields : shape.fields.find? (·.name = "ops") = some (.of "ops" Op.listOfReading) := rfl
  have hget : (RecordShape.byName [("ops", items)]).get "ops" Op.listOfReading =
      Op.listOfReading items := rfl
  rw [ofReading, RecordShape.ofReading, RecordShape.collect, Json.StringToken.text_ofText]
  simp only [ofText, bind, Except.bind, hfields, Field.of]
  -- the list is decoded twice: once to check the field and once to get it
  cases h : Op.listOfReading items with
  | error e => rfl
  | ok ops =>
    rw [h] at hget
    change ((RecordShape.byName [("ops", items)]).get "ops" Op.listOfReading).map Overlay.mk = _
    rw [hget]

theorem decode_of_encode? {o : Overlay Float} {text : String} (h : o.encode? = some text) :
    ∃ vs : List Value, o.ops.mapM Op.value? = some vs ∧
      decode text = (Op.listOfValues (vs.map Value.reread)).map Overlay.mk := by
  obtain ⟨vs, hvs, rfl⟩ := Option.map_eq_some_iff.1 h
  refine ⟨vs, hvs, ?_⟩
  rw [decode, decodeText_text, Value.reading, Json.memberReadings, Json.memberReadings, ofReading_ops,
    Op.listOfReading_reading hvs]

/-- Exactly the overlays without an operation that is not known are encoded. -/
theorem isSome_encode?_iff (o : Overlay Float) :
    o.encode?.isSome = true ↔ ∀ op ∈ o.ops, op.isUnknown = false := by
  rw [encode?, Option.isSome_map, isSome_mapM_iff]
  refine forall_congr' fun op => imp_congr_right fun _ => ?_
  rw [← Bool.not_eq_true, ← Op.value?_eq_none_iff, Option.isSome_iff_ne_none]

/-- **An encoded overlay is decoded as what comes back of it**, if all its numbers are finite, and else it is
refused. -/
theorem decode_encoded {o : Overlay Float} {text : String} (h : o.encode? = some text) :
    ((∀ op ∈ o.ops, ∀ x ∈ op.numbers, x.isFinite = true) →
      decode text = .ok ⟨o.ops.map Op.reread⟩) ∧
    ((¬ ∀ op ∈ o.ops, ∀ x ∈ op.numbers, x.isFinite = true) →
      Ensures (decode text) fun _ => False) := by
  obtain ⟨vs, hvs, hdecode⟩ := decode_of_encode? h
  obtain ⟨hok, hfails⟩ := Op.listOfValues_written hvs 0
  rw [hdecode]
  constructor
  · intro hfinite
    rw [Op.listOfValues, hok hfinite]
    rfl
  · intro hinfinite
    exact Ensures.map (hfails hinfinite)

theorem decode_of_reread_eq {o : Overlay Float} {text : String} (h : o.encode? = some text)
    (hfinite : ∀ op ∈ o.ops, ∀ x ∈ op.numbers, x.isFinite = true) (hkept : ∀ op ∈ o.ops, op.reread = op) :
    decode text = .ok o := by
  rw [(decode_encoded h).1 hfinite, List.map_congr_left hkept, List.map_id']

theorem map_reread_eq_map_rounded {o : Overlay Float}
    (h : ∀ op ∈ o.ops, ∀ x ∈ op.numbers, Double.reread x = x) :
    o.ops.map Op.reread = o.ops.map Op.rounded :=
  List.map_congr_left fun op hop => Op.reread_eq_rounded (h op hop)

end Overlay

end FieldDiagram
