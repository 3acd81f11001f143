import FieldDiagram.Proofs.Overlay.Items
import Mathlib.Logic.Relation
/-!
# Members in any order

The operations of an overlay are values with sorted members before any of them is decoded. So what one is
decoded as, and what is said if it is not, is told by the last member of each name that its kind knows:
the order of names does not matter, nor what stands under other names, nor an earlier occurrence of a
name. `Rearrangement` lists these changes, and a text that differs from another in nothing else is
decoded in the same way. Main statement: `decode_rearranged`.

An object has to be read before any of this holds. A member that no kind knows can be nested too deeply,
and members of one name cannot change places: `order_and_extras_matter`.
-/

namespace FieldDiagram

open Json (Value Reading StringToken)

namespace Json.Value

theorem pairwise_members_canonical (v : Value) :
    v.canonical.members.Pairwise fun a b => a.1 < b.1 := by
  cases v with
  | object members =>
    rw [canonical, Value.members]
    exact pairwise_sortMembers _
  | _ => exact List.Pairwise.nil

/-- The last member of a name, where it may be the one in the middle. -/
theorem member?_insert (name k : String) (v : Value) (before after : List (String × Value)) :
    (Value.object (before ++ (k, v) :: after)).member? name =
      ((Value.object after).member? name).or
        ((if name = k then some v else none).or ((Value.object before).member? name)) := by
  have hmiddle : List.lookup name [(k, v)] = if name = k then some v else none :=
    lookup_cons_eq_ite name k v []
  simp only [member?, Value.members, List.reverse_append, List.reverse_cons, List.append_assoc,
    List.lookup_append, hmiddle]

theorem member?_cons (name k : String) (v : Value) (after : List (String × Value)) :
    (Value.object ((k, v) :: after)).member? name =
      ((Value.object after).member? name).or (if name = k then some v else none) := by
  have hfirst := member?_insert name k v [] after
  rwa [show (Value.object []).member? name = none from rfl, Option.or_none] at hfirst

theorem member?_append (name : String) (before after : List (String × Value)) :
    (Value.object (before ++ after)).member? name =
      ((Value.object after).member? name).or ((Value.object before).member? name) := by
  simp only [member?, Value.members, List.reverse_append, List.lookup_append]

/-- A name that stands among the members has a last member. -/
theorem isSome_member? {name : String} {members : List (String × Value)}
    (h : name ∈ members.map Prod.fst) : ((Value.object members).member? name).isSome = true := by
  obtain ⟨m, hm, rfl⟩ := List.mem_map.1 h
  rw [member?, Value.members]
  by_contra hnone
  have habsent := List.lookup_eq_none_iff.1 (Option.not_isSome_iff_eq_none.1 hnone)
  have hdiffers := habsent m (List.mem_reverse.2 hm)
  simp at hdiffers

end Json.Value

namespace Op

/-! ## What an element is decoded as

The last member of each name that the kind knows decides, and nothing else does. -/

/-- Two elements are decoded in the same way, or refused in the same way, if they have the same kind and
the same member under every name that the kind knows. -/
theorem ofElement_congr {e e' : Value} (htag : e.member? tag = e'.member? tag)
    (hknown : ∀ form, forms.lookup (elementKind e) = some form →
      ∀ name, form.shape.knows name = true → e.member? name = e'.member? name) (index : Nat) :
    ofElement index e.canonical = ofElement index e'.canonical := by
  have hkind : elementKind e = elementKind e' := by rw [elementKind, elementKind, htag]
  rw [ofElement_canonical, ofElement_canonical, ← hkind]
  cases hform : forms.lookup (elementKind e) with
  | none => rfl
  | some form =>
    dsimp only
    -- the members that the form knows are the same, in the order of their names
    have hsame : (e.canonical.members.filter (·.1 ≠ tag)).filter (form.shape.knows ·.1) =
        (e'.canonical.members.filter (·.1 ≠ tag)).filter (form.shape.knows ·.1) := by
      apply Json.eq_of_lookup_eq
      · exact (e.pairwise_members_canonical.filter _).filter _
      · exact (e'.pairwise_members_canonical.filter _).filter _
      · intro k
        rw [Json.lookup_filter_fst form.shape.knows, Json.lookup_filter_fst form.shape.knows,
          Json.lookup_filter_fst (· ≠ tag), Json.lookup_filter_fst (· ≠ tag),
          e.lookup_members_canonical, e'.lookup_members_canonical]
        by_cases hk : form.shape.knows k = true
        · rw [if_pos hk, if_pos hk, hknown form hform k hk]
        · rw [if_neg hk, if_neg hk]
    rw [← ofMembers_filter, hsame, ofMembers_filter]

/-! ## Rearranging members

Small changes, each of which keeps the last member of every name that is known; and then as many of them as
one likes. -/

/-- A change to the members of an operation that makes no difference: neighbours with different names
change places, a member is put in that the kind of the operation does not know, or a member is put in
whose name stands again behind it. -/
inductive Rearrangement : List (String × Value) → List (String × Value) → Prop
  | swap (before after : List (String × Value)) {j k : String} (v w : Value) (h : j ≠ k) :
    Rearrangement (before ++ (j, v) :: (k, w) :: after) (before ++ (k, w) :: (j, v) :: after)
  | ignored (before after : List (String × Value)) {k : String} (v : Value) (htag : k ≠ tag)
      (h : ∀ form, forms.lookup (elementKind (.object (before ++ after))) = some form →
        form.shape.knows k = false) :
    Rearrangement (before ++ after) (before ++ (k, v) :: after)
  | repeated (before after : List (String × Value)) {k : String} (v : Value)
      (h : k ∈ after.map Prod.fst) :
    Rearrangement (before ++ after) (before ++ (k, v) :: after)

/-- One change. -/
theorem ofElement_rearrangement {ms ms' : List (String × Value)} (h : Rearrangement ms ms')
    (index : Nat) :
    ofElement index (Value.object ms).canonical = ofElement index (Value.object ms').canonical := by
  cases h with
  | swap before after v w h =>
    rename_i j k
    have hmember : ∀ name, (Value.object (before ++ (j, v) :: (k, w) :: after)).member? name =
        (Value.object (before ++ (k, w) :: (j, v) :: after)).member? name := by
      intro name
      rw [Value.member?_insert, Value.member?_insert, Value.member?_cons, Value.member?_cons,
        Option.or_assoc, Option.or_assoc]
      by_cases hj : name = j
      · rw [if_neg fun hk => h (hj.symm.trans hk), Option.none_or, Option.none_or]
      · rw [if_neg hj, Option.none_or, Option.none_or]
    exact ofElement_congr (hmember tag) (fun _ _ name _ => hmember name) index
  | ignored before after v htag h =>
    rename_i k
    have hmember : ∀ name, name ≠ k → (Value.object (before ++ after)).member? name =
        (Value.object (before ++ (k, v) :: after)).member? name := by
      intro name hname
      rw [Value.member?_append, Value.member?_insert, if_neg hname, Option.none_or]
    refine ofElement_congr (hmember tag htag.symm) ?_ index
    intro form hform name hknows
    apply hmember
    rintro rfl
    rw [h form hform] at hknows
    cases hknows
  | repeated before after v h =>
    rename_i k
    have hmember : ∀ name, (Value.object (before ++ after)).member? name =
        (Value.object (before ++ (k, v) :: after)).member? name := by
      intro name
      rw [Value.member?_append, Value.member?_insert]
      by_cases hname : name = k
      · -- the later member is the one that counts
        obtain ⟨w, hw⟩ := Option.isSome_iff_exists.1 (Value.isSome_member? (hname ▸ h))
        rw [hw, Option.some_or, Option.some_or]
      · rw [if_neg hname, Option.none_or]
    exact ofElement_congr (hmember tag) (fun _ _ name _ => hmember name) index

/-- Any number of changes, there or back. -/
theorem ofElement_rearranged {ms ms' : List (String × Value)}
    (h : Relation.EqvGen Rearrangement ms ms') (index : Nat) :
    ofElement index (Value.object ms).canonical = ofElement index (Value.object ms').canonical := by
  induction h with
  | rel _ _ h => exact ofElement_rearrangement h index
  | refl _ => rfl
  | symm _ _ _ ih => exact ih.symm
  | trans _ _ _ _ _ ih ih' => exact ih.trans ih'

/-! ## Lists of operations

Items may differ as readings and still be decoded alike at every place. What is said of a malformed one has
its place in it, so the place has to be the same. -/

/-- Items between which a decoder of operations makes no difference: they are the same, or both are
objects that can be read and have the same members but for changes that make none. -/
def Alike (item item' : Reading) : Prop :=
  item = item' ∨ ∃ ms ms', item.value (Json.nestingLimit - 2) = .ok (.object ms) ∧
    item'.value (Json.nestingLimit - 2) = .ok (.object ms') ∧
    Relation.EqvGen Rearrangement ms ms'

/-- What an element is decoded as at each place. -/
def atEachPlace (element : Value) (index : Nat) : Decoded (Op Float) :=
  ofElement index element.canonical

theorem Alike.atEachPlace {item item' : Reading} (h : Alike item item') :
    (ofText (item.value (Json.nestingLimit - 2))).map Op.atEachPlace =
      (ofText (item'.value (Json.nestingLimit - 2))).map Op.atEachPlace := by
  rcases h with rfl | ⟨ms, ms', hms, hms', hchanges⟩
  · rfl
  · rw [hms, hms']
    exact congrArg Except.ok (funext (ofElement_rearranged hchanges))

theorem listOfValues_eq (elements : List Value) :
    listOfValues elements =
      (elements.map atEachPlace).zipIdx.mapM fun (decoded, index) => decoded index := by
  rw [List.zipIdx_map, List.mapM_map]
  rfl

/-- Lists of such items are decoded in the same way. -/
theorem listOfReading_congr {items items' : List Reading} (h : List.Forall₂ Alike items items')
    (ending : Option Json.Fault) :
    listOfReading (.array items ending) = listOfReading (.array items' ending) := by
  have hvalues := map_mapM_congr (h.imp fun _ _ => Alike.atEachPlace)
  have hlist : ∀ items : List Reading, listOfReading (.array items ending) = (do
      let decoded ← (items.mapM fun item => ofText (item.value (Json.nestingLimit - 2))).map
        (List.map atEachPlace)
      unlessBroken ending
      decoded.zipIdx.mapM fun (decoded, index) => decoded index) := by
    intro items
    rw [listOfReading, Reading.list]
    cases items.mapM fun item => ofText (item.value (Json.nestingLimit - 2)) with
    | error e => rfl
    | ok vs =>
      cases ending with
      | some f => rfl
      | none => exact listOfValues_eq vs
  rw [hlist, hlist, hvalues]

end Op

namespace Overlay

/-! ## Whole texts

An overlay may be written as an object or as an array of its one field; in either case only its list of
operations matters. -/

/-- What stands in a list of operations, but for differences between its items that do not matter. -/
inductive SameList : Reading → Reading → Prop
  | refl (r : Reading) : SameList r r
  | array {items items' : List Reading} (h : List.Forall₂ Op.Alike items items')
      (ending : Option Json.Fault) : SameList (.array items ending) (.array items' ending)

/-- What is read of a whole text, but for such differences in its lists of operations. -/
inductive SameOps : Reading → Reading → Prop
  | refl (r : Reading) : SameOps r r
  | object {members members' : List (StringToken × Reading)}
      (h : List.Forall₂ (fun m m' => m.1 = m'.1 ∧
        (m.2 = m'.2 ∨ m.1.text = .ok "ops" ∧ SameList m.2 m'.2)) members members')
      (ending : Json.Ending) : SameOps (.object members ending) (.object members' ending)
  | array {list list' : Reading} (h : SameList list list') (more : List Reading)
      (ending : Option Json.Fault) :
    SameOps (.array (list :: more) ending) (.array (list' :: more) ending)

theorem SameList.listOfReading {r r' : Reading} (h : SameList r r') :
    Op.listOfReading r = Op.listOfReading r' := by
  cases h with
  | refl => rfl
  | array h ending => exact Op.listOfReading_congr h ending

theorem SameOps.readSingle {r r' : Reading} (h : SameOps r r') :
    RecordShape.readSingle shape.title "ops" Op.listOfReading r =
      RecordShape.readSingle shape.title "ops" Op.listOfReading r' := by
  cases h with
  | refl => rfl
  | object h ending =>
    apply RecordShape.readSingle_object_congr
    refine h.imp fun m m' hm => ⟨hm.1, hm.2.imp_right ?_⟩
    rintro ⟨hname, hlist⟩
    exact ⟨congrArg ofText hname, hlist.listOfReading⟩
  | array h more ending => exact RecordShape.readSingle_array_congr h.listOfReading more ending

/-- What stands under a name that the kind does not know has to be read all the same, and of two members
of one name the last one counts: the first text of each pair is decoded as a fill with red, but a member
that is nested too deeply keeps the second from being decoded, and two members that change places make
it blue. -/
theorem order_and_extras_matter :
    let text (members : List (String × Value)) :=
      (Value.object [("ops", .array [.object members])]).text
    let deep := Nat.repeat (fun v => Value.array [v]) 126 .null
    (decode (text [("type", .string "fill"), ("color", .string "red")]) = .ok ⟨[.fill "red"]⟩ ∧
      ∀ o, decode (text [("type", .string "fill"), ("color", .string "red"), ("note", deep)]) ≠
        .ok o) ∧
    decode (text [("type", .string "fill"), ("color", .string "blue"), ("color", .string "red")]) =
      .ok ⟨[.fill "red"]⟩ ∧
    decode (text [("type", .string "fill"), ("color", .string "red"), ("color", .string "blue")]) =
      .ok ⟨[.fill "blue"]⟩ := by
  intro text deep
  have hdecoded : ∀ (members : List (String × Value)) (op : Op Float),
      Op.ofItem 0 (Value.object members).reading = .ok op → decode (text members) = .ok ⟨[op]⟩ := by
    intro members op hop
    exact (decode_eq_ok_iff (items_written _) _).2 (.cons (Op.takenAs_of_ofItem hop) .nil)
  refine ⟨⟨hdecoded _ _ rfl, ?_⟩, hdecoded _ _ rfl, hdecoded _ _ rfl⟩
  intro o ho
  exact absurd (depth_le_of_decode ho) (by decide +kernel)

/-- **Members in any order.** Two texts are decoded as the same overlay, or refused with the same error,
if they differ in the objects in their lists of operations alone, if those that differ can be read, and
if the members of these differ only by the order of different names, by members whose names are neither
`type` nor known to the kind of the operation, and by earlier occurrences of names that stand more than
once. -/
theorem decode_rearranged (text text' : String)
    (hread : SameOps (Json.read text).1 (Json.read text').1)
    (hrest : (Json.read text).2 = (Json.read text').2) : decode text = decode text' := by
  rw [decode_eq_decodeText, decode_eq_decodeText, decodeText, decodeText]
  dsimp only
  rw [hread.readSingle, hrest]

/-- Of an earlier kind, a member that is not known and another order nothing is left. -/
theorem decode_rearranged_fill :
    let text (members : List (String × Value)) :=
      (Value.object [("ops", .array [.object members])]).text
    decode (text [("type", .string "alpha"), ("note", .null), ("color", .string "red"),
      ("type", .string "fill")]) =
        decode (text [("type", .string "fill"), ("color", .string "red")]) := by
  intro text
  have hchanges : Relation.EqvGen Op.Rearrangement
      [("type", .string "alpha"), ("note", .null), ("color", .string "red"), ("type", .string "fill")]
      [("type", .string "fill"), ("color", .string "red")] := by
    have hrepeated : Op.Rearrangement
        [("note", .null), ("color", .string "red"), ("type", .string "fill")]
        [("type", .string "alpha"), ("note", .null), ("color", .string "red"),
          ("type", .string "fill")] := .repeated [] _ _ (by simp)
    have hignored : Op.Rearrangement [("color", .string "red"), ("type", .string "fill")]
        [("note", .null), ("color", .string "red"), ("type", .string "fill")] := by
      -- no kind knows such a member
      have hnone : ∀ entry ∈ Op.forms, entry.2.shape.knows "note" = false := by decide
      exact .ignored [] _ _ (by decide) fun form hform => hnone _ (Json.mem_of_lookup hform)
    have hswap : Op.Rearrangement [("type", .string "fill"), ("color", .string "red")]
        [("color", .string "red"), ("type", .string "fill")] := .swap [] [] _ _ (by decide)
    exact (((Relation.EqvGen.rel _ _ hswap).trans _ _ _ (.rel _ _ hignored)).trans _ _ _
      (.rel _ _ hrepeated)).symm
  refine decode_rearranged _ _ ?_ ?_
  · rw [Json.read_text, Json.read_text]
    have hlist : SameList
        (Value.array [.object [("type", .string "alpha"), ("note", .null), ("color", .string "red"),
          ("type", .string "fill")]]).reading
        (Value.array [.object [("type", .string "fill"), ("color", .string "red")]]).reading :=
      .array (.cons (Or.inr ⟨_, _, rfl, rfl, hchanges⟩) .nil) none
    have hops : (StringToken.ofText "ops").text = .ok "ops" := Json.StringToken.text_ofText "ops"
    refine SameOps.object (.cons ?_ .nil) .closed
    exact ⟨rfl, Or.inr ⟨hops, hlist⟩⟩
  · rw [Json.read_text, Json.read_text]

end Overlay

end FieldDiagram
