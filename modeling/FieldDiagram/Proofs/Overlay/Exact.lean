import FieldDiagram.Proofs.Json.Finite
import FieldDiagram.Proofs.Overlay.RoundTrip
/-!
# Decoded overlays are exact

An overlay that was decoded has only finite numbers, and its numbers of grid lines were machine numbers
before. So it can be encoded and decoded once more, and nothing of its counts is lost then. Of its real
numbers those are kept whose digits are read as the number itself, which those of short numbers are.
-/

namespace FieldDiagram

open Json (Value Reading)

/-! ## Numbers of grid lines

A count that was read is a machine number forced into bounds. Forcing may take it away from the machine
numbers at one end only, and there the nearest one is forced back to the same bound. -/

theorem whole?_least : Double.whole? (Double.ofInt (-9223372036854775808)) =
    some (-9223372036854775808) := by
  decide +kernel

/-- The greatest count is no machine number, and the nearest one is beyond it. -/
theorem whole?_greatest : Double.whole? (Double.ofInt 9223372036854775807) =
    some 9223372036854775808 := by
  decide +kernel

/-- A count that was a machine number once is not rounded any more. -/
theorem LineCount.rounded_saturating {x : Float} {n : Int} (h : Double.whole? x = some n) :
    (saturating n).rounded = saturating n := by
  obtain ⟨m, hm, hrounded⟩ := (saturating n).exists_rounded_eq
  have hvalue : (saturating n).value = max (-9223372036854775808) (min 9223372036854775807 n) := rfl
  rw [hrounded]
  rcases Int.lt_or_le n (-9223372036854775808) with hlow | hlow
  · rw [show (saturating n).value = -9223372036854775808 by omega, whole?_least] at hm
    simp only [saturating, ← Option.some.inj hm, LineCount.mk.injEq]
    omega
  rcases Int.lt_or_le 9223372036854775807 n with hhigh | hhigh
  · rw [show (saturating n).value = 9223372036854775807 by omega, whole?_greatest] at hm
    simp only [saturating, ← Option.some.inj hm, LineCount.mk.injEq]
    omega
  · rw [show (saturating n).value = n by omega, Double.whole?_ofInt_of_whole? h] at hm
    rw [Option.some.inj hm]

/-! ## Operations

What holds of every field of a form holds of the operation that the form builds, so this is proved along the
forms, a field at a time. -/

namespace Op

/-- What is true of an operation that was decoded: its numbers are finite, and rounding its numbers of
grid lines changes nothing. -/
structure Exact (op : Op Float) : Prop where
  finite : ∀ x ∈ op.numbers, x.isFinite = true
  rounded : op.rounded = op

section Fields

variable {fs : Fields Value} (hfs : ∀ e ∈ fs.entries, e.2.IsFinite)

theorem ensures_toReal {v : Value} (h : v.IsFinite) : Ensures v.toReal fun x => x.isFinite = true := by
  cases v with
  | number n =>
    cases n with
    | integer n => exact ensures_ok h
    | real x => exact ensures_ok h
  | _ => exact ensures_error _ _

theorem ensures_reals {v : Value} (h : v.IsFinite) :
    Ensures v.reals fun xs => ∀ x ∈ xs, x.isFinite = true := by
  cases v with
  | array items => exact ensures_mapM fun v hv => ensures_toReal (Json.itemsFinite_iff.1 h v hv)
  | _ => exact ensures_error _ _

theorem ensures_toCount (v : Value) : Ensures v.toCount fun c => c.rounded = c := by
  refine (ensures_true v.found.toReal).bind fun x _ => ?_
  split
  · next n hn => exact ensures_ok (LineCount.rounded_saturating hn)
  · exact ensures_error _ _

include hfs

theorem ensures_real (name : String) :
    Ensures (fs.get name Value.toReal) fun x => x.isFinite = true :=
  ensures_get hfs (fun _ => ensures_toReal) name

theorem ensures_realList (name : String) :
    Ensures (fs.get name Value.reals) fun xs => ∀ x ∈ xs, x.isFinite = true :=
  ensures_get hfs (fun _ => ensures_reals) name

theorem ensures_count (name : String) :
    Ensures (fs.get name Value.toCount) fun c => c.rounded = c :=
  ensures_get hfs (fun v _ => ensures_toCount v) name

theorem ensures_point :
    Ensures (point fs) fun p => p.x.isFinite = true ∧ p.y.isFinite = true := by
  refine (ensures_real hfs "x").bind fun _ hx => ?_
  refine (ensures_real hfs "y").bind fun _ hy => ?_
  exact ensures_ok ⟨hx, hy⟩

theorem ensures_spline : Ensures (SplineCurve.ofFields Value.toReal fs) fun curve =>
    Exact (.spline curve) := by
  refine (ensures_real hfs _).bind fun _ hax => ?_
  refine (ensures_real hfs _).bind fun _ hbx => ?_
  refine (ensures_real hfs _).bind fun _ hcx => ?_
  refine (ensures_real hfs _).bind fun _ hdx => ?_
  refine (ensures_real hfs _).bind fun _ hex => ?_
  refine (ensures_real hfs _).bind fun _ hfx => ?_
  refine (ensures_real hfs _).bind fun _ hay => ?_
  refine (ensures_real hfs _).bind fun _ hby => ?_
  refine (ensures_real hfs _).bind fun _ hcy => ?_
  refine (ensures_real hfs _).bind fun _ hdy => ?_
  refine (ensures_real hfs _).bind fun _ hey => ?_
  refine (ensures_real hfs _).bind fun _ hfy => ?_
  exact ensures_ok ⟨by simp [numbers, *], rfl⟩

/-- Every form builds exact operations from finite values. -/
theorem ensures_build : ∀ entry ∈ forms, Ensures (entry.2.build fs) Exact := by
  -- a form is a chain of fields: what each of them ensures is handed on to the operation that is built
  simp only [forms, List.forall_mem_cons, build_form]
  refine ⟨?image, ?grid, ?scale, ?rotation, ?origin, ?alpha, ?fill, ?stroke, ?strokeWidth, ?text,
    ?circle, ?polygon, ?polyline, ?spline, by simp⟩
  case image =>
    refine (ensures_true _).bind fun url _ => ?_
    refine (ensures_point hfs).bind fun corner hcorner => ?_
    refine (ensures_real hfs _).bind fun width hwidth => ?_
    refine (ensures_real hfs _).bind fun height hheight => ?_
    refine (ensures_true _).bind fun opaqueArt _ => ?_
    exact ensures_ok ⟨by simp [numbers, *], rfl⟩
  case grid =>
    refine (ensures_count hfs _).bind fun horizontal hhorizontal => ?_
    refine (ensures_count hfs _).bind fun vertical hvertical => ?_
    exact ensures_ok ⟨by simp [numbers], by rw [Op.rounded, hhorizontal, hvertical]⟩
  case scale =>
    refine (ensures_real hfs _).bind fun x hx => ?_
    refine (ensures_real hfs _).bind fun y hy => ?_
    exact ensures_ok ⟨by simp [numbers, *], rfl⟩
  case rotation =>
    refine (ensures_real hfs _).bind fun angle hangle => ?_
    exact ensures_ok ⟨by simp [numbers, *], rfl⟩
  case origin =>
    refine (ensures_point hfs).bind fun p hp => ?_
    exact ensures_ok ⟨by simp [numbers, *], rfl⟩
  case alpha =>
    refine (ensures_real hfs _).bind fun a ha => ?_
    exact ensures_ok ⟨by simp [numbers, *], rfl⟩
  case fill =>
    refine (ensures_true _).bind fun color _ => ?_
    exact ensures_ok ⟨by simp [numbers], rfl⟩
  case stroke =>
    refine (ensures_true _).bind fun color _ => ?_
    exact ensures_ok ⟨by simp [numbers], rfl⟩
  case strokeWidth =>
    refine (ensures_real hfs _).bind fun width hwidth => ?_
    exact ensures_ok ⟨by simp [numbers, *], rfl⟩
  case text =>
    have hzero : (Double.ofInt 0).isFinite = true := Double.isFinite_ofInt (by decide)
    refine (ensures_true _).bind fun content _ => ?_
    refine (ensures_point hfs).bind fun anchor hanchor => ?_
    refine (ensures_true _).bind fun font _ => ?_
    refine (ensures_getD hfs (fun _ => ensures_toReal) _ hzero).bind fun angle hangle => ?_
    refine (ensures_true _).bind fun outlined _ => ?_
    exact ensures_ok ⟨by simp [numbers, *], rfl⟩
  case circle =>
    refine (ensures_point hfs).bind fun center hcenter => ?_
    refine (ensures_real hfs _).bind fun radius hradius => ?_
    refine (ensures_true _).bind fun outlined _ => ?_
    exact ensures_ok ⟨by simp [numbers, *], rfl⟩
  case polygon =>
    refine (ensures_realList hfs _).bind fun xs hxs => ?_
    refine (ensures_realList hfs _).bind fun ys hys => ?_
    refine (ensures_true _).bind fun outlined _ => ?_
    exact ensures_ok ⟨List.forall_mem_append.2 ⟨hxs, hys⟩, rfl⟩
  case polyline =>
    refine (ensures_realList hfs _).bind fun xs hxs => ?_
    refine (ensures_realList hfs _).bind fun ys hys => ?_
    exact ensures_ok ⟨List.forall_mem_append.2 ⟨hxs, hys⟩, rfl⟩
  case spline => exact (ensures_spline hfs).bind fun _ => ensures_ok

end Fields

theorem ensures_ofElement (index : Nat) {element : Value} (h : element.IsFinite) :
    Ensures (ofElement index element) Exact := by
  have hunknown : ∀ kind, Ensures (.ok (.unknown kind) : Decoded (Op Float)) Exact :=
    fun kind => ensures_ok ⟨by simp [numbers], rfl⟩
  cases element with
  | object members =>
    have hmembers := Json.membersFinite_iff.1 h
    simp only [ofElement]
    split
    · exact hunknown _
    · split
      · exact hunknown _
      · next form hform =>
        have hothers : ∀ m ∈ members.filter (·.1 ≠ tag), m.2.IsFinite :=
          fun m hm => hmembers m (List.mem_of_mem_filter hm)
        refine Ensures.mapError ((ensures_ofMembers hothers).bind fun fs hfs => ?_)
        exact ensures_build hfs _ (Json.mem_of_lookup hform)
    · exact hunknown _
  | _ => exact hunknown _

theorem ensures_listOfReading (r : Reading) :
    Ensures (listOfReading r) fun ops => ∀ op ∈ ops, op.Exact := by
  have hlist : Ensures (r.list fun item => ofText (item.value (Json.nestingLimit - 2)))
      fun vs => ∀ v ∈ vs, v.IsFinite := by
    cases r with
    | array items ending =>
      refine (ensures_mapM fun item _ => (Json.isFinite_value _ item).ofText).bind fun vs hvs => ?_
      exact (ensures_true _).bind fun _ _ => ensures_ok hvs
    | _ => exact (ensures_true _).bind fun _ _ => ensures_error _ _
  refine hlist.bind fun vs hvs => ensures_mapM fun entry hentry => ensures_ofElement _ ?_
  exact (hvs _ (List.fst_mem_of_mem_zipIdx hentry)).canonical

end Op

namespace Overlay

/-- **All operations of a decoded overlay are exact.** -/
theorem ensures_decode (source : String) :
    Ensures (decode source) fun o => ∀ op ∈ o.ops, op.Exact := by
  refine ensures_decodeText (fun r => ?_) source
  refine (ensures_true (shape.ofReading r)).bind fun fs _ => ?_
  have hops := ensures_get (Q := fun _ => True) (fun e (_ : e ∈ fs.entries) => trivial)
    (fun r _ => Op.ensures_listOfReading r) "ops"
  exact hops.bind fun ops hexact => ensures_ok hexact

/-- **Overlays there and back.** Exactly the overlays without an operation that is not known are encoded. What
was encoded is decoded exactly if all its numbers are finite, and then as what comes back of it operation by
operation. Where the digits of all numbers are read as these numbers, that is the overlay itself with its
numbers of grid lines rounded; so an overlay that was decoded once is then kept as it is. -/
theorem decode_encode (o : Overlay Float) :
    (o.encode?.isSome = true ↔ ∀ op ∈ o.ops, op.isUnknown = false) ∧
    (∀ text, o.encode? = some text →
      ((∃ o', decode text = .ok o') ↔ ∀ op ∈ o.ops, ∀ x ∈ op.numbers, x.isFinite = true) ∧
      ((∀ op ∈ o.ops, ∀ x ∈ op.numbers, x.isFinite = true) →
        decode text = .ok ⟨o.ops.map Op.reread⟩ ∧
        ((∀ op ∈ o.ops, ∀ x ∈ op.numbers, Double.reread x = x) →
          decode text = .ok ⟨o.ops.map Op.rounded⟩))) ∧
    (∀ source, decode source = .ok o → (∀ op ∈ o.ops, op.isUnknown = false) →
      ∃ text, o.encode? = some text ∧ decode text = .ok ⟨o.ops.map Op.reread⟩ ∧
        ((∀ op ∈ o.ops, ∀ x ∈ op.numbers, Double.reread x = x) → decode text = .ok o)) := by
  refine ⟨o.isSome_encode?_iff, fun text htext => ?_, fun source hsource hknown => ?_⟩
  · obtain ⟨hok, hfails⟩ := decode_encoded htext
    refine ⟨⟨?_, fun hfinite => ⟨_, hok hfinite⟩⟩, fun hfinite => ⟨hok hfinite, fun hback => ?_⟩⟩
    · rintro ⟨o', ho'⟩
      by_contra hinfinite
      exact hfails hinfinite o' ho'
    · rw [hok hfinite, map_reread_eq_map_rounded hback]
  · have hexact := ensures_decode source o hsource
    obtain ⟨text, htext⟩ := Option.isSome_iff_exists.1 (o.isSome_encode?_iff.2 hknown)
    have hdecode := (decode_encoded htext).1 fun op hop => (hexact op hop).finite
    refine ⟨text, htext, hdecode, fun hback => ?_⟩
    have hrounded : o.ops.map Op.rounded = o.ops :=
      (List.map_congr_left fun op hop => (hexact op hop).rounded).trans (List.map_id _)
    rw [hdecode, map_reread_eq_map_rounded hback, hrounded]

/-- Quotes, a character beyond the first hundred and lists of unequal lengths come back, and of two counts
the one that is no machine number is rounded. -/
theorem decode_encode_mixed :
    let x := Double.ofInt 3
    let o : Overlay Float := ⟨[.grid ⟨9007199254740993, by decide, by decide⟩ ⟨7, by decide, by decide⟩,
      .text "\"\u00e4\"" ⟨x, x⟩ none x true, .polyline [x, x] [x]]⟩
    ∃ text, o.encode? = some text ∧ decode text = .ok ⟨[
      .grid ⟨9007199254740992, by decide, by decide⟩ ⟨7, by decide, by decide⟩,
      .text "\"\u00e4\"" ⟨x, x⟩ none x true, .polyline [x, x] [x]]⟩ := by
  intro x o
  have hx : x.isFinite = true := Double.isFinite_ofInt (by decide)
  have hback : Double.reread x = x := Double.reread_ofInt (by decide) (by decide +kernel)
  have hnumbers : ∀ op ∈ o.ops, ∀ y ∈ op.numbers, y = x := by simp [o, Op.numbers]
  obtain ⟨hencode, hdecode, -⟩ := decode_encode o
  obtain ⟨text, htext⟩ := Option.isSome_iff_exists.1 (hencode.2 (by simp [o, Op.isUnknown]))
  obtain ⟨-, hfinite⟩ := hdecode text htext
  obtain ⟨-, hexact⟩ := hfinite fun op hop y hy => hnumbers op hop y hy ▸ hx
  have hrounded : LineCount.rounded ⟨9007199254740993, by decide, by decide⟩ =
      ⟨9007199254740992, by decide, by decide⟩ ∧
      LineCount.rounded ⟨7, by decide, by decide⟩ = ⟨7, by decide, by decide⟩ := by
    decide +kernel
  refine ⟨text, htext, ?_⟩
  rw [hexact fun op hop y hy => (hnumbers op hop y hy).symm ▸ hback]
  simp only [o, List.map_cons, List.map_nil, Op.rounded, hrounded]

end Overlay

end FieldDiagram
