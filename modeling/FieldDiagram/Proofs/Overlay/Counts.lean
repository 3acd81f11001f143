import FieldDiagram.Proofs.Json.Machine
import FieldDiagram.Proofs.Overlay.Exact
import FieldDiagram.Proofs.Overlay.Items
/-!
# Numbers of grid lines in documents

A number of grid lines may be spelled in any way that a number can be. Whatever the spelling is, it becomes
a machine number first; the count is that machine number, forced into sixty-four bits, and it is refused
if the machine number is not whole (`NumberToken.count_eq_ok_iff`). So the question what becomes of a count is
the question what the machine number has to do with the number that is spelled, and its answer depends on the
spelling. The rows here are those of `Proofs/Json/Machine`, as counts.

| spelling | machine number | count |
|---|---|---|
| digits alone, in sixty-four bits | the nearest one | off by one part in `2 ^ 53`, and exact where it is held |
| few digits, also with a point or a power of ten | the nearest one | the same, and a fraction is refused |
| anything else | within four roundings | off by one part in `2 ^ 50`, or none of next to nothing |

In the first two rows only the value counts, and two spellings of it are the same count. In the last row the
spelling does: a count with seventeen digits may become another one by a point and a zero at its end, and
a number with a fraction may be taken. `Overlay.decode_counts` has the rows as they stand, and
`Overlay.counts_not_exact` one input for each thing that is not promised.
-/

namespace FieldDiagram

open Json (Value Reading Number NumberToken)

/-! ## Counts

The reader of counts sees a machine number and nothing of the token. -/

namespace Json.NumberToken

/-- The number of grid lines that a token is read as. -/
def count (t : NumberToken) : Decoded LineCount := do (← (Reading.number t).found).toCount

theorem count_of_machine? {t : NumberToken} {x : Float} (h : t.machine? = some x) :
    t.count = match Double.whole? x with
      | some k => .ok (.saturating k)
      | none => refuse (.fractionalCount x) := by
  obtain ⟨n, hn, rfl⟩ := Option.map_eq_some_iff.1 h
  have hfound : (Reading.number t).found = .ok (Value.number n).found := by
    rw [Reading.found, hn]
  have htoReal : (Value.number n).found.toReal = .ok n.toFloat := by
    cases n <;> rfl
  rw [count, hfound]
  change (Value.number n).found.toCount = _
  rw [Found.toCount, htoReal]
  rfl

/-- **A token is taken exactly if its machine number is whole.** -/
theorem count_eq_ok_iff {t : NumberToken} (c : LineCount) :
    t.count = .ok c ↔ ∃ x k, t.machine? = some x ∧ Double.whole? x = some k ∧ c = .saturating k := by
  cases hx : t.machine? with
  | none =>
    have hn : Number.ofToken? t = none := Option.map_eq_none_iff.1 hx
    have hcount : ∃ e, t.count = .error e := by
      rw [count, Reading.found, hn]
      exact ⟨_, rfl⟩
    obtain ⟨e, he⟩ := hcount
    rw [he]
    constructor
    · intro hc
      cases hc
    · rintro ⟨x, k, hmachine, -⟩
      cases hmachine
  | some x =>
    rw [count_of_machine? hx]
    cases hk : Double.whole? x with
    | none =>
      constructor
      · intro hc
        cases hc
      · rintro ⟨x', k, hx', hk', -⟩
        rw [← Option.some.inj hx', hk] at hk'
        cases hk'
    | some k =>
      constructor
      · intro hc
        exact ⟨x, k, rfl, hk, (Except.ok.inj hc).symm⟩
      · rintro ⟨x', k', hx', hk', rfl⟩
        rw [← Option.some.inj hx', hk] at hk'
        rw [Option.some.inj hk']

section Nearest

variable {t : NumberToken} (h : t.IsPlain ∨ t.IsShort)

theorem value_of_negative : t.negative = true → t.value ≤ 0 := by
  intro h
  rw [value, if_pos h]
  linarith [t.decimal.value_nonneg]

theorem value_of_not_negative : t.negative = false → 0 ≤ t.value := by
  intro h
  rw [value, h]
  exact t.decimal.value_nonneg

/-- A token that is not read as zero has the sign of its value. -/
theorem negative_eq (h : t.value ≠ 0) : t.negative = decide (t.value < 0) := by
  cases hnegative : t.negative with
  | true =>
    have hle := value_of_negative hnegative
    exact (decide_eq_true (lt_of_le_of_ne hle h)).symm
  | false =>
    have hge := value_of_not_negative hnegative
    exact (decide_eq_false (not_lt.2 hge)).symm

include h

/-- The value of a plain or short token is whole, or it has few digits behind the point. -/
theorem exists_scaled : (∃ z : Int, t.value = z) ∨
    ∃ (m : Nat) (c : Int), m ≤ 22 ∧ t.value * 10 ^ m = c ∧ |c| = t.decimal.coefficient := by
  have hsigned : ∀ n : Nat, ∃ z : Int, (if t.negative then -(n : ℚ) else n) = z ∧ |z| = n := by
    intro n
    cases t.negative with
    | false => exact ⟨n, by simp, by simp⟩
    | true => exact ⟨-n, by simp, by simp⟩
  -- a plain token is whole, and so is any other unless its exponent is negative
  rcases h with hplain | hshort
  · left
    obtain ⟨z, hz, -⟩ := hsigned (ofDigits t.whole)
    exact ⟨z, by rw [value, hplain.value_decimal, hz]⟩
  · have hexponent := hshort.exponent
    cases he : t.decimal.exponent with
    | ofNat e =>
      left
      obtain ⟨z, hz, -⟩ := hsigned (t.decimal.coefficient * 10 ^ e)
      refine ⟨z, ?_⟩
      rw [value, Decimal.value, he, Int.ofNat_eq_natCast, zpow_natCast, ← hz]
      push_cast
      rfl
    | negSucc e =>
      right
      rw [he] at hexponent
      obtain ⟨c, hc, hsize⟩ := hsigned t.decimal.coefficient
      refine ⟨e + 1, c, hexponent, ?_, hsize⟩
      rw [value, Decimal.value, he, zpow_negSucc, ← hc]
      cases t.negative with
      | false => rw [if_neg Bool.false_ne_true, if_neg Bool.false_ne_true]; field_simp
      | true => rw [if_pos rfl, if_pos rfl]; field_simp

theorem whole?_nearest : Double.whole? t.nearest = Double.nearestWhole? t.value := by
  rw [Double.whole?, nearest, Double.parts_ofPattern _ (nearest_lt_infinity h), Double.nearestWhole?]
  dsimp only
  by_cases hzero : t.value = 0
  · -- zero has either sign
    have hfloor : BinaryFormat.double.floor (BinaryFormat.double.nearest |t.value|) = 0 := by
      rw [hzero, abs_zero, BinaryFormat.nearest_zero]
      decide
    rw [hfloor]
    simp
  · rw [negative_eq hzero]
    simp only [decide_eq_true_eq]

theorem count_eq_ok_iff_nearestWhole? (c : LineCount) :
    t.count = .ok c ↔ ∃ k, Double.nearestWhole? t.value = some k ∧ c = .saturating k := by
  rw [count_eq_ok_iff, machine?_eq_nearest h, ← whole?_nearest h]
  constructor
  · rintro ⟨x, k, hx, hk, hc⟩
    exact ⟨k, Option.some.inj hx ▸ hk, hc⟩
  · rintro ⟨k, hk, hc⟩
    exact ⟨_, k, rfl, hk, hc⟩

/-- **Two spellings of one value are taken alike**, and refused alike, if both are plain or short. -/
theorem count_congr {t' : NumberToken} (h' : t'.IsPlain ∨ t'.IsShort) (hvalue : t'.value = t.value) :
    t'.count = t.count := by
  rw [count_of_machine? (machine?_eq_nearest h), count_of_machine? (machine?_eq_nearest h'),
    whole?_nearest h, whole?_nearest h', hvalue]
  cases hwhole : Double.nearestWhole? t.value with
  | some k => rfl
  | none =>
    -- zero is whole, so both spellings have the sign of the value
    have hzero : t.value ≠ 0 := by
      intro hzero
      have hcast : t.value = (0 : Int) := by rw [hzero, Int.cast_zero]
      obtain ⟨k, hk, -⟩ := Double.nearestWhole?_intCast (nearest_lt_infinity h) hcast
      rw [hk] at hwhole
      cases hwhole
    have hnearest : t'.nearest = t.nearest := by
      rw [nearest, nearest, hvalue, negative_eq hzero, negative_eq (by rwa [hvalue]), hvalue]
    rw [hnearest]

/-- **A token of few digits is taken exactly if its value is whole.** -/
theorem exists_count_iff (hfew : t.decimal.coefficient < 2 ^ 53) :
    (∃ c, t.count = .ok c) ↔ ∃ z : Int, t.value = z := by
  have hfinite := nearest_lt_infinity h
  constructor
  · rintro ⟨c, hc⟩
    obtain ⟨k, hk, -⟩ := (count_eq_ok_iff_nearestWhole? h c).1 hc
    rcases exists_scaled h with hwhole | ⟨m, digits, hm, hscale, hdigits⟩
    · exact hwhole
    · exact ⟨k, Double.eq_of_nearestWhole? hfinite hk hm hscale (by omega)⟩
  · rintro ⟨z, hz⟩
    obtain ⟨k, hk, -⟩ := Double.nearestWhole?_intCast hfinite hz
    exact ⟨_, (count_eq_ok_iff_nearestWhole? h _).2 ⟨k, hk, rfl⟩⟩

end Nearest

theorem value_of_decimal {t : NumberToken} {d : Decimal} (hpositive : t.negative = false)
    (hdecimal : t.decimal = d) : t.value = d.value := by
  rw [value, hpositive, hdecimal]
  rfl

theorem count_of_value {t : NumberToken} {c : LineCount}
    (h : t.count.toOption.map LineCount.value = some c.value) : t.count = .ok c := by
  cases hcount : t.count with
  | error e =>
    rw [hcount] at h
    cases h
  | ok c' =>
    rw [hcount] at h
    have hvalue : c'.value = c.value := Option.some.inj h
    cases c
    cases c'
    dsimp only at hvalue
    subst hvalue
    rfl

/-- Inside an overlay a token is read as it is read on its own. -/
theorem toCount_of_ofToken? {t : NumberToken} {n : Number} (h : Number.ofToken? t = some n) :
    (Value.number n).toCount = t.count := by
  have hfound : (Reading.number t).found = .ok (Value.number n).found := by
    rw [Reading.found, h]
  rw [count, hfound]
  rfl

end Json.NumberToken

/-- A written count is read back as it was exactly if a machine number holds it, or if it is the greatest
one, to which the nearest machine number is forced back. -/
theorem LineCount.rounded_eq_self_iff (c : LineCount) :
    c.rounded = c ↔ Double.Holds c.value ∨ c.value = 9223372036854775807 := by
  obtain ⟨n, hn, hrounded⟩ := c.exists_rounded_eq
  have hself : n = c.value ↔ Double.Holds c.value := by
    rw [Double.whole?_ofInt c.natAbs_le] at hn
    rw [Double.Holds, ← BinaryFormat.double.floor_ofNat_eq_self_iff (Double.ofNat_lt_infinity c.natAbs_le),
      ← Option.some.inj hn]
    split <;> omega
  rw [hrounded, ← hself]
  obtain ⟨value, hlower, hupper⟩ := c
  simp only [LineCount.saturating, LineCount.mk.injEq] at hn hself ⊢
  constructor
  · intro h
    by_cases hleast : value = -9223372036854775808
    · -- the least count is a power of two, and held
      left
      rw [hleast, whole?_least] at hn
      rw [hleast, ← Option.some.inj hn]
    · omega
  · rintro (rfl | rfl)
    · omega
    · rw [whole?_greatest] at hn
      rw [← Option.some.inj hn]
      decide

/-! ## Grids

A grid asks for two counts under two names, and each of them is read by itself. -/

namespace Op

theorem toCount_canonical (v : Value) : v.canonical.toCount = v.toCount :=
  congrArg Found.toCount v.found_canonical

section Grid

variable {ms : List (String × Value)} {horizontal vertical : Value}
  (hhorizontal : ms.lookup "numHorizontal" = some horizontal.canonical)
  (hvertical : ms.lookup "numVertical" = some vertical.canonical)

include hhorizontal hvertical

/-- The rules of a grid ask for the two counts and for nothing else. -/
theorem grid_rules_met_iff :
    (∀ rule ∈ rulesOf "grid", rule.Met (ms.lookup rule.name)) ↔
      (∃ c, horizontal.toCount = .ok c) ∧ ∃ c', vertical.toCount = .ok c' := by
  have hgrid : rulesOf "grid" = [.needs .count "numHorizontal", .needs .count "numVertical"] := rfl
  rw [hgrid, List.forall_mem_cons, List.forall_mem_singleton, FieldRule.name_needs,
    FieldRule.name_needs, hhorizontal, hvertical, ← toCount_canonical horizontal,
    ← toCount_canonical vertical]
  exact and_congr (FieldSort.takes_decode .count _).succeeds_iff.symm
    (FieldSort.takes_decode .count _).succeeds_iff.symm

/-- A grid is built from its counts, in the order in which they are asked for. -/
theorem build_grid {form : OpForm} (hform : forms.lookup "grid" = some form) :
    form.build (RecordShape.byName (ms.filter (form.shape.knows ·.1))) = do
      let c ← horizontal.toCount
      let c' ← vertical.toCount
      return .grid c c' := by
  have hget : ∀ (name : String) (v : Value), form.shape.knows name = true →
      ms.lookup name = some v.canonical →
      (RecordShape.byName (ms.filter (form.shape.knows ·.1))).get name Value.toCount = v.toCount := by
    intro name v hknows hv
    rw [Fields.get, RecordShape.byName, Json.lookup_filter_fst form.shape.knows, if_pos hknows, hv]
    exact toCount_canonical v
  obtain rfl := Option.some.inj hform
  rw [← hget "numHorizontal" horizontal rfl hhorizontal, ← hget "numVertical" vertical rfl hvertical]
  rfl

end Grid

/-- An element that asks for a grid is decoded as the counts that stand in it, if they can be taken. -/
theorem ofElement_grid_iff {element horizontal vertical : Value}
    (htag : element.member? tag = some (.string "grid"))
    (hhorizontal : element.member? "numHorizontal" = some horizontal)
    (hvertical : element.member? "numVertical" = some vertical) (index : Nat) (op : Op Float) :
    ofElement index element.canonical = .ok op ↔
      ∃ c c', horizontal.toCount = .ok c ∧ vertical.toCount = .ok c' ∧ op = .grid c c' := by
  obtain ⟨form, hform⟩ : ∃ form, forms.lookup "grid" = some form := ⟨_, rfl⟩
  have hasks := asks_of_lookup "grid"
  rw [hform] at hasks
  have hlookup : ∀ name v, name ≠ tag → element.member? name = some v →
      (element.canonical.members.filter (·.1 ≠ tag)).lookup name = some v.canonical := by
    intro name v hname hv
    rw [Json.lookup_filter_fst (· ≠ tag), element.lookup_members_canonical, hv]
    exact if_pos (decide_eq_true hname)
  have hfirst := hlookup _ _ (by decide) hhorizontal
  have hsecond := hlookup _ _ (by decide) hvertical
  rw [ofElement_canonical, elementKind_of_text htag, hform]
  dsimp only
  rw [mapError_eq_ok_iff, ofMembers_eq_ok_iff hasks.2 (element.distinctNames_members_canonical.filter _),
    grid_rules_met_iff hfirst hsecond, build_grid hfirst hsecond hform]
  constructor
  · rintro ⟨⟨⟨c, hc⟩, c', hc'⟩, hop⟩
    rw [hc, hc'] at hop
    exact ⟨c, c', hc, hc', (Except.ok.inj hop).symm⟩
  · rintro ⟨c, c', hc, hc', rfl⟩
    rw [hc, hc']
    exact ⟨⟨⟨c, rfl⟩, c', rfl⟩, rfl⟩

end Op

namespace Overlay

/-- Each element of a decoded text is decoded at its place. -/
theorem ofElement_of_decode {text : String} {vs : List Value} {o : Overlay Float} {element : Value}
    {i : Nat} (helements : elements text = .ok vs) (hdecode : decode text = .ok o)
    (helement : vs[i]? = some element) :
    ∃ op, Op.ofElement i element.canonical = .ok op ∧ o.ops[i]? = some op := by
  rw [decode_of_elements helements] at hdecode
  obtain ⟨ops, hops, rfl⟩ := exists_of_map hdecode
  unfold Op.listOfValues at hops
  obtain ⟨hlength, hplaces⟩ := List.forall₂_iff_get.1 (mapM_eq_ok_iff.1 hops)
  rw [List.length_zipIdx] at hlength
  obtain ⟨hi, rfl⟩ := List.getElem?_eq_some_iff.1 helement
  have hplace := hplaces i (by rwa [List.length_zipIdx]) (by omega)
  rw [List.get_eq_getElem, List.getElem_zipIdx, Nat.zero_add] at hplace
  exact ⟨_, hplace, List.getElem?_eq_getElem _⟩

/-- A written grid is read back as it was exactly if both its counts are. -/
theorem decode_written_grid {c c' : LineCount} {text : String}
    (h : encode? (⟨[.grid c c']⟩ : Overlay Float) = some text) :
    decode text = .ok ⟨[.grid c c']⟩ ↔ c.rounded = c ∧ c'.rounded = c' := by
  have hread : decode text = .ok ⟨[.grid c.rounded c'.rounded]⟩ := by
    apply (decode_encoded h).1
    intro op hop x hx
    rw [List.mem_singleton.1 hop] at hx
    cases hx
  rw [hread]
  simp only [Except.ok.injEq, Overlay.mk.injEq, List.cons.injEq, Op.grid.injEq, and_true]

/-- **Numbers of grid lines are read as machine numbers.** A count is taken exactly if the machine number that
it is read as is whole, and then as that whole number, forced into sixty-four bits.

* Digits alone that fit sixty-four bits, and few digits with a point or a power of ten, are read as the nearest
  machine number. Then the count is told by the value: a whole number is taken, as itself exactly if a machine
  number holds it and otherwise off by at most one part in two to the fifty-third; a number that is not whole
  is refused if it has fewer digits than a significand; and two spellings of one value are the same count.
* Whatever the spelling is, a value up to the fifth largest machine number is read, and from two to the
  fifty-third on it is taken, with a fraction or without. What is taken is within one part in two to the
  fiftieth of the value, or it is zero and the value next to nothing.
* A grid in an overlay has the counts that are read there, and one that was written is read back exactly if a
  machine number holds its counts, or they are the greatest ones. -/
theorem decode_counts (t : NumberToken) (ht : t.WellFormed)
    (hexponent : (t.exponent.getD 0).natAbs ≤ Json.exponentLimit) :
    (∀ c, t.count = .ok c ↔
      ∃ x k, t.machine? = some x ∧ Double.whole? x = some k ∧ c = .saturating k) ∧
    (t.IsPlain ∨ t.IsShort →
      (∀ c, t.count = .ok c ↔ ∃ k, Double.nearestWhole? t.value = some k ∧ c = .saturating k) ∧
      (∀ z : Int, t.value = z → ∃ k, Double.nearestWhole? t.value = some k ∧
        2 ^ 53 * |k - z| ≤ |z| ∧ (k = z ↔ Double.Holds z)) ∧
      (t.decimal.coefficient < 2 ^ 53 → ((∃ c, t.count = .ok c) ↔ ∃ z : Int, t.value = z)) ∧
      ∀ t' : NumberToken, t'.IsPlain ∨ t'.IsShort → t'.value = t.value → t'.count = t.count) ∧
    (|t.value| ≤ Double.scaleLimit →
      (∃ x, t.machine? = some x) ∧ (2 ^ 53 ≤ |t.value| → ∃ c, t.count = .ok c)) ∧
    (∀ x k, t.machine? = some x → Double.whole? x = some k →
      2 ^ 50 * |k - t.value| ≤ |t.value| ∨ k = 0 ∧ |t.value| ≤ 1 / 2 ^ 900) ∧
    (∀ (t' : NumberToken) (n n' : Number) (element : Value), Number.ofToken? t = some n →
      Number.ofToken? t' = some n' → element.member? Op.tag = some (.string "grid") →
      element.member? "numHorizontal" = some (.number n) →
      element.member? "numVertical" = some (.number n') →
      (∀ index c c', t.count = .ok c → t'.count = .ok c' →
        Op.ofElement index element.canonical = .ok (.grid c c')) ∧
      ∀ text vs o (i : Nat), elements text = .ok vs → vs[i]? = some element → decode text = .ok o →
        ∃ c c', t.count = .ok c ∧ t'.count = .ok c' ∧ o.ops[i]? = some (Op.grid c c')) ∧
    ∀ (c c' : LineCount) text, encode? (⟨[.grid c c']⟩ : Overlay Float) = some text →
      (decode text = .ok ⟨[.grid c c']⟩ ↔
        (Double.Holds c.value ∨ c.value = 9223372036854775807) ∧
          (Double.Holds c'.value ∨ c'.value = 9223372036854775807)) := by
  refine ⟨NumberToken.count_eq_ok_iff, fun h => ⟨NumberToken.count_eq_ok_iff_nearestWhole? h, fun z =>
      Double.nearestWhole?_intCast (NumberToken.nearest_lt_infinity h), NumberToken.exists_count_iff h,
      fun t' => NumberToken.count_congr h⟩, fun hlimit => ?any,
    fun x k hx hk => NumberToken.dist_of_whole? ht hexponent hx hk, ?grid, ?written⟩
  case any =>
    obtain ⟨x, hx⟩ := NumberToken.exists_machine? ht hexponent hlimit
    refine ⟨⟨x, hx⟩, fun hlarge => ?_⟩
    obtain ⟨k, hk⟩ := NumberToken.exists_whole?_of_le ht hexponent hlarge hx
    exact ⟨_, (NumberToken.count_eq_ok_iff _).2 ⟨x, k, hx, hk, rfl⟩⟩
  case grid =>
    intro t' n n' element hn hn' htag hhorizontal hvertical
    have hiff := Op.ofElement_grid_iff htag hhorizontal hvertical
    rw [NumberToken.toCount_of_ofToken? hn, NumberToken.toCount_of_ofToken? hn'] at hiff
    constructor
    · intro index c c' hc hc'
      exact (hiff index _).2 ⟨c, c', hc, hc', rfl⟩
    · intro text vs o i helements helement hdecode
      obtain ⟨op, hop, hplace⟩ := ofElement_of_decode helements hdecode helement
      obtain ⟨c, c', hc, hc', rfl⟩ := (hiff i op).1 hop
      exact ⟨c, c', hc, hc', hplace⟩
  case written =>
    intro c c' text htext
    rw [decode_written_grid htext, c.rounded_eq_self_iff, c'.rounded_eq_self_iff]

/-- Seven lines in two spellings, in an overlay with three lines across; seven and a half of them, which are
refused; and the least count of all. -/
theorem decode_counts_of_seven :
    let seven : NumberToken := ⟨false, ['7'], ['0'], none⟩
    let spelled : NumberToken := ⟨false, ['7', '0', '0'], [], some (-2)⟩
    let half : NumberToken := ⟨false, ['7'], ['5'], none⟩
    let three : NumberToken := ⟨false, ['3'], [], none⟩
    let least : LineCount := ⟨-9223372036854775808, by decide, by decide⟩
    seven.WellFormed ∧ seven.count = .ok ⟨7, by decide, by decide⟩ ∧ spelled.count = seven.count ∧
      (¬ ∃ c, half.count = .ok c) ∧
      (∃ n n', Number.ofToken? seven = some n ∧ Number.ofToken? three = some n' ∧
        Op.ofElement 0 (Value.object [("type", .string "grid"), ("numHorizontal", .number n),
            ("numVertical", .number n')]).canonical =
          .ok (.grid ⟨7, by decide, by decide⟩ ⟨3, by decide, by decide⟩)) ∧
      ∃ text, encode? (⟨[.grid least least]⟩ : Overlay Float) = some text ∧
        decode text = .ok ⟨[.grid least least]⟩ := by
  intro seven spelled half three least
  have hseven : seven.value = (7 : Int) := by
    rw [NumberToken.value_of_decimal (d := ⟨70, -1⟩) rfl (by decide +kernel), Decimal.value]
    norm_num
  have hspelled : spelled.value = (7 : Int) := by
    rw [NumberToken.value_of_decimal (d := ⟨700, -2⟩) rfl (by decide +kernel), Decimal.value]
    norm_num
  have hhalf : half.value = 75 / 10 := by
    rw [NumberToken.value_of_decimal (d := ⟨75, -1⟩) rfl (by decide +kernel), Decimal.value]
    norm_num
  have hwell : ∀ d : Char, d.isDigit = true → NumberToken.WellFormed ⟨false, ['7'], [d], none⟩ := fun d hd =>
    ⟨List.forall_mem_singleton.2 rfl, List.cons_ne_nil _ _,
      fun hhead => absurd (Option.some.inj hhead) (by decide), List.forall_mem_singleton.2 hd⟩
  obtain ⟨-, hnearest, -, -, hgrid, hwritten⟩ := decode_counts seven (hwell '0' rfl) (by decide +kernel)
  obtain ⟨htaken, hwhole, -, hspelling⟩ := hnearest (.inr (by decide +kernel))
  have hcount : seven.count = .ok ⟨7, by decide, by decide⟩ := by
    obtain ⟨k, hk, -, hexact⟩ := hwhole 7 hseven
    obtain rfl := hexact.2 (BinaryFormat.double.holds_of_le (by decide +kernel))
    exact (htaken _).2 ⟨7, hk, rfl⟩
  refine ⟨hwell '0' rfl, hcount, hspelling spelled (.inr (by decide +kernel)) (hspelled.trans hseven.symm), ?_, ?_,
    ?_⟩
  · obtain ⟨-, hnearest, -⟩ := decode_counts half (hwell '5' rfl) (by decide +kernel)
    obtain ⟨-, -, hfraction, -⟩ := hnearest (.inr (by decide +kernel))
    rw [hfraction (by decide +kernel), hhalf]
    rintro ⟨z, hz⟩
    rw [div_eq_iff (by norm_num)] at hz
    have hint : (75 : Int) = z * 10 := by exact_mod_cast hz
    omega
  · obtain ⟨n, hn⟩ : ∃ n, Number.ofToken? seven = some n :=
      Option.isSome_iff_exists.1 (by decide +kernel)
    refine ⟨n, .integer 3, hn, rfl, ?_⟩
    have hthree : three.count = .ok ⟨3, by decide, by decide⟩ :=
      NumberToken.count_of_value (by decide +kernel)
    exact (hgrid three n (.integer 3) _ hn rfl rfl rfl rfl).1 0 _ _ hcount hthree
  · obtain ⟨text, htext⟩ := Option.isSome_iff_exists.1
      (show (encode? (⟨[.grid least least]⟩ : Overlay Float)).isSome = true from rfl)
    have hheld : Double.Holds least.value := ⟨63, by decide, by decide +kernel⟩
    exact ⟨text, htext, (hwritten least least text htext).2 ⟨.inl hheld, .inl hheld⟩⟩

/-- What is not promised. A whole number that no machine number holds is taken for another one, and for a
third one with a point and a zero at its end; a number with a fraction is taken, and so is one that is not
zero as zero; and with enough digits even a whole number that is held is taken for another one. -/
theorem counts_not_exact :
    let whole : NumberToken := ⟨false, "9007199254740993".toList, [], none⟩
    let pointed : NumberToken := ⟨false, "9007199254740993".toList, ['0'], none⟩
    let half : NumberToken := ⟨false, "4503599627370496".toList, ['5'], none⟩
    let small : NumberToken := ⟨false, ['1'], [], some (-400)⟩
    let held : NumberToken := ⟨false, "9007199254740991".toList, ['0'], none⟩
    (whole.value = 9007199254740993 ∧ whole.count = .ok ⟨9007199254740992, by decide, by decide⟩) ∧
      (pointed.value = whole.value ∧ pointed.count = .ok ⟨9007199254740994, by decide, by decide⟩) ∧
      ((∀ z : Int, half.value ≠ z) ∧ half.count = .ok ⟨4503599627370497, by decide, by decide⟩) ∧
      ((∀ z : Int, small.value ≠ z) ∧ small.count = .ok ⟨0, by decide, by decide⟩) ∧
      held.value = 9007199254740991 ∧ Double.Holds 9007199254740991 ∧
      held.count = .ok ⟨9007199254740990, by decide, by decide⟩ := by
  intro whole pointed half small held
  have hwhole : whole.value = 9007199254740993 := by
    rw [NumberToken.value_of_decimal (d := ⟨9007199254740993, 0⟩) rfl (by decide +kernel), Decimal.value]
    norm_num
  have hpointed : pointed.value = 9007199254740993 := by
    rw [NumberToken.value_of_decimal (d := ⟨90071992547409930, -1⟩) rfl (by decide +kernel), Decimal.value]
    norm_num
  have hhalf : half.value = 45035996273704965 / 10 := by
    rw [NumberToken.value_of_decimal (d := ⟨45035996273704965, -1⟩) rfl (by decide +kernel), Decimal.value]
    norm_num
  have hheld : held.value = 9007199254740991 := by
    rw [NumberToken.value_of_decimal (d := ⟨90071992547409910, -1⟩) rfl (by decide +kernel), Decimal.value]
    norm_num
  refine ⟨⟨hwhole, NumberToken.count_of_value (by decide +kernel)⟩,
    ⟨hpointed.trans hwhole.symm, NumberToken.count_of_value (by decide +kernel)⟩,
    ⟨?_, NumberToken.count_of_value (by decide +kernel)⟩,
    ⟨?_, NumberToken.count_of_value (by decide +kernel)⟩, hheld,
    BinaryFormat.double.holds_of_le (by decide +kernel), NumberToken.count_of_value (by decide +kernel)⟩
  · intro z hz
    rw [hhalf, div_eq_iff (by norm_num)] at hz
    have hint : (45035996273704965 : Int) = z * 10 := by exact_mod_cast hz
    omega
  · intro z hz
    have hsmall : small.value = 1 / 10 ^ 400 := by
      rw [NumberToken.value_of_decimal (d := ⟨1, -400⟩) rfl (by decide +kernel), Decimal.value]
      rw [Nat.cast_one, one_mul, zpow_neg, one_div]
      rfl
    have hpos : (0 : ℚ) < 1 / 10 ^ 400 := by positivity
    have hless : (1 : ℚ) / 10 ^ 400 < 1 := by
      rw [div_lt_one (by positivity)]
      exact one_lt_pow₀ (by norm_num) (by decide)
    rw [← hsmall, hz] at hpos hless
    have hlower : 0 < z := by exact_mod_cast hpos
    have hupper : z < 1 := by exact_mod_cast hless
    omega

end Overlay

end FieldDiagram
