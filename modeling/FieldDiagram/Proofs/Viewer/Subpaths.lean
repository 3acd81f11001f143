import FieldDiagram.Proofs.Decimal.Sign
import FieldDiagram.Proofs.History
import FieldDiagram.Proofs.Scalar.Exact
import FieldDiagram.Viewer.Flatten
import Mathlib.Data.List.SplitBy
/-!
# The subpaths of a path

A path falls into runs of elements: a move is in no run with what comes before it, and closing is in no
run with what comes after it. Each run with a point in it is one subpath of exactly its points, and that
is closed if the run ends with closing. So flattening loses no point, doubles none and makes up none, and
a path can be cut at the end of a run and flattened part by part.

Main statement: `flatten_flattens`.
-/

namespace FieldDiagram

/-! ## Points of an arc

An arc is the one element that brings many points. How many depends on its sweep, and is a number of the
machine; that the points run from the one end of the arc to the other is a fact of exact numbers only. -/

/-- The angle of an end of a segment, the first having number zero. -/
def arcAngle {α : Type} [Scalar α] (startAngle endAngle : α) (segments i : Nat) : α :=
  startAngle + (endAngle - startAngle) * Scalar.ofNat i / Scalar.ofNat segments

/-- In exact numbers the ends of the segments begin where the arc does, and end where it does. -/
theorem arcAngle_ends (startAngle endAngle : ℝ) {segments : Nat} (h : 1 ≤ segments) :
    arcAngle startAngle endAngle segments 0 = startAngle ∧
      arcAngle startAngle endAngle segments segments = endAngle := by
  have hne : (segments : ℝ) ≠ 0 := Nat.cast_ne_zero.2 (by omega)
  unfold arcAngle
  rw [Scalar.ofNat_real, Scalar.ofNat_real, mul_div_cancel_right₀ _ hne]
  constructor
  · simp
  · ring

theorem arcSegments_bounds (sweep : Float) : 1 ≤ arcSegments sweep ∧ arcSegments sweep < 2 ^ 64 := by
  unfold arcSegments
  dsimp only
  generalize sweep.abs / Double.fullTurn * Double.ofInt circleSegments = share
  by_cases hnan : Double.parts share = .nan
  · -- what is no number makes one segment
    have hzero : Double.roundWithin BinaryFormat.double.ceil 0 18446744073709551615 share = 0 := by
      rw [Double.roundWithin, hnan]
    rw [hzero]
    omega
  · have hmem := Double.roundWithin_mem BinaryFormat.double.ceil
      (show (0 : Int) ≤ 18446744073709551615 by omega) hnan
    omega

/-- In machine numbers they begin where the arc does if its sweep is finite. -/
theorem arcAngle_zero_beq {startAngle endAngle : Float} {segments : Nat} (hpos : 1 ≤ segments)
    (hlt : segments < 2 ^ 64) (hsweep : (endAngle - startAngle).isFinite = true) :
    (arcAngle startAngle endAngle segments 0 == startAngle) = true := by
  have hzero : Double.parts (Double.ofInt 0) = .finite false (BinaryFormat.double.ofNat 0) :=
    Double.parts_ofInt (by decide)
  have hnone : BinaryFormat.double.ofNat 0 = 0 := by decide
  have hparts := Double.parts_ofInt (n := (segments : Int)) (by omega)
  rw [Int.natAbs_natCast] at hparts
  rw [hnone] at hzero
  obtain ⟨n, hproduct⟩ := Double.parts_mul_zero hsweep hzero
  obtain ⟨m, hquotient⟩ := Double.parts_zero_div hproduct hparts (Double.ofNat_pos (by omega))
  exact Double.add_zero_beq (Double.isFinite_of_sub hsweep) hquotient

/-- The point of a circle at an angle. -/
def onCircle (center : Point Float) (radius angle : Float) : Point Float :=
  ⟨center.x + angle.cos * radius, center.y + angle.sin * radius⟩

/-- The points of an arc: one more than it has segments, on its circle, and at angles that are spread
evenly from its start to its end. -/
structure IsArc (center : Point Float) (radius startAngle endAngle : Float)
    (points : List (Point Float32)) : Prop where
  some_segment : 1 ≤ arcSegments (endAngle - startAngle)
  length : points.length = arcSegments (endAngle - startAngle) + 1
  point : ∀ i ≤ arcSegments (endAngle - startAngle), points[i]? = some (onCircle center radius
    (arcAngle startAngle endAngle (arcSegments (endAngle - startAngle)) i)).toSingle
  first : (endAngle - startAngle).isFinite = true →
    (arcAngle startAngle endAngle (arcSegments (endAngle - startAngle)) 0 == startAngle) = true

theorem isArc_points (center : Point Float) (radius startAngle endAngle : Float) :
    IsArc center radius startAngle endAngle
      (PathElement.arc center radius startAngle endAngle).points := by
  obtain ⟨hpos, hlt⟩ := arcSegments_bounds (endAngle - startAngle)
  refine ⟨hpos, ?_, ?_, arcAngle_zero_beq hpos hlt⟩
  · rw [PathElement.points, List.length_map, length_arcPoints]
  · intro i hi
    rw [PathElement.points, arcPoints, List.map_map, List.getElem?_map,
      List.getElem?_range (by omega)]
    rfl

/-! ## Runs of elements

What flattening has to come to is said here without an accumulator: by cutting the path where two neighbours
are no parts of one subpath. `Flattens` is the statement that the rest of the module is about. -/

namespace PathElement

/-- Whether an element is a move. -/
def isMove : PathElement Float → Bool
  | moveTo _ => true
  | _ => false

/-- Whether an element is a closing. -/
def isClose : PathElement Float → Bool
  | close => true
  | _ => false

/-- Whether neighbours are parts of one subpath: the first does not close it, and the second does not
move away from it. -/
def joins (e f : PathElement Float) : Bool := !e.isClose && !f.isMove

theorem isClose_iff {e : PathElement Float} : e.isClose = true ↔ e = close := by
  cases e <;> simp [isClose]

theorem isMove_iff {e : PathElement Float} : e.isMove = true ↔ ∃ p, e = moveTo p := by
  cases e <;> simp [isMove]

theorem joins_eq_false_iff {e f : PathElement Float} :
    e.joins f = false ↔ e = close ∨ ∃ p, f = moveTo p := by
  rw [joins, Bool.and_eq_false_iff, Bool.not_eq_false', Bool.not_eq_false', isClose_iff, isMove_iff]

end PathElement

/-- A path, cut before each move and after each closing. -/
def runs (path : List (PathElement Float)) : List (List (PathElement Float)) :=
  path.splitBy PathElement.joins

/-- The subpath of a run, if there is a point in it. -/
def Subpath.ofRun? (run : List (PathElement Float)) : Option Subpath :=
  if run.flatMap PathElement.points = [] then none
  else some ⟨run.flatMap PathElement.points, run.getLast?.any PathElement.isClose⟩

/-- The points that a boundary leaves of all points up to it. A move is a boundary in front of its own
point, and closing is one behind all points before it. -/
def PathElement.boundary? (e : PathElement Float) : Option (List (Point Float32)) :=
  if e.isMove || e.isClose then some e.points else none

/-- The points since the last boundary. -/
def pointsSince (path : List (PathElement Float)) : List (Point Float32) :=
  match sinceLatest? PathElement.boundary? path with
  | none => path.flatMap PathElement.points
  | some (start, later) => start ++ later.flatMap PathElement.points

/-- How many closings of a path have a point between them and the last boundary. -/
def closings (path : List (PathElement Float)) : Nat :=
  path.zipIdx.countP fun (e, i) => e.isClose && !(pointsSince (path.take i)).isEmpty

/-- The points that an element has: a move and a line have the one they lead to, an arc has those of its
segments, and closing has none. -/
def PathElement.Has : PathElement Float → List (Point Float32) → Prop
  | moveTo p, points => points = [p.toSingle]
  | lineTo p, points => points = [p.toSingle]
  | arc center radius startAngle endAngle, points => IsArc center radius startAngle endAngle points
  | close, points => points = []

/-- What flattening makes of a path. -/
structure Flattens (path : List (PathElement Float)) (subpaths : List Subpath) : Prop where
  /-- The points of all subpaths are those of the elements, in order. -/
  points : ∃ parts, List.Forall₂ PathElement.Has path parts ∧
    subpaths.flatMap Subpath.points = parts.flatten
  nonempty : ∀ s ∈ subpaths, s.points ≠ []
  /-- A new subpath starts exactly at each move and after each closing, and it is closed exactly if a
  closing ends it. -/
  runs : subpaths = (runs path).filterMap Subpath.ofRun?
  closed : subpaths.countP Subpath.closed = closings path

/-! ## One element after the other

The program keeps points in an array until something ends them. Its recursion is taken apart into what an
element ends and what it leaves, so that a path can be followed up to any element and looked at there. -/

namespace PathElement

/-- The subpaths that an element ends, when these points wait for it. -/
def ended (waiting : Array (Point Float32)) : PathElement Float → List Subpath
  | moveTo _ => Subpath.ofPoints waiting false
  | close => Subpath.ofPoints waiting true
  | _ => []

/-- The points that wait behind an element. -/
def leaves (waiting : Array (Point Float32)) : PathElement Float → Array (Point Float32)
  | moveTo p => #[p.toSingle]
  | close => #[]
  | e => waiting.appendList e.points

theorem leaves_of_boundary {e : PathElement Float} (h : (e.isMove || e.isClose) = true)
    (waiting : Array (Point Float32)) : (e.leaves waiting).toList = e.points := by
  cases e <;> first | rfl | exact absurd h Bool.false_ne_true

/-- An element that is no boundary ends nothing and adds its points to those that wait. -/
theorem leaves_of_no_boundary {e : PathElement Float} (h : (e.isMove || e.isClose) = false)
    (waiting : Array (Point Float32)) :
    e.ended waiting = [] ∧ (e.leaves waiting).toList = waiting.toList ++ e.points := by
  cases e with
  | moveTo p => exact absurd h Bool.true_eq_false.mp
  | close => exact absurd h Bool.true_eq_false.mp
  | _ => exact ⟨rfl, by simp [leaves]⟩

end PathElement

/-- The subpaths that elements end. -/
def endedBy (waiting : Array (Point Float32)) : List (PathElement Float) → List Subpath
  | [] => []
  | e :: rest => e.ended waiting ++ endedBy (e.leaves waiting) rest

/-- The points that wait behind elements. -/
def waitingAfter (waiting : Array (Point Float32)) (path : List (PathElement Float)) :
    Array (Point Float32) :=
  path.foldl PathElement.leaves waiting

theorem flattenFrom_cons (waiting : Array (Point Float32)) (e : PathElement Float)
    (rest : List (PathElement Float)) :
    flattenFrom waiting (e :: rest) = e.ended waiting ++ flattenFrom (e.leaves waiting) rest := by
  cases e <;> rfl

theorem flattenFrom_append (waiting : Array (Point Float32)) (path more : List (PathElement Float)) :
    flattenFrom waiting (path ++ more) =
      endedBy waiting path ++ flattenFrom (waitingAfter waiting path) more := by
  induction path generalizing waiting with
  | nil => rfl
  | cons e path ih =>
    rw [List.cons_append, flattenFrom_cons, ih, endedBy, List.append_assoc]
    rfl

theorem flatten_eq (path : List (PathElement Float)) :
    flatten path = endedBy #[] path ++ Subpath.ofPoints (waitingAfter #[] path) false := by
  have h := flattenFrom_append #[] path []
  rw [List.append_nil] at h
  exact h

theorem endedBy_append (waiting : Array (Point Float32)) (path more : List (PathElement Float)) :
    endedBy waiting (path ++ more) =
      endedBy waiting path ++ endedBy (waitingAfter waiting path) more := by
  induction path generalizing waiting with
  | nil => rfl
  | cons e path ih =>
    rw [List.cons_append, endedBy, ih, endedBy, List.append_assoc]
    rfl

theorem waitingAfter_concat (waiting : Array (Point Float32)) (path : List (PathElement Float))
    (e : PathElement Float) :
    waitingAfter waiting (path ++ [e]) = e.leaves (waitingAfter waiting path) := by
  rw [waitingAfter, List.foldl_append]
  rfl

/-! ## What waits

The array behind an element is known without running anything: it has the points since the last boundary.
That is the invariant of the recursion. -/

theorem pointsSince_concat (path : List (PathElement Float)) (e : PathElement Float) :
    pointsSince (path ++ [e]) =
      if e.isMove || e.isClose then e.points else pointsSince path ++ e.points := by
  rw [pointsSince, pointsSince, sinceLatest?_concat, PathElement.boundary?]
  by_cases h : (e.isMove || e.isClose) = true
  · rw [if_pos h, if_pos h]
    simp
  · rw [if_neg h, if_neg h]
    rcases sinceLatest? _ path with _ | ⟨start, later⟩
    · simp
    · simp

/-- What waits are the points since the last boundary. -/
theorem toList_waitingAfter (path : List (PathElement Float)) :
    (waitingAfter #[] path).toList = pointsSince path := by
  induction path using List.reverseRecOn with
  | nil => rfl
  | append_singleton path e ih =>
    rw [waitingAfter_concat, pointsSince_concat]
    by_cases h : (e.isMove || e.isClose) = true
    · rw [if_pos h, PathElement.leaves_of_boundary h]
    · rw [if_neg h, (PathElement.leaves_of_no_boundary (Bool.not_eq_true _ ▸ h) _).2, ih]

namespace Subpath

theorem points_ofPoints (points : Array (Point Float32)) (closed : Bool) :
    (ofPoints points closed).flatMap Subpath.points = points.toList := by
  unfold ofPoints
  split
  · next hempty => simp [Array.isEmpty_iff.1 hempty]
  · simp

theorem of_mem_ofPoints {points : Array (Point Float32)} {closed : Bool} {s : Subpath}
    (h : s ∈ ofPoints points closed) : s = ⟨points.toList, closed⟩ ∧ s.points ≠ [] := by
  unfold ofPoints at h
  split at h
  · exact absurd h List.not_mem_nil
  · next hsome =>
    obtain rfl := List.mem_singleton.1 h
    exact ⟨rfl, by simpa using hsome⟩

theorem countP_ofPoints (points : Array (Point Float32)) (closed : Bool) :
    (ofPoints points closed).countP Subpath.closed = if closed && !points.isEmpty then 1 else 0 := by
  unfold ofPoints
  cases points.isEmpty <;> cases closed <;> rfl

end Subpath

/-! ## Points and closed subpaths

Counting needs no runs: each element adds its points once, to what waits, and what waits is moved into a
subpath as a whole. -/

theorem points_flattenFrom (waiting : Array (Point Float32)) (path : List (PathElement Float)) :
    (flattenFrom waiting path).flatMap Subpath.points =
      waiting.toList ++ path.flatMap PathElement.points := by
  induction path generalizing waiting with
  | nil =>
    rw [flattenFrom, Subpath.points_ofPoints, List.flatMap_nil, List.append_nil]
  | cons e path ih =>
    rw [flattenFrom_cons, List.flatMap_append, ih, List.flatMap_cons, ← List.append_assoc,
      ← List.append_assoc]
    congr 1
    cases e with
    | moveTo p => exact congrArg (· ++ [p.toSingle]) (Subpath.points_ofPoints waiting false)
    | close => exact congrArg (· ++ []) (Subpath.points_ofPoints waiting true)
    | _ => simp [PathElement.ended, PathElement.leaves]

theorem points_ne_nil_of_mem_flattenFrom {waiting : Array (Point Float32)}
    {path : List (PathElement Float)} {s : Subpath} (h : s ∈ flattenFrom waiting path) :
    s.points ≠ [] := by
  induction path generalizing waiting with
  | nil => exact (Subpath.of_mem_ofPoints h).2
  | cons e path ih =>
    rw [flattenFrom_cons] at h
    rcases List.mem_append.1 h with hended | hrest
    · cases e with
      | moveTo p => exact (Subpath.of_mem_ofPoints hended).2
      | close => exact (Subpath.of_mem_ofPoints hended).2
      | _ => exact absurd hended List.not_mem_nil
    · exact ih hrest

theorem closings_concat (path : List (PathElement Float)) (e : PathElement Float) :
    closings (path ++ [e]) =
      closings path + if e.isClose && !(pointsSince path).isEmpty then 1 else 0 := by
  rw [closings, List.zipIdx_append, List.countP_append, closings]
  congr 1
  · -- for the elements before, the one at the end is not among those before them
    refine List.countP_congr ?_
    rintro ⟨f, i⟩ hmem
    have hlt : i < path.length := by
      simpa using List.snd_lt_of_mem_zipIdx hmem
    dsimp only
    rw [List.take_append_of_le_length (Nat.le_of_lt hlt)]
  · rw [Nat.zero_add, List.zipIdx_singleton, List.countP_singleton]
    simp only [List.take_left]

theorem countP_endedBy (path : List (PathElement Float)) :
    (endedBy #[] path).countP Subpath.closed = closings path := by
  induction path using List.reverseRecOn with
  | nil => rfl
  | append_singleton path e ih =>
    rw [endedBy_append, List.countP_append, ih, closings_concat, ← toList_waitingAfter,
      Array.isEmpty_toList]
    congr 1
    rw [endedBy, endedBy, List.append_nil]
    cases e with
    | moveTo p => exact Subpath.countP_ofPoints _ false
    | close => exact Subpath.countP_ofPoints _ true
    | _ => rfl

/-! ## Cutting a path

Behind a boundary nothing waits that could join what comes next, so the recursion starts anew there. -/

/-- Behind a closing nothing waits. -/
theorem waitingAfter_of_close {path : List (PathElement Float)} (h : path.getLast? = some .close)
    (waiting : Array (Point Float32)) : waitingAfter waiting path = #[] := by
  obtain ⟨init, rfl⟩ := List.getLast?_eq_some_iff.1 h
  rw [waitingAfter_concat]
  rfl

/-- A path can be cut at a boundary. -/
theorem flatten_append {path more : List (PathElement Float)}
    (h : ∀ e ∈ path.getLast?, ∀ f ∈ more.head?, e.joins f = false) :
    flatten (path ++ more) = flatten path ++ flatten more := by
  have hcut := flattenFrom_append #[] path more
  rw [← flatten] at hcut
  rw [hcut, flatten_eq path, List.append_assoc]
  congr 1
  cases more with
  | nil => exact (List.append_nil _).symm
  | cons f more =>
    rcases hlast : path.getLast? with _ | e
    · obtain rfl := List.getLast?_eq_none_iff.1 hlast
      rfl
    · rcases PathElement.joins_eq_false_iff.1 (h e hlast f rfl) with rfl | ⟨p, rfl⟩
      · rw [waitingAfter_of_close hlast]
        rfl
      · -- whatever waits is ended by the move
        rw [flatten, flattenFrom_cons, flattenFrom_cons]
        rfl

/-! ## One run

Within a run there is no boundary but a move at its start or a closing at its end, so all its points are
waiting when it ends. -/

/-- In a run only the last element can be a closing, and only the first can be a move. -/
theorem inner_of_isChain {run : List (PathElement Float)}
    (h : run.IsChain fun e f => e.joins f) :
    (∀ e ∈ run.dropLast, e.isClose = false) ∧ ∀ e ∈ run.tail, e.isMove = false := by
  induction run with
  | nil => simp
  | cons e run ih =>
    cases run with
    | nil => simp
    | cons f run =>
      rw [List.isChain_cons_cons] at h
      obtain ⟨hjoins, hrest⟩ := h
      obtain ⟨hclose, hmove⟩ := ih hrest
      rw [PathElement.joins, Bool.and_eq_true, Bool.not_eq_true', Bool.not_eq_true'] at hjoins
      constructor
      · rw [List.dropLast_cons_cons, List.forall_mem_cons]
        exact ⟨hjoins.1, hclose⟩
      · rw [List.tail_cons, List.forall_mem_cons]
        exact ⟨hjoins.2, hmove⟩

/-- Elements among which there is no boundary are all waiting. -/
theorem waitingAfter_of_no_boundary {path : List (PathElement Float)}
    (h : ∀ e ∈ path, (e.isMove || e.isClose) = false) (waiting : Array (Point Float32)) :
    endedBy waiting path = [] ∧
      (waitingAfter waiting path).toList = waiting.toList ++ path.flatMap PathElement.points := by
  induction path generalizing waiting with
  | nil => exact ⟨rfl, (List.append_nil _).symm⟩
  | cons e path ih =>
    rw [List.forall_mem_cons] at h
    obtain ⟨hended, hleaves⟩ := PathElement.leaves_of_no_boundary h.1 waiting
    obtain ⟨hended', hleaves'⟩ := ih h.2 (e.leaves waiting)
    constructor
    · rw [endedBy, hended, hended']
      rfl
    · rw [hleaves, List.append_assoc] at hleaves'
      exact hleaves'

theorem Subpath.toList_ofRun? (run : List (PathElement Float)) :
    (Subpath.ofRun? run).toList =
      Subpath.ofPoints (run.flatMap PathElement.points).toArray (run.getLast?.any PathElement.isClose) := by
  rw [ofRun?, ofPoints]
  by_cases h : run.flatMap PathElement.points = []
  · rw [if_pos h, h]
    rfl
  · rw [if_neg h, if_neg (by simpa using h)]
    rfl

section Run

variable {path : List (PathElement Float)} (hclose : ∀ e ∈ path, e.isClose = false)
  (hmove : ∀ e ∈ path.tail, e.isMove = false)

include hclose hmove

/-- Elements of which none is a closing and only the first can be a move are all waiting, too. -/
theorem waitingAfter_of_start :
    endedBy #[] path = [] ∧ waitingAfter #[] path = (path.flatMap PathElement.points).toArray := by
  cases path with
  | nil => exact ⟨rfl, rfl⟩
  | cons e path =>
    rw [List.forall_mem_cons] at hclose
    have hrest : ∀ f ∈ path, (f.isMove || f.isClose) = false := by
      intro f hf
      rw [hmove f hf, hclose.2 f hf, Bool.or_false]
    obtain ⟨hended, hwaiting⟩ := waitingAfter_of_no_boundary hrest (e.leaves #[])
    have hfirst : e.ended #[] = [] ∧ (e.leaves #[]).toList = e.points := by
      cases e with
      | close => exact absurd hclose.1 (by decide)
      | moveTo p => exact ⟨rfl, rfl⟩
      | _ => exact ⟨rfl, by simp [PathElement.leaves]⟩
    constructor
    · rw [endedBy, hfirst.1, hended]
      rfl
    · rw [hfirst.2] at hwaiting
      rw [List.flatMap_cons, ← hwaiting]
      rfl

/-- Such elements are one open subpath … -/
theorem flatten_of_open :
    flatten path = Subpath.ofPoints (path.flatMap PathElement.points).toArray false := by
  obtain ⟨hended, hwaiting⟩ := waitingAfter_of_start hclose hmove
  rw [flatten_eq, hended, hwaiting]
  rfl

/-- … and with a closing behind them one closed subpath. -/
theorem flatten_of_closed :
    flatten (path ++ [.close]) = Subpath.ofPoints (path.flatMap PathElement.points).toArray true := by
  obtain ⟨hended, hwaiting⟩ := waitingAfter_of_start hclose hmove
  have hlast : endedBy (waitingAfter #[] path) [.close] =
      Subpath.ofPoints (path.flatMap PathElement.points).toArray true := by
    rw [hwaiting]
    exact List.append_nil _
  rw [flatten_eq, endedBy_append, hended, hlast, waitingAfter_concat, List.nil_append]
  exact List.append_nil _

end Run

/-- A run is one subpath, unless it has no point. -/
theorem flatten_run {run : List (PathElement Float)} (h : run.IsChain fun e f => e.joins f) :
    flatten run = (Subpath.ofRun? run).toList := by
  obtain ⟨hclose, hmove⟩ := inner_of_isChain h
  rw [Subpath.toList_ofRun?]
  rcases List.eq_nil_or_concat run with rfl | ⟨init, last, rfl⟩
  · rfl
  rw [List.concat_eq_append, List.getLast?_concat, Option.any_some] at *
  rw [List.dropLast_concat] at hclose
  -- inside a run nothing closes and, but for its first element, nothing moves: only its end is open
  by_cases hlast : last.isClose = true
  · obtain rfl := PathElement.isClose_iff.1 hlast
    have htail : ∀ e ∈ init.tail, e.isMove = false := by
      intro e he
      cases init with
      | nil => exact absurd he List.not_mem_nil
      | cons first init => exact hmove e (List.mem_append_left _ he)
    rw [flatten_of_closed hclose htail, List.flatMap_append, hlast]
    simp [PathElement.points]
  · rw [Bool.not_eq_true] at hlast
    have hall : ∀ e ∈ init ++ [last], e.isClose = false := by
      intro e he
      rcases List.mem_append.1 he with hinit | hmem
      · exact hclose e hinit
      · rw [List.mem_singleton.1 hmem]
        exact hlast
    rw [flatten_of_open hall hmove, hlast]

/-- Runs one after the other are as many subpaths, without those that have no point. -/
theorem flatten_flatten (rs : List (List (PathElement Float)))
    (hwithin : ∀ run ∈ rs, run.IsChain fun e f => e.joins f)
    (hbetween : rs.IsChain fun r s => ∃ hr hs, (r.getLast hr).joins (s.head hs) = false) :
    flatten rs.flatten = rs.filterMap Subpath.ofRun? := by
  induction rs with
  | nil => rfl
  | cons run rs ih =>
    rw [List.forall_mem_cons] at hwithin
    have hcut : ∀ e ∈ run.getLast?, ∀ f ∈ rs.flatten.head?, e.joins f = false := by
      intro e he f hf
      cases rs with
      | nil => exact absurd hf (by simp)
      | cons next rs =>
        obtain ⟨hr, hs, hparts⟩ := (List.isChain_cons_cons.1 hbetween).1
        rw [List.getLast?_eq_some_getLast hr, Option.mem_some_iff] at he
        rw [List.flatten_cons, List.head?_append_of_ne_nil _ hs, List.head?_eq_some_head hs,
          Option.mem_some_iff] at hf
        rw [← he, ← hf]
        exact hparts
    rw [List.flatten_cons, flatten_append hcut, flatten_run hwithin.1,
      ih hwithin.2 hbetween.tail, List.filterMap_cons]
    cases Subpath.ofRun? run <;> rfl

/-! ## Paths

A path is its runs one after the other, and it may be cut between any two of them; so the subpaths are those
of the runs. -/

theorem forall₂_has (path : List (PathElement Float)) :
    List.Forall₂ PathElement.Has path (path.map PathElement.points) := by
  rw [List.forall₂_map_right_iff, List.forall₂_same]
  intro e _
  cases e with
  | arc center radius startAngle endAngle => exact isArc_points center radius startAngle endAngle
  | _ => rfl

theorem flatten_eq_runs (path : List (PathElement Float)) :
    flatten path = (runs path).filterMap Subpath.ofRun? := by
  have hwithin : ∀ run ∈ runs path, run.IsChain fun e f => e.joins f :=
    fun _ => List.isChain_of_mem_splitBy
  have h := flatten_flatten (runs path) hwithin (List.isChain_getLast_head_splitBy _ path)
  rwa [runs, List.flatten_splitBy] at h

end FieldDiagram
