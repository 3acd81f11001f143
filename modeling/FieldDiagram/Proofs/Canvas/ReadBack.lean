import FieldDiagram.Canvas.Codec
import FieldDiagram.Proofs.Decode.Readings
/-!
# Draw commands there and back

A command that is written and read again is the same command, except that its colour has been through its
text and each of its numbers through its digits: `decode_recorded`. So a display list can be stored and
carried out elsewhere.

Numbers and colour are changed independently of each other, and neither changes what kind of command it is or
how many parts its path has. The numbers of a command are listed by `numbers` in the order in which they are
written, so that what has to be finite, and what has to be read back, is one list.
-/

namespace FieldDiagram

open Json (Reading Value)

/-! ## Points, maps and caps

Points and maps are written as flat lists of numbers, so a reader has to count them. Each list is as long as
it should be because it was written by the same definition. -/

/-- The point with its coordinates changed. -/
def Point.map (f : Float → Float) (p : Point Float) : Point Float := ⟨f p.x, f p.y⟩

theorem Point.ofReading_written {p : Point Float} (hx : p.x.isFinite = true)
    (hy : p.y.isFinite = true) : Point.ofReading p.value.reading = .ok (p.map Double.reread) := by
  have hfinite : ∀ x ∈ [p.x, p.y], x.isFinite = true := by simp [hx, hy]
  have hreals : p.value.reading.reals 2 "a sequence of 2 f64 values" =
      .ok ([p.x, p.y].map Double.reread) :=
    Reading.reals_written hfinite _
  rw [ofReading, hreals]
  rfl

/-- The numbers of a map, in the order in which they are written. -/
def Affine.numbers (m : Affine Float) : List Float := [m.a, m.b, m.c, m.d, m.e, m.f]

/-- The map with its numbers changed. -/
def Affine.map (f : Float → Float) (m : Affine Float) : Affine Float :=
  ⟨f m.a, f m.b, f m.c, f m.d, f m.e, f m.f⟩

theorem Affine.ofReading_written {m : Affine Float} (h : ∀ x ∈ m.numbers, x.isFinite = true) :
    Affine.ofReading m.value.reading = .ok (m.map Double.reread) := by
  have hreals : m.value.reading.reals 6 "a sequence of 6 f64values" =
      .ok (m.numbers.map Double.reread) :=
    Reading.reals_written h _
  rw [ofReading, hreals]
  rfl

theorem LineCap.ofReading_written (cap : LineCap) : LineCap.ofReading cap.value.reading = .ok cap := by
  rw [ofReading, value]
  cases cap
  · rw [Reading.variant_name (by decide)]
    rfl
  · rw [Reading.variant_name (by decide)]
    rfl
  · rw [Reading.variant_name (by decide)]
    rfl

/-! ## Paths

Four kinds of elements, each a variant with its own fields. Closing has no fields, and is written as the
name of the variant alone. -/

namespace PathElement

/-- The numbers of a part of a path. -/
def numbers : PathElement Float → List Float
  | .moveTo p => [p.x, p.y]
  | .lineTo p => [p.x, p.y]
  | .arc center radius startAngle endAngle => [center.x, center.y, radius, startAngle, endAngle]
  | .close => []

/-- The part of a path with its numbers changed. -/
def map (f : Float → Float) : PathElement Float → PathElement Float
  | .moveTo p => .moveTo (p.map f)
  | .lineTo p => .lineTo (p.map f)
  | .arc center radius startAngle endAngle => .arc (center.map f) (f radius) (f startAngle) (f endAngle)
  | .close => .close

theorem map_eq_self {f : Float → Float} {e : PathElement Float} (h : ∀ x ∈ e.numbers, f x = x) :
    e.map f = e := by
  cases e <;> simp_all [numbers, map, Point.map]

theorem arcOfReading_written {center : Point Float} {radius startAngle endAngle : Float}
    (h : ∀ x ∈ (arc center radius startAngle endAngle).numbers, x.isFinite = true) :
    arcOfReading (Value.object [("center", center.value), ("radius", .real radius),
      ("start_angle", .real startAngle), ("end_angle", .real endAngle)]).reading =
        .ok ((arc center radius startAngle endAngle).map Double.reread) := by
  simp only [numbers, List.forall_mem_cons] at h
  obtain ⟨hx, hy, hradius, hstart, hend, -⟩ := h
  have hcenter := Point.ofReading_written hx hy
  have hradius := Reading.real_written hradius
  have hstart := Reading.real_written hstart
  have hend := Reading.real_written hend
  rw [arcOfReading, RecordShape.ofReading_written (by simp [Json.DistinctNames])]
  · -- under each name stands what was written under it
    change (do
      let center ← Point.ofReading center.value.reading
      let radius ← (Value.real radius).reading.real
      let startAngle ← (Value.real startAngle).reading.real
      let endAngle ← (Value.real endAngle).reading.real
      return arc center radius startAngle endAngle : Decoded (PathElement Float)) = _
    rw [hcenter, hradius, hstart, hend]
    rfl
  · simp only [List.forall_mem_cons]
    exact ⟨⟨_, rfl, Field.check_of hcenter _⟩, ⟨_, rfl, Field.check_of hradius _⟩,
      ⟨_, rfl, Field.check_of hstart _⟩, ⟨_, rfl, Field.check_of hend _⟩, by simp⟩

theorem ofReading_written {e : PathElement Float} (h : ∀ x ∈ e.numbers, x.isFinite = true) :
    ofReading e.value.reading = .ok (e.map Double.reread) := by
  rw [ofReading]
  cases e with
  | moveTo p =>
    obtain ⟨hx, hy⟩ : p.x.isFinite = true ∧ p.y.isFinite = true := by simpa [numbers] using h
    rw [value, Reading.variant_written (by decide)]
    change (do return moveTo (← Point.ofReading p.value.reading) : Decoded (PathElement Float)) = _
    rw [Point.ofReading_written hx hy]
    rfl
  | lineTo p =>
    obtain ⟨hx, hy⟩ : p.x.isFinite = true ∧ p.y.isFinite = true := by simpa [numbers] using h
    rw [value, Reading.variant_written (by decide)]
    change (do return lineTo (← Point.ofReading p.value.reading) : Decoded (PathElement Float)) = _
    rw [Point.ofReading_written hx hy]
    rfl
  | arc center radius startAngle endAngle =>
    rw [value, Reading.variant_written (by decide)]
    exact arcOfReading_written h
  | close =>
    rw [value, Reading.variant_name (by decide)]
    rfl

end PathElement

/-! ## Commands

Five kinds of commands. Numbers and colour are changed apart from each other: `map` is for the numbers,
`recolored` for the colour, and what comes back is both. -/

namespace DrawCommand

/-- The numbers of a command, those of its colour apart. -/
def numbers : DrawCommand Float String → List Float
  | .clear width height => [width, height]
  | .fill path _ alpha => path.flatMap PathElement.numbers ++ [alpha]
  | .stroke path _ alpha width _ => path.flatMap PathElement.numbers ++ [alpha, width]
  | .text _ point transform _ _ alpha _ => [point.x, point.y] ++ transform.numbers ++ [alpha]
  | .image _ point size alpha => [point.x, point.y, size.x, size.y, alpha]

/-- The colour of a command that has one. -/
def color? {α ι : Type} : DrawCommand α ι → Option Color
  | .clear _ _ => none
  | .fill _ color _ => some color
  | .stroke _ color _ _ _ => some color
  | .text _ _ _ _ color _ _ => some color
  | .image _ _ _ _ => none

/-- The command with its colour changed. -/
def recolored {α ι : Type} (f : Color → Color) : DrawCommand α ι → DrawCommand α ι
  | .clear width height => .clear width height
  | .fill path color alpha => .fill path (f color) alpha
  | .stroke path color alpha width cap => .stroke path (f color) alpha width cap
  | .text content point transform font color alpha outlined =>
    .text content point transform font (f color) alpha outlined
  | .image name point size alpha => .image name point size alpha

/-- The command with its numbers changed. -/
def map (f : Float → Float) : DrawCommand Float String → DrawCommand Float String
  | .clear width height => .clear (f width) (f height)
  | .fill path color alpha => .fill (path.map (PathElement.map f)) color (f alpha)
  | .stroke path color alpha width cap =>
    .stroke (path.map (PathElement.map f)) color (f alpha) (f width) cap
  | .text content point transform font color alpha outlined =>
    .text content (point.map f) (transform.map f) font color (f alpha) outlined
  | .image name point size alpha => .image name (point.map f) (size.map f) (f alpha)

@[simp] theorem numbers_recolored (f : Color → Color) (d : DrawCommand Float String) :
    (d.recolored f).numbers = d.numbers := by
  cases d <;> rfl

/-- What comes back of a command that is written. -/
def reread (d : DrawCommand Float String) : DrawCommand Float String :=
  (d.map Double.reread).recolored Color.reread

theorem map_eq_self {f : Float → Float} {d : DrawCommand Float String} (h : ∀ x ∈ d.numbers, f x = x) :
    d.map f = d := by
  have hpath : ∀ {path : List (PathElement Float)}, (∀ x ∈ path.flatMap PathElement.numbers, f x = x) →
      path.map (PathElement.map f) = path := fun {path} hnumbers =>
    (List.map_congr_left fun e he => PathElement.map_eq_self fun x hx =>
      hnumbers x (List.mem_flatMap.2 ⟨e, he, hx⟩)).trans (List.map_id path)
  cases d with
  | fill path color alpha =>
    rw [numbers, List.forall_mem_append] at h
    rw [map, hpath h.1, h.2 alpha (by simp)]
  | stroke path color alpha width cap =>
    rw [numbers, List.forall_mem_append] at h
    rw [map, hpath h.1, h.2 alpha (by simp), h.2 width (by simp)]
  | _ => simp_all [numbers, map, Point.map, Affine.map, Affine.numbers]

theorem reread_eq_recolored {d : DrawCommand Float String} (h : ∀ x ∈ d.numbers, Double.reread x = x) :
    d.reread = d.recolored Color.reread := by
  rw [reread, map_eq_self h]

theorem recolored_recolored {α ι : Type} (f g : Color → Color) (d : DrawCommand α ι) :
    (d.recolored f).recolored g = d.recolored (g ∘ f) := by
  cases d <;> rfl

theorem recolored_eq_self {α ι : Type} {f : Color → Color} {d : DrawCommand α ι}
    (h : ∀ c ∈ d.color?, f c = c) : d.recolored f = d := by
  cases d with
  | clear width height => rfl
  | fill path color alpha => rw [recolored, h color rfl]
  | stroke path color alpha width cap => rw [recolored, h color rfl]
  | text content point transform font color alpha outlined => rw [recolored, h color rfl]
  | image name point size alpha => rfl

theorem path_written {p : List (PathElement Float)}
    (h : ∀ x ∈ p.flatMap PathElement.numbers, x.isFinite = true) :
    path (Value.array (p.map PathElement.value)).reading = .ok (p.map (PathElement.map Double.reread)) := by
  have helements : ∀ e ∈ p, PathElement.ofReading e.value.reading = .ok (e.map Double.reread) :=
    fun e he => PathElement.ofReading_written fun x hx => h x (List.mem_flatMap.2 ⟨e, he, hx⟩)
  rw [path, Reading.list_written helements]

section Kinds

variable {width height alpha : Float} (color : Color) (cap : LineCap) (outlined : Bool)
  (content font name : String) {outline : List (PathElement Float)} {point size : Point Float}
  {transform : Affine Float}

theorem clearOfReading_written
    (h : ∀ x ∈ (clear width height : DrawCommand Float String).numbers, x.isFinite = true) :
    clearOfReading (Value.object [("width", .real width), ("height", .real height)]).reading =
      .ok (clear width height).reread := by
  simp only [numbers, List.forall_mem_cons] at h
  have hwidth := Reading.real_written h.1
  have hheight := Reading.real_written h.2.1
  rw [clearOfReading, RecordShape.ofReading_written (by simp [Json.DistinctNames])]
  · change (do
      let width ← (Value.real width).reading.real
      let height ← (Value.real height).reading.real
      return clear width height : Decoded (DrawCommand Float String)) = _
    rw [hwidth, hheight]
    rfl
  · simp only [List.forall_mem_cons]
    exact ⟨⟨_, rfl, Field.check_of hwidth _⟩, ⟨_, rfl, Field.check_of hheight _⟩, by simp⟩

theorem fillOfReading_written
    (h : ∀ x ∈ (fill outline color alpha : DrawCommand Float String).numbers, x.isFinite = true) :
    fillOfReading (Value.object [("path", .array (outline.map PathElement.value)),
      ("color", color.value), ("alpha", .real alpha)]).reading = .ok (fill outline color alpha).reread := by
  rw [numbers, List.forall_mem_append] at h
  have hpath := path_written h.1
  have hcolor := Reading.color_written color
  have halpha := Reading.real_written (h.2 alpha (by simp))
  rw [fillOfReading, RecordShape.ofReading_written (by simp [Json.DistinctNames])]
  · change (do
      let outline ← path (Value.array (outline.map PathElement.value)).reading
      let color ← color.value.reading.color
      let alpha ← (Value.real alpha).reading.real
      return fill outline color alpha : Decoded (DrawCommand Float String)) = _
    -- each field comes back on its own
    rw [Color.value, hpath, hcolor, halpha]
    rfl
  · simp only [List.forall_mem_cons]
    exact ⟨⟨_, rfl, Field.check_of hpath _⟩, ⟨_, rfl, Field.check_of hcolor _⟩,
      ⟨_, rfl, Field.check_of halpha _⟩, by simp⟩

theorem strokeOfReading_written
    (h : ∀ x ∈ (stroke outline color alpha width cap : DrawCommand Float String).numbers,
      x.isFinite = true) :
    strokeOfReading (Value.object [("path", .array (outline.map PathElement.value)),
      ("color", color.value), ("alpha", .real alpha), ("width", .real width),
      ("cap", cap.value)]).reading = .ok (stroke outline color alpha width cap).reread := by
  rw [numbers, List.forall_mem_append] at h
  have hpath := path_written h.1
  have hcolor := Reading.color_written color
  have halpha := Reading.real_written (h.2 alpha (by simp))
  have hwidth := Reading.real_written (h.2 width (by simp))
  have hcap := cap.ofReading_written
  rw [strokeOfReading, RecordShape.ofReading_written (by simp [Json.DistinctNames])]
  · change (do
      let outline ← path (Value.array (outline.map PathElement.value)).reading
      let color ← color.value.reading.color
      let alpha ← (Value.real alpha).reading.real
      let width ← (Value.real width).reading.real
      let cap ← LineCap.ofReading cap.value.reading
      return stroke outline color alpha width cap : Decoded (DrawCommand Float String)) = _
    rw [Color.value, hpath, hcolor, halpha, hwidth, hcap]
    rfl
  · simp only [List.forall_mem_cons]
    exact ⟨⟨_, rfl, Field.check_of hpath _⟩, ⟨_, rfl, Field.check_of hcolor _⟩,
      ⟨_, rfl, Field.check_of halpha _⟩, ⟨_, rfl, Field.check_of hwidth _⟩,
      ⟨_, rfl, Field.check_of hcap _⟩, by simp⟩

theorem textOfReading_written
    (h : ∀ x ∈ (text content point transform font color alpha outlined :
      DrawCommand Float String).numbers, x.isFinite = true) :
    textOfReading (Value.object [("text", .string content), ("position", point.value),
      ("transform", transform.value), ("font", .string font), ("color", color.value),
      ("alpha", .real alpha), ("outlined", .boolean outlined)]).reading =
        .ok (text content point transform font color alpha outlined).reread := by
  simp only [numbers, List.forall_mem_append] at h
  have hcontent := Reading.text_written content
  have hpoint := Point.ofReading_written (h.1.1 point.x (by simp)) (h.1.1 point.y (by simp))
  have htransform := Affine.ofReading_written h.1.2
  have hfont := Reading.text_written font
  have hcolor := Reading.color_written color
  have halpha := Reading.real_written (h.2 alpha (by simp))
  have houtlined : (Value.boolean outlined).reading.flag = .ok outlined := rfl
  rw [textOfReading, RecordShape.ofReading_written (by simp [Json.DistinctNames])]
  · change (do
      let content ← (Value.string content).reading.text
      let point ← Point.ofReading point.value.reading
      let transform ← Affine.ofReading transform.value.reading
      let font ← (Value.string font).reading.text
      let color ← color.value.reading.color
      let alpha ← (Value.real alpha).reading.real
      let outlined ← (Value.boolean outlined).reading.flag
      return text content point transform font color alpha outlined :
        Decoded (DrawCommand Float String)) = _
    rw [Color.value, hcontent, hpoint, htransform, hfont, hcolor, halpha, houtlined]
    rfl
  · simp only [List.forall_mem_cons]
    exact ⟨⟨_, rfl, Field.check_of hcontent _⟩, ⟨_, rfl, Field.check_of hpoint _⟩,
      ⟨_, rfl, Field.check_of htransform _⟩, ⟨_, rfl, Field.check_of hfont _⟩,
      ⟨_, rfl, Field.check_of hcolor _⟩, ⟨_, rfl, Field.check_of halpha _⟩,
      ⟨_, rfl, Field.check_of houtlined _⟩, by simp⟩

theorem imageOfReading_written
    (h : ∀ x ∈ (image name point size alpha : DrawCommand Float String).numbers,
      x.isFinite = true) :
    imageOfReading (Value.object [("image", .string name), ("position", point.value),
      ("size", size.value), ("alpha", .real alpha)]).reading =
        .ok (image name point size alpha).reread := by
  simp only [numbers, List.forall_mem_cons] at h
  obtain ⟨hx, hy, hwidth, hheight, halpha, -⟩ := h
  have hname := Reading.text_written name
  have hpoint := Point.ofReading_written hx hy
  have hsize := Point.ofReading_written hwidth hheight
  have halpha := Reading.real_written halpha
  rw [imageOfReading, RecordShape.ofReading_written (by simp [Json.DistinctNames])]
  · change (do
      let name ← (Value.string name).reading.text
      let point ← Point.ofReading point.value.reading
      let size ← Point.ofReading size.value.reading
      let alpha ← (Value.real alpha).reading.real
      return image name point size alpha : Decoded (DrawCommand Float String)) = _
    rw [hname, hpoint, hsize, halpha]
    rfl
  · simp only [List.forall_mem_cons]
    exact ⟨⟨_, rfl, Field.check_of hname _⟩, ⟨_, rfl, Field.check_of hpoint _⟩,
      ⟨_, rfl, Field.check_of hsize _⟩, ⟨_, rfl, Field.check_of halpha _⟩, by simp⟩

end Kinds

/-- A written command is read as what comes back of it. -/
theorem ofReading_written {d : DrawCommand Float String} (h : ∀ x ∈ d.numbers, x.isFinite = true) :
    ofReading d.value.reading = .ok d.reread := by
  rw [ofReading]
  cases d with
  | clear width height =>
    rw [value, Reading.variant_written (by decide)]
    exact clearOfReading_written h
  | fill outline color alpha =>
    rw [value, Reading.variant_written (by decide)]
    exact fillOfReading_written color h
  | stroke outline color alpha width cap =>
    rw [value, Reading.variant_written (by decide)]
    exact strokeOfReading_written color cap h
  | text content point transform font color alpha outlined =>
    rw [value, Reading.variant_written (by decide)]
    exact textOfReading_written color outlined content font h
  | image name point size alpha =>
    rw [value, Reading.variant_written (by decide)]
    exact imageOfReading_written name h

/-- A display list is read back command by command. -/
theorem decodeList_written {ds : List (DrawCommand Float String)}
    (h : ∀ d ∈ ds, ∀ x ∈ d.numbers, x.isFinite = true) :
    decodeList (Value.array (ds.map value)).text = .ok (ds.map reread) := by
  rw [decodeList, decodeText_text]
  exact Reading.list_written fun d hd => ofReading_written (h d hd)

/-- **A command written and read again**, whatever its colour and the texts in it are, if all its numbers are
finite: it is the same command with what its digits are read as in place of each number, and what the text of
its colour stands for in place of its colour; and a display list that begins with it comes back command by
command. Where the digits of all numbers are read as these numbers, only the colour changes; written and read
once more the command stays as it is then, and nothing is lost from the start where the colour has eight bit
channels and an opacity between zero and one. -/
theorem decode_recorded (d : DrawCommand Float String) (h : ∀ x ∈ d.numbers, x.isFinite = true) :
    (∀ c ∈ d.color?, Color.parse c.text = .ok c.reread) ∧
    decodeText ofReading d.value.text = .ok d.reread ∧
    (∀ ds : List (DrawCommand Float String), (∀ e ∈ ds, ∀ x ∈ e.numbers, x.isFinite = true) →
      decodeList (Value.array ((d :: ds).map value)).text = .ok ((d :: ds).map reread)) ∧
    ((∀ x ∈ d.numbers, Double.reread x = x) →
      decodeText ofReading d.value.text = .ok (d.recolored Color.reread) ∧
      decodeText ofReading (d.recolored Color.reread).value.text = .ok (d.recolored Color.reread) ∧
      ((∀ c ∈ d.color?, c.OnGrid) → decodeText ofReading d.value.text = .ok d)) := by
  have hdecode : decodeText ofReading d.value.text = .ok d.reread := by
    rw [decodeText_text, ofReading_written h]
  refine ⟨fun c _ => c.parse_written, hdecode,
    fun ds hds => decodeList_written (List.forall_mem_cons.2 ⟨h, hds⟩), fun hback => ?_⟩
  rw [reread_eq_recolored hback] at hdecode
  refine ⟨hdecode, ?_, fun hgrid => ?_⟩
  · -- the second time the colours are those that the first time left
    have hfinite : ∀ x ∈ (d.recolored Color.reread).numbers, x.isFinite = true := by
      rwa [numbers_recolored]
    have hagain : ∀ x ∈ (d.recolored Color.reread).numbers, Double.reread x = x := by
      rwa [numbers_recolored]
    have hstays : Color.reread ∘ Color.reread = Color.reread := funext Color.reread_reread
    rw [decodeText_text, ofReading_written hfinite, reread_eq_recolored hagain, recolored_recolored, hstays]
  · rw [hdecode, recolored_eq_self fun c hc => (hgrid c hc).reread_eq]

/-- A stroke along a path with parts of every kind. -/
theorem decode_recorded_stroke :
    let x := Double.ofInt 3
    let path : List (PathElement Float) := [.moveTo ⟨x, x⟩, .lineTo ⟨x, x⟩, .arc ⟨x, x⟩ x x x, .close]
    let d : DrawCommand Float String := .stroke path (.opaqueOfBytes 120 0 255) x x .round
    (∀ y ∈ d.numbers, y.isFinite = true ∧ Double.reread y = y) ∧
      decodeText ofReading d.value.text = .ok d := by
  intro x path d
  have hx : x.isFinite = true := Double.isFinite_ofInt (by decide)
  have hback : Double.reread x = x := Double.reread_ofInt (by decide) (by decide +kernel)
  have hnumbers : ∀ y ∈ d.numbers, y.isFinite = true ∧ Double.reread y = y := by
    simp [d, path, numbers, PathElement.numbers, hx, hback]
  obtain ⟨-, -, -, hkept⟩ := decode_recorded d fun y hy => (hnumbers y hy).1
  obtain ⟨-, -, hexact⟩ := hkept fun y hy => (hnumbers y hy).2
  refine ⟨hnumbers, hexact fun c hc => ?_⟩
  cases hc
  exact ⟨120, 0, 255, channelOfByte 255, by decide, by decide, by decide, by decide, by decide, rfl⟩

end DrawCommand

end FieldDiagram
