import FieldDiagram.Proofs.Canvas.ReadBack
import FieldDiagram.Proofs.Color.Range
import FieldDiagram.Proofs.Decode.Record
import FieldDiagram.Proofs.Renderer.Anatomy
import FieldDiagram.Proofs.Renderer.Place
/-!
# The colours of a diagram

Every colour in a diagram is black, the colour of the grid lines, or one that an operation of the
overlay names. The last two come from texts, and whatever can be read as a colour is in range, so the
components that reach a command lie between zero and one. One word gets past that, the one for no
number.

Main statement: `Renderer.colors_inRange`.
-/

namespace FieldDiagram

variable {α ι : Type}

namespace Op

/-- The text of the colour that an operation sets. -/
def colorText? : Op α → Option String
  | fill name => some name
  | stroke name => some name
  | _ => none

/-- A colour that an operation sets is read from its text. -/
theorem exists_colorText {op : Op α} {c : Color} (h : op.fillColor? = some c ∨ op.strokeColor? = some c) :
    ∃ text ∈ op.colorText?, Color.parse text = .ok c := by
  have hread : ∀ name : String, (Color.parse name).toOption = some c → Color.parse name = .ok c := by
    intro name hname
    cases hparse : Color.parse name with
    | error e =>
      rw [hparse] at hname
      cases hname
    | ok d =>
      rw [hparse] at hname
      rw [← Option.some.inj hname]
  cases op with
  | fill name =>
    rcases h with hfill | hstroke
    · exact ⟨name, rfl, hread name hfill⟩
    · cases hstroke
  | stroke name =>
    rcases h with hfill | hstroke
    · cases hfill
    · exact ⟨name, rfl, hread name hstroke⟩
  | _ => rcases h with h | h <;> cases h

end Op

/-! ## Colours of commands

Commands carry the colour of their paint, and paint has its colours from operations. So each colour in a
diagram can be traced back to a text or to the one colour that paint begins with. -/

variable [Scalar α]

open Scalar (one isOpacity)

/-- A command has one of the two colours of the paint that it is drawn with. -/
theorem Paint.color_of_draw? {p : Paint α} {steps : Nat} {op : Op α} {d : DrawCommand α ι} {c : Color}
    (hd : p.draw? steps op = some d) (hc : c ∈ d.color?) : c = p.fill ∨ c = p.stroke := by
  have hfinished : ∀ (stroked : Bool) (path : List (PathElement α)),
      c ∈ (p.finished (ι := ι) stroked path).color? → c = p.fill ∨ c = p.stroke := by
    intro stroked path hmem
    cases stroked
    · exact .inl (Option.some.inj hmem).symm
    · exact .inr (Option.some.inj hmem).symm
  rw [draw?.eq_def] at hd
  split at hd
  · next outlined =>
    obtain rfl := Option.some.inj hd
    cases outlined
    · exact .inl (Option.some.inj hc).symm
    · exact .inr (Option.some.inj hc).symm
  · obtain ⟨path, -, rfl⟩ := Option.map_eq_some_iff.mp hd
    exact hfinished _ path hc

/-- What operations draw has the colours from before them, or colours that they have named. -/
theorem Paint.color_of_mem_drawing {p : Paint α} {setting : PassSetting α} {s : OverlayState α}
    {ops : List (Op α)} {d : DrawCommand α ι} {c : Color} (hd : d ∈ p.drawing setting s ops)
    (hc : c ∈ d.color?) :
    c = p.fill ∨ c = p.stroke ∨ ∃ op ∈ ops, ∃ text ∈ op.colorText?, Color.parse text = .ok c := by
  obtain ⟨⟨op, i⟩, -, hdraw⟩ := List.mem_filterMap.mp hd
  have hset : ∀ (tells : Op α → Option Color) (start : Color),
      (∀ op', tells op' = some c → op'.fillColor? = some c ∨ op'.strokeColor? = some c) →
      c = (latest? tells (ops.take i)).getD start →
      c = start ∨ ∃ op ∈ ops, ∃ text ∈ op.colorText?, Color.parse text = .ok c := by
    intro tells start hsets hc
    cases hlatest : latest? tells (ops.take i) with
    | none =>
      rw [hlatest] at hc
      exact .inl hc
    | some c' =>
      rw [hlatest, Option.getD_some] at hc
      obtain ⟨op', hop', htells⟩ := exists_of_latest?_eq_some hlatest
      rw [← hc] at htells
      exact .inr ⟨op', List.mem_of_mem_take hop', Op.exists_colorText (hsets op' htells)⟩
  -- the paint of a command has the colours that were set last before it
  rcases color_of_draw? hdraw hc with hfill | hstroke
  · exact (hset Op.fillColor? p.fill (fun _ => .inl) hfill).imp_right .inr
  · exact .inr (hset Op.strokeColor? p.stroke (fun _ => .inr) hstroke)

namespace Renderer

/-- The background of a pass has no colour: it consists of images. -/
theorem color?_of_mem_backdrop (hone : isOpacity (one : α) = true) {r : Renderer α ι}
    {size : SurfaceSize α} {d : DrawCommand α ι} (h : d ∈ (r.backdrop size).commands.toList) :
    d.color? = none := by
  rw [commands_backdrop hone] at h
  rcases List.mem_cons.1 h with rfl | himage
  · rfl
  · rcases List.mem_append.1 himage with hbase | halt
    · obtain ⟨image, -, rfl⟩ := Option.map_eq_some_iff.1 (Option.mem_toList.1 hbase)
      rfl
    · obtain ⟨image, -, rfl⟩ := Option.map_eq_some_iff.1 (Option.mem_toList.1 halt)
      rfl

/-- **Where the colours of a diagram come from.** -/
theorem color_of_mem_render (hone : isOpacity (one : α) = true) {r : Renderer α ι} {size : SurfaceSize α}
    {d : DrawCommand α ι} {c : Color} (hd : d ∈ (r.render size).1.canvas.commands.toList)
    (hc : c ∈ d.color?) :
    c = .black ∨ c = r.options.gridLineColor ∨
      ∃ op ∈ r.overlay.ops, ∃ text ∈ op.colorText?, Color.parse text = .ok c := by
  by_cases htells : r.canvas.reportsTransform = true
  · rw [commands_render htells, List.mem_append, List.mem_append] at hd
    rcases hd with (hbackdrop | hline) | hdrawn
    · rw [color?_of_mem_backdrop hone hbackdrop] at hc
      cases hc
    · right
      left
      obtain ⟨line, -, rfl⟩ := List.mem_map.mp hline
      exact (Option.some.inj hc).symm
    · rcases Paint.color_of_mem_drawing hdrawn hc with hfill | hstroke | ⟨op, hop, htext⟩
      · exact .inl hfill
      · exact .inl hstroke
      · exact .inr (.inr ⟨op, Op.mem_of_mem_executed hop, htext⟩)
  · -- a canvas that does not tell its map is wiped and left at that
    rw [commands_render_of_not_tells (Bool.eq_false_iff.mpr htells)] at hd
    obtain rfl := List.mem_singleton.mp hd
    cases hc

/-- A circle behind an operation that names a colour is filled with that colour. -/
theorem exists_filled {r : Renderer α ι} (htells : r.canvas.reportsTransform = true) (size : SurfaceSize α)
    (pre : List (Op α)) {post : List (Op α)} {text : String} {c : Color} {center : Point α} {radius : α}
    (hpre : ∀ op ∈ pre, op.isUnknown = false)
    (hops : r.overlay.ops = pre ++ .fill text :: .circle center radius false :: post)
    (hparse : Color.parse text = .ok c) :
    ∃ d ∈ (r.render size).1.canvas.commands.toList, d.color? = some c := by
  let named := pre ++ [.fill text]
  -- all operations up to the circle get through, so the colour is the one in force there
  have hdone : ∀ op ∈ named ++ [.circle center radius false], op.fails true = false := by
    intro op hop
    rw [Op.fails_true]
    simp only [named, List.mem_append, List.mem_singleton] at hop
    rcases hop with (hbefore | rfl) | rfl
    · exact hpre op hbefore
    · rfl
    · rfl
  have hsplit : r.overlay.executed =
      named ++ .circle center radius false :: Op.executed true post := by
    rw [List.append_cons, ← Op.executed_append hdone, Overlay.executed, hops]
    simp only [named, List.append_assoc, List.cons_append, List.nil_append]
  have hfill : (r.canvasBehind size named).paint.fill = c := by
    rw [paint_canvasBehind htells size (Overlay.fails_of_split hsplit)]
    change (latest? Op.fillColor? (pre ++ [.fill text])).getD _ = c
    rw [latest?_append, latest?_singleton, Op.fillColor?, hparse]
    rfl
  have hplace := getElem?_render_split htells size hsplit rfl
  exact ⟨_, List.mem_of_getElem? hplace, congrArg some hfill⟩

end Renderer

/-! ## Colours from texts

The options are the second way for a colour to come in, and they are read from a text, too. -/

namespace Options

/-- The colour of the grid lines is the standard one, or it was read from a text. -/
theorem gridLineColor_of_decode {text : String} {o : Options Float} (h : decode text = .ok o) :
    o.gridLineColor = standard.gridLineColor ∨ ∃ s, Color.parse s = .ok o.gridLineColor := by
  have hread : ∀ r : Json.Reading, Ensures r.color fun c => ∃ s, Color.parse s = .ok c := by
    intro r c hc
    obtain ⟨s, -, hparse⟩ := Json.Reading.color_eq_ok_iff.mp hc
    exact ⟨s, hparse⟩
  apply ensures_decodeText (P := fun o : Options Float =>
    o.gridLineColor = standard.gridLineColor ∨ ∃ s, Color.parse s = .ok o.gridLineColor) _ text o h
  intro r
  unfold ofReading
  refine (ensures_true _).bind fun fs _ => ?_
  -- the five fields before the colour have no say in it
  refine (ensures_true _).bind fun _ _ => ?_
  refine (ensures_true _).bind fun _ _ => ?_
  refine (ensures_true _).bind fun _ _ => ?_
  refine (ensures_true _).bind fun _ _ => ?_
  refine (ensures_true _).bind fun _ _ => ?_
  have hcolor : Ensures (fs.getD "gridLineColor" Json.Reading.color standard.gridLineColor) fun c =>
      c = standard.gridLineColor ∨ ∃ s, Color.parse s = .ok c := by
    refine ensures_getD (Q := fun _ => True) (fun _ _ => trivial) (fun v _ => ?_) _ (.inl rfl)
    exact (hread v).mono fun _ => .inr
  refine hcolor.bind fun c hc => ?_
  refine (ensures_true _).bind fun _ _ => ?_
  exact ensures_ok hc

end Options

/-! ## The whole way

Both ways start at a text, and texts give components in range, or none. -/

namespace Renderer

/-- **Colours are in range.** Each component of a colour that can be read lies between zero and one or is
no number, and all of them are numbers exactly if the word for no number is not among the arguments. With
options that were read from a text, the same holds of each colour in a diagram: it is in range as long as
neither the grid lines nor the overlay are given that word. -/
theorem colors_inRange :
    (∀ text c, Color.parse text = .ok c → c.InRangeOrNan ∧ (c.InRange ↔ ¬ Color.NamesNan text)) ∧
      ∀ (document : String) (r : Renderer Float ι) (size : SurfaceSize Float),
        Options.decode document = .ok r.options →
        ∀ d ∈ (r.render size).1.canvas.commands.toList, ∀ c ∈ d.color?,
          c.InRangeOrNan ∧
            (r.options.gridLineColor.InRange →
              (∀ op ∈ r.overlay.ops, ∀ text ∈ op.colorText?, ¬ Color.NamesNan text) → c.InRange) := by
  refine ⟨fun _ _ => Color.parse_inRange, ?_⟩
  intro document r size hdecode d hd c hc
  rcases color_of_mem_render (by decide +kernel) hd hc with rfl | rfl | ⟨op, hop, text, htext, hparse⟩
  · have hblack : Color.black.InRange := by decide +kernel
    exact ⟨hblack.orNan, fun _ _ => hblack⟩
  · refine ⟨?_, fun hgrid _ => hgrid⟩
    rcases Options.gridLineColor_of_decode hdecode with hstandard | ⟨text, hparse⟩
    · rw [hstandard]
      exact (Color.OfBytes.inRange ⟨120, 120, 120, 255, by decide, by decide, by decide, by decide,
        rfl⟩).orNan
    · exact (Color.parse_inRange hparse).1
  · obtain ⟨hsound, hiff⟩ := Color.parse_inRange hparse
    exact ⟨hsound, fun _ hnumbers => hiff.mpr (hnumbers op hop text htext)⟩

/-- Negative, large and infinite arguments, for the grid lines and in an overlay. -/
theorem colors_inRange_despite_excess :
    let document := "\x7b\"gridLineColor\":\"rgba(-1, 300, 1e9, inf)\"\x7d"
    let overlay : Overlay Float := ⟨[.fill "rgba(1e99, -0.5, 255, -inf)", .circle .zero one false]⟩
    let size : SurfaceSize Float := ⟨Scalar.ofNat 800, Scalar.ofNat 600, one⟩
    ∃ options c, Options.decode document = .ok options ∧ options.gridLineColor.InRange ∧
      Color.parse "rgba(1e99, -0.5, 255, -inf)" = .ok c ∧ c.InRange ∧
      ∃ d ∈ (render size ((new (.empty true) options : Renderer Float String).setOverlay
        overlay)).1.canvas.commands.toList, d.color? = some c ∧ ∀ c' ∈ d.color?, c'.InRange := by
  intro document overlay size
  have hread : ∃ options, Options.decode document = .ok options ∧ options.gridLineColor.InRange := by
    have hgrid : (Options.decode document).toOption.any (fun o => decide o.gridLineColor.InRange) =
        true := by
      decide +kernel
    cases hdecode : Options.decode document with
    | error e =>
      rw [hdecode] at hgrid
      cases hgrid
    | ok options =>
      rw [hdecode] at hgrid
      exact ⟨options, rfl, of_decide_eq_true hgrid⟩
  obtain ⟨options, hdecode, hgrid⟩ := hread
  let r := (new (.empty true) options : Renderer Float String).setOverlay overlay
  have hnamed : ¬ Color.NamesNan "rgba(1e99, -0.5, 255, -inf)" := by decide +kernel
  have hnumbers : ∀ op ∈ overlay.ops, ∀ text ∈ op.colorText?, ¬ Color.NamesNan text := by
    simpa [overlay, Op.colorText?] using hnamed
  obtain ⟨d, hd, hc⟩ := exists_filled (r := r) rfl size [] (by simp) rfl rfl
  obtain ⟨hparsed, hdrawn⟩ := colors_inRange (ι := String)
  refine ⟨options, _, hdecode, hgrid, rfl, (hparsed _ _ rfl).2.mpr hnamed, d, hd, hc, ?_⟩
  intro c' hc'
  exact (hdrawn document r size hdecode d hd c' hc').2 hgrid hnumbers

/-- The word for no number is read as a component, and a circle is filled with that colour. -/
theorem nan_is_drawn :
    let fresh : Renderer Float String := .new (.empty true) .standard
    let r := fresh.setOverlay ⟨[.fill "rgba(0,0,0,nan)", .circle .zero one false]⟩
    let size : SurfaceSize Float := ⟨Scalar.ofNat 800, Scalar.ofNat 600, one⟩
    ∃ c, Color.parse "rgba(0,0,0,nan)" = .ok c ∧ ¬ c.InRange ∧
      ∃ d ∈ (r.render size).1.canvas.commands.toList, d.color? = some c := by
  intro fresh r size
  refine ⟨_, rfl, by decide +kernel, ?_⟩
  exact exists_filled (r := r) rfl size [] (by simp) rfl rfl

end Renderer

end FieldDiagram
