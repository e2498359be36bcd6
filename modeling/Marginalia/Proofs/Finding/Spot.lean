import Marginalia.Proofs.Finding.Layout
import Marginalia.Proofs.Numbers
import Marginalia.Proofs.Source.Excerpt
import Marginalia.Proofs.TextRow

/-!
# One spot, shown in two ways

An excerpt without lines around its spot and a finding with one piece of evidence come to the same
line on different ways: the one goes through the rows of a window, the other turns to the row of its
piece and hangs a mark there. In both the line ends a report that has only notes above it, and the
cursor stands right behind it. So it has the same gutter and the same rows as in a report that shows
nothing else (`Report.alone`), whatever the notes are.

Results:
* `Report.ShowsBelow.render?_eq`: the text of a report with notes above one line.
* `Source.excerpt_showsBelow`, `Source.evidenceReport_showsBelow`: both reports are such.
* `Session.render?_excerpt`, `Finding.assemble_reports?`: the texts that come of them.
* `Finding.render_single_piece`: an excerpt and a finding agree on a single spot.
-/

namespace Marginalia

namespace Text

theorem stack_cons {t : Text} {rows : List Text} (h : rows ≠ []) :
    stack (t :: rows) = t ++ '\n' :: stack rows := by
  obtain ⟨u, rest, rfl⟩ := List.exists_cons_of_ne_nil h
  rw [stack, stack, List.intercalate_cons_cons, List.append_assoc]
  rfl

/-- Rows below others may be stacked first. -/
theorem stack_append (above : List Text) {rows : List Text} (h : rows ≠ []) :
    stack (above ++ rows) = stack (above ++ [stack rows]) := by
  induction above with
  | nil => simp [stack]
  | cons t above ih =>
    rw [List.cons_append, List.cons_append, stack_cons (by simp [h]), stack_cons (by simp), ih]

end Text

/-! ## A line below some notes -/

namespace Report

/-- The report that shows one line under its number, and nothing else. -/
def alone (color : Bool) (l : Line) : Report Line :=
  { color := color, numbering := { cursor := l.number + 1 }, blocks := [l] }

/-- A report shows some texts without a number, and below them one line under its number. -/
structure ShowsBelow (notes : List Text) (color : Bool) (l : Line) (r : Report Line) : Prop where
  numbered : l.numbered = true
  blocks : r.blocks = notes.map (fun t => { text := t }) ++ [l]
  cursor : r.numbering.cursor = l.number + 1
  color : r.color = color
  indentAll : r.indentAll = false

theorem render?_eq (r : Report Line) :
    r.render? = (Fault.check r.excess?).map fun _ => r.render := by
  rw [render?]
  cases r.excess? <;> rfl

namespace ShowsBelow

variable {notes : List Text} {color : Bool} {l : Line} {r : Report Line}

/-- A line alone is below no notes. -/
theorem alone (color : Bool) (hl : l.numbered = true) : (alone color l).ShowsBelow [] color l :=
  ⟨hl, rfl, rfl, rfl, rfl⟩

variable (h : r.ShowsBelow notes color l)

include h

theorem shown_eq : r.shown = [l] := by
  have hnotes : ∀ n ∈ notes.map (fun t => ({ text := t } : Line)), ¬ n.numbered = true := by
    intro n hn
    obtain ⟨t, -, rfl⟩ := List.mem_map.mp hn
    exact Bool.false_ne_true
  rw [shown, h.blocks, numbered_concat _ h.numbered, List.filter_eq_nil_iff.mpr hnotes,
    List.nil_append]

theorem firstNumber_eq : r.firstNumber = l.number := by
  rw [Report.firstNumber_eq, numbers_eq_map_shown, h.shown_eq]
  rfl

theorem excess?_eq : r.excess? =
    (Text.decimalExcess? (2 * l.number + 1)).or (l.excess? color) := by
  have hmeasure : l.number + (l.number + 1) = 2 * l.number + 1 := by omega
  have hshown : r.blocks.filter (·.numbered) = [l] := h.shown_eq
  rw [excess?, h.firstNumber_eq, h.cursor, hmeasure, hshown, h.color, List.findSome?_singleton]

/-- The gutter is measured by the number of the line alone. -/
theorem gutterWidth_eq : r.gutterWidth = 1 + Text.digitCount (l.number + (l.number + 1)) := by
  rw [gutterWidth, h.firstNumber_eq, h.cursor]

/-- The rows of the report are its notes and the rows of the line. -/
theorem rows_eq : r.rows = notes ++ r.blockRows l := by
  have hnotes : (notes.map fun t => ({ text := t } : Line)).flatMap r.blockRows = notes := by
    rw [List.flatMap_map, List.flatMap_congr fun t _ => ?_, List.flatMap_singleton']
    rw [blockRows_unnumbered rfl, h.indentAll, Line.showText_untinted rfl]
    rfl
  rw [rows, h.blocks, List.flatMap_append, hnotes, List.flatMap_singleton]

/-- **Below notes a line is shown as it is alone**: its rows stand below the notes. -/
theorem render_eq : r.render = Text.stack (notes ++ [(Report.alone color l).render]) := by
  have halone := ShowsBelow.alone color h.numbered
  have hrows : r.blockRows l = (Report.alone color l).blockRows l := by
    rw [blockRows_numbered h.numbered, blockRows_numbered h.numbered, gutter, gutter,
      h.gutterWidth_eq, halone.gutterWidth_eq, h.color, halone.color]
  have hne : (Report.alone color l).blockRows l ≠ [] := by
    rw [blockRows_numbered h.numbered]
    exact List.cons_ne_nil _ _
  rw [render, h.rows_eq, hrows, Text.stack_append notes hne, render, halone.rows_eq,
    List.nil_append]

/-- It is refused for what the line alone is refused for. -/
theorem excess?_eq_alone : r.excess? = (Report.alone color l).excess? :=
  h.excess?_eq.trans (ShowsBelow.alone color h.numbered).excess?_eq.symm

theorem render?_eq : r.render? =
    (Report.alone color l).render?.map fun shown => Text.stack (notes ++ [shown]) := by
  rw [Report.render?_eq, Report.render?_eq, h.excess?_eq_alone, h.render_eq]
  cases (Report.alone color l).excess? <;> rfl

/-- Where the number of the line cannot be written, the report cannot be either. -/
theorem render?_of_long {e : Fault} (h0 : 0 ≤ l.number)
    (hlong : Text.decimalExcess? l.number = some e) : r.render? = .error e := by
  have hmeasure : Text.decimalExcess? (2 * l.number + 1) = some e :=
    Text.decimalExcess?_of_le hlong (by omega)
  rw [Report.render?_eq, h.excess?_eq, hmeasure]
  rfl

end ShowsBelow

end Report

/-! ## Two ways to the same line -/

/-- A remark as a piece of evidence. -/
def Remark.evidence (m : Remark) : Evidence := { spot := m.spot, caption := m.caption }

namespace Source

variable {s : Source} {m : Remark} {here : Position} {t : Text}

/-- Without lines around it, a window is one row. -/
theorem window_zero {row : Int} (ht : s.rowText row = .ok t) : s.window row 0 = [(row, t)] := by
  obtain ⟨i, l, hl, hrow, -⟩ := rowText_eq_ok_iff.mp ht
  have hi := (List.getElem?_eq_some_iff.mp hl).1
  have hlast : s.lastRow = s.firstRow + s.lines.length - 1 := rfl
  have hrows : (s.window row 0).map Prod.fst = [row] := by
    have hmax : max s.firstRow (row - 0) = row := by omega
    have hmin : min s.lastRow (row + 0) + 1 = row + 1 := by omega
    have hone : (row + 1 - row).toNat = 1 := by omega
    rw [map_fst_window, hmax, hmin, Int.range, hone]
    simp
  obtain ⟨p, hp, rfl⟩ := List.map_eq_singleton_iff.mp hrows
  have htext := rowText_of_mem_window (hp ▸ List.mem_singleton.mpr rfl)
  rw [ht, Except.ok.injEq] at htext
  rw [hp, htext]

/-- The note of a file is told by its text. -/
theorem fileNote_texts (s : Source) :
    (s.fileNote.toList.map (·.text)).map (fun t => ({ text := t } : Line)) =
      s.fileNote.toList := by
  cases hfile : s.fileNote with
  | none => rfl
  | some note =>
    rw [eq_of_fileNote_eq_some hfile]
    rfl

theorem opening_settings (s : Source) (color : Bool) :
    (s.opening color).report.color = color ∧ (s.opening color).report.indentAll = false := by
  unfold opening
  cases s.fileNote <;> exact ⟨rfl, rfl⟩

section Shown

variable (hfirst : 0 ≤ s.firstRow) (hhere : s.position m.spot.start = .ok here)
  (ht : s.rowText here.row = .ok t)

include hfirst hhere ht

/-- **An excerpt without lines around its spot** shows the line of the spot below the header. -/
theorem excerpt_showsBelow (hcontext : m.context = 0)
    (hdigits : Text.digitCount here.row ≤ Text.digitLimit) :
    ∃ r, s.excerpt m = .ok r ∧
      r.ShowsBelow [s.header here m.message] m.color (m.lineAt here here.row t) := by
  obtain ⟨hrow, hcolumn, -⟩ := position_bounds hhere
  have hcursor : (s.overture m here).numbering.cursor = here.row := by
    simp only [overture]
    omega
  have hwindow : s.window here.row m.context = [(here.row, t)] := hcontext ▸ window_zero ht
  have hline := showLine_eq (m := m) hcolumn (s.overture m here) t
  rw [hcursor] at hline
  rw [excerpt_of_position hfirst hhere hdigits, hwindow, List.foldlM_cons, hline]
  exact ⟨_, rfl, rfl, rfl, congrArg (· + 1) hcursor, rfl, rfl⟩

/-- One piece of evidence brings its mark on the line that it turns to. -/
theorem add_opening_showsBelow :
    ∃ d, Draft.add m.severity s (s.opening m.color) m.evidence = .ok d ∧
      d.report.ShowsBelow (s.fileNote.toList.map (·.text)) m.color
        (m.lineAt here here.row t) := by
  have hblank := s.opening_blank m.color
  have hend : ∀ before l, ¬ (s.opening m.color).EndsWith s before l := by
    intro before l hend
    cases hblank.row.symm.trans hend.row
  have hturn : (s.opening m.color).row ≠ some here.row := by
    rw [hblank.row]
    exact nofun
  have hlast : ∀ last, (s.opening m.color).report.numbering.last = some last →
      last ≤ here.row := by
    intro last hsome
    rw [hblank.numbering] at hsome
    cases hsome
  obtain ⟨hrow, -⟩ := position_bounds hhere
  have hcount := (s.opening_traces m.severity m.color).skipped_eq_none hhere
  obtain ⟨d, hadd, hgrows⟩ := Draft.grows_of_row_ne (e := m.evidence) m.severity hturn (by omega)
    ht hhere hlast hcount fun before l h => absurd h (hend before l)
  obtain ⟨hcolor, hindent⟩ := s.opening_settings m.color
  refine ⟨d, hadd, ?_⟩
  cases hgrows with
  | shared h | again h => exact absurd h (hend _ _)
  | turned =>
    refine ⟨rfl, ?_, rfl, hcolor, hindent⟩
    show (s.opening m.color).report.blocks ++ _ ++ _ = _
    rw [hblank.skipNotices_eq, opening_blocks, List.append_nil, fileNote_texts, Remark.lineAt,
      if_pos rfl]
    rfl

/-- **The report of one piece of evidence** shows its line below the note of the file. -/
theorem evidenceReport_showsBelow :
    ∃ r, s.evidenceReport m.severity m.color [m.evidence] = .ok r ∧
      r.ShowsBelow (s.fileNote.toList.map (·.text)) m.color (m.lineAt here here.row t) := by
  obtain ⟨d, hadd, hshows⟩ := add_opening_showsBelow hfirst hhere ht
  have hone : inOrder (·.spot.start) [m.evidence] = [m.evidence] := rfl
  refine ⟨d.report, ?_, hshows⟩
  rw [evidenceReport_eq, hone, List.foldlM_cons, hadd]
  rfl

/-- There is room for the line of the spot, so that it is refused for nothing but the number that
measures its gutter. -/
theorem excess?_alone :
    (Report.alone m.color (m.lineAt here here.row t)).excess? =
      Text.decimalExcess? (2 * here.row + 1) := by
  obtain ⟨hrow, h0, hcolumn, -⟩ := position_bounds hhere
  have hlength := length_rowText_le ht
  have hroom := s.fits
  have hshows := Report.ShowsBelow.alone m.color
    (show (m.lineAt here here.row t).numbered = true from rfl)
  have hmeasure : (Report.alone m.color (m.lineAt here here.row t)).firstNumber +
      (Report.alone m.color (m.lineAt here here.row t)).numbering.cursor = 2 * here.row + 1 := by
    rw [hshows.firstNumber_eq, hshows.cursor]
    show here.row + (here.row + 1) = _
    omega
  rw [← hmeasure]
  refine Report.excess?_of_fits (fun l hl u hu => ?_) fun l hl => ?_
  · rw [hshows.shown_eq] at hl
    rw [List.mem_singleton.mp hl, Remark.lineAt, if_pos rfl] at hu
    rw [List.mem_singleton.mp hu, Remark.markFrom]
    exact m.severity.fits_beneath h0 (by omega) (by omega) _ _
  · rw [hshows.shown_eq] at hl
    rw [List.mem_singleton.mp hl, hmeasure]
    show 0 ≤ here.row ∧ here.row ≤ 2 * here.row + 1
    omega

end Shown

end Source

/-! ## The two texts -/

section Texts

variable {s : Source} {m : Remark} {here : Position} {t : Text} (hfirst : 0 ≤ s.firstRow)
  (hhere : s.position m.spot.start = .ok here) (ht : s.rowText here.row = .ok t)

include hfirst hhere ht

/-- **The text of an excerpt without lines around its spot.** It is refused for its header only
where the line of the spot cannot be written either. -/
theorem Session.render?_excerpt {session : Session} {name : String}
    (hname : session.source name = .ok s) (hcontext : m.context = 0) :
    (session.excerpt name m >>= Report.render?) =
      (Report.alone m.color (m.lineAt here here.row t)).render?.map
        fun shown => Text.stack [s.header here m.message, shown] := by
  rw [excerpt, hname]
  by_cases hdigits : Text.digitCount here.row ≤ Text.digitLimit
  · obtain ⟨r, hr, hshows⟩ := Source.excerpt_showsBelow hfirst hhere ht hcontext hdigits
    exact (congrArg (· >>= Report.render?) hr).trans hshows.render?_eq
  · have hlong := Nat.lt_of_not_le hdigits
    have h0 : 0 ≤ here.row := Int.le_trans hfirst (Source.position_bounds hhere).1
    have halone := Report.ShowsBelow.alone m.color
      (show (m.lineAt here here.row t).numbered = true from rfl)
    rw [halone.render?_of_long h0 (Text.decimalExcess?_of_long hlong)]
    exact congrArg (· >>= Report.render?) (Source.excerpt_of_long_row hhere hlong)

/-- **The text of a finding with one piece of evidence.** -/
theorem Finding.assemble_reports? {κ : Type} {key : κ} {fetch : κ → Except Fault Source}
    (hfetch : fetch key = .ok s) {f : Finding κ} (hsev : f.severity = m.severity)
    (hevidence : f.evidence = [(key, [m.evidence])]) :
    (f.reports? fetch m.color).map f.assemble =
      (Report.alone m.color (m.lineAt here here.row t)).render?.map
        fun shown => Text.stack (f.headline :: s.fileNote.toList.map (·.text) ++ [shown]) := by
  obtain ⟨r, hr, hshows⟩ := Source.evidenceReport_showsBelow hfirst hhere ht
  have hreport : f.report fetch m.color (key, [m.evidence]) = .ok r := by
    rw [report, hfetch, hsev]
    exact hr
  have hreports : f.reports? fetch m.color = (written (.ok r)).map fun r => [r] := by
    rw [reports?_eq, hevidence, List.mapM_cons, hreport]
    cases written (.ok r) <;> rfl
  have hshown : [r].filter (fun r => !r.blocks.isEmpty) = [r] := by simp [hshows.blocks]
  have htext : f.assemble [r] = Text.stack (f.headline :: s.fileNote.toList.map (·.text) ++
      [(Report.alone m.color (m.lineAt here here.row t)).render]) := by
    rw [assemble, hshown, List.map_singleton, hshows.render_eq]
    exact (Text.stack_append [f.headline] (by simp)).symm
  rw [hreports, written_ok, hshows.excess?_eq_alone, Report.render?_eq]
  cases (Report.alone m.color (m.lineAt here here.row t)).excess? with
  | some e => rfl
  | none => exact congrArg Except.ok htext

end Texts

namespace Finding

variable {κ : Type} {session : Session} {name : String} {s : Source} {key : κ}
  {fetch : κ → Except Fault Source}

/-- **An excerpt and a finding agree on a single spot.** Of a source whose lines have no negative
numbers, let a remark without lines around its spot, which begins within the text, be shown as an
excerpt, and let its spot with its caption be all the evidence of a finding. Both have the text of a
report that shows the line of the spot alone: the excerpt below its header, and the finding below
its headline and the note of the file if the source has a name. If that report cannot be written,
both are refused for the same reason; and that is so only where the number that measures the gutter
has too many digits. -/
theorem render_single_piece (hname : session.source name = .ok s) (hfetch : fetch key = .ok s)
    (hfirst : 0 ≤ s.firstRow) (m : Remark) (hcontext : m.context = 0)
    (hspot : 0 ≤ m.spot.start ∧ m.spot.start ≤ s.content.length) (activity summary : Text) :
    let f : Finding κ := { activity := activity, severity := m.severity, summary := summary,
                           evidence := [(key, [{ spot := m.spot, caption := m.caption }])] }
    ∃ here t, s.position m.spot.start = .ok here ∧ s.rowText here.row = .ok t ∧
      let alone := Report.alone m.color (m.lineAt here here.row t)
      (session.excerpt name m >>= Report.render?) =
        alone.render?.map (fun shown => Text.stack [s.header here m.message, shown]) ∧
      (f.reports? fetch m.color).map f.assemble = alone.render?.map (fun shown =>
        Text.stack (f.headline :: s.fileNote.toList.map (·.text) ++ [shown])) ∧
      alone.excess? = Text.decimalExcess? (2 * here.row + 1) := by
  intro f
  obtain ⟨here, hhere⟩ := Source.exists_position hspot.1 hspot.2
  obtain ⟨-, -, -, t, ht⟩ := Source.position_bounds hhere
  exact ⟨here, t, hhere, ht, Session.render?_excerpt hfirst hhere ht hname hcontext,
    assemble_reports? hfirst hhere ht hfetch rfl rfl, Source.excess?_alone hfirst hhere ht⟩

/-- A spot in the second line of a named file, which a mark of four cells would run past. -/
theorem render_single_piece_second_line :
    let s : Source := { content := ['a', '\n', 'b', 'c'], filename := some ['f'] }
    let session : Session := { sources := [("s", s)] }
    let fetch : Unit → Except Fault Source := fun _ => .ok s
    let m : Remark := { spot := ⟨3, 7⟩, message := ['m'], severity := .warning, caption := ['x'] }
    let f : Finding Unit := { activity := ['p'], severity := .warning, summary := ['d'],
                              evidence := [((), [{ spot := ⟨3, 7⟩, caption := ['x'] }])] }
    (session.source "s" = .ok s ∧ fetch () = .ok s ∧ 0 ≤ s.firstRow ∧ m.context = 0 ∧
      0 ≤ m.spot.start ∧ m.spot.start ≤ s.content.length) ∧
      ∃ shown, (session.excerpt "s" m >>= Report.render?) =
          .ok (Text.stack ["f: line 2, column 2: m".toList, shown]) ∧
        (f.reports? fetch false).map f.assemble = .ok (Text.stack
          ["Warning while p: d".toList, "Excerpt from f :".toList, shown]) := by
  intro s session fetch m f
  have hspot : 0 ≤ m.spot.start ∧ m.spot.start ≤ s.content.length := by decide
  obtain ⟨here, t, hhere, ht, hexcerpt, hfinding, hexcess⟩ :=
    @render_single_piece Unit session "s" s () fetch rfl rfl (by decide) m rfl hspot ['p'] ['d']
  obtain rfl : (⟨2, 1⟩ : Position) = here := Except.ok.inj hhere
  obtain rfl : ['b', 'c'] = t := Except.ok.inj ht
  have hwritten : (Report.alone m.color (m.lineAt ⟨2, 1⟩ 2 ['b', 'c'])).excess? = none :=
    hexcess.trans (by decide)
  have hheadline : f.headline = "Warning while p: d".toList := by decide
  have hnote : s.fileNote.toList.map (·.text) = ["Excerpt from f :".toList] := by decide
  rw [Report.render?_eq, hwritten] at hexcerpt hfinding
  rw [hnote] at hfinding
  exact ⟨⟨rfl, rfl, by decide, rfl, hspot⟩, _, hexcerpt, hheadline ▸ hfinding⟩

/-- A spot within the text is not always shown: the only line has the largest number that can be
written, but the gutter is measured by a larger one. -/
theorem render_refuses_long_rows :
    ¬ ∀ (session : Session) (name : String) (s : Source) (m : Remark),
      session.source name = .ok s → 0 ≤ s.firstRow → m.context = 0 →
      0 ≤ m.spot.start ∧ m.spot.start ≤ s.content.length →
      ∃ here shown, s.position m.spot.start = .ok here ∧
        (session.excerpt name m >>= Report.render?) =
          .ok (Text.stack [s.header here m.message, shown]) := by
  intro hclaim
  obtain ⟨n, hpos, -, hlong⟩ := Text.exists_longest
  let s : Source := { content := ['a'], firstRow := n }
  let session : Session := { sources := [("s", s)] }
  let m : Remark := { spot := ⟨0, 1⟩, message := ['m'] }
  have hrow : s.firstRow = n := rfl
  have hfirst : 0 ≤ s.firstRow := Int.le_of_lt hpos
  have hhere : s.position m.spot.start = .ok ⟨s.firstRow + 0, 0⟩ := rfl
  have ht : s.rowText (s.firstRow + 0) = .ok ['a'] :=
    Source.rowText_eq_ok_iff.mpr ⟨0, { text := ['a'] }, rfl, rfl, rfl⟩
  have hdigits : Text.digitLimit < Text.digitCount (2 * (s.firstRow + 0) + 1) :=
    hlong _ (by omega)
  have hexcess := Source.excess?_alone (m := m) hfirst hhere ht
  rw [Text.decimalExcess?, if_pos hdigits] at hexcess
  have hname : session.source "s" = .ok s := rfl
  have hrefused := Session.render?_excerpt hfirst hhere ht hname (m := m) rfl
  rw [Report.render?_eq, hexcess] at hrefused
  obtain ⟨_, _, -, hshown⟩ := hclaim session "s" s m hname hfirst rfl
    ⟨Int.le_refl 0, Int.natCast_nonneg 1⟩
  cases hrefused.symm.trans hshown

end Finding

end Marginalia
