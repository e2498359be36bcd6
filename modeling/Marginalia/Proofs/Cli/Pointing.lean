import Marginalia.Proofs.Cli.Outcome
import Marginalia.Proofs.Traversal

/-!
# What a successful run points at

A run that succeeds has opened its file, and prints the excerpt of a spot that there is. The line of
the spot lies in the window unless less than no context is asked for, and it is marked with at least
one glyph, however wide the mark is to be. With less than no context the window is empty: the run
still succeeds, but what it prints is the header and nothing else.

Results:
* `Line.beneath_of_singleton`: what stands right beneath a line with one underline.
* `Report.ShowsWindow.pointsAt`: an excerpt points at its spot.
* `Cli.Request.exists_report_of_run`: where a successful run comes from.
* `Cli.Request.run_points`: what a successful run shows.
-/

namespace Marginalia

/-- The row beneath a line that has one underline. -/
theorem Line.showUnderline_of_singleton {l : Line} {u : Underline} (h : l.underlines = [u])
    (hwidth : u.start < u.stop) (colored : Bool) : l.showUnderline colored =
      Text.blanks u.start ++ ((if colored then u.on else []) ++
        (u.head ++ (u.fill.repeated (u.stop - u.start - 1) ++ if colored then u.off else []))) := by
  have hrow : l.underlineRow = [Row.gap (u.start - 0), .on u.on, .glyphs u.head,
      .run u.fill (u.stop - u.start - 1), .off u.off] := by
    rw [underlineRow, h]
    show UnderlineRow.paint [(u, u.stop)] 0 false = _
    have hstroke : u.stroke (u.stop - u.start) =
        [.glyphs u.head, .run u.fill (u.stop - u.start - 1)] := if_neg (by omega)
    rw [UnderlineRow.paint, if_neg (by omega), hstroke]
    rfl
  rw [showUnderline, hrow, Row.emit_cons, Piece.emit_gap, Int.sub_zero]
  simp only [Row.emit, Piece.emit, List.flatMap_cons, List.flatMap_nil, List.append_nil]

/-- **Right beneath a line with one underline** stands a row that is blank up to the underline and
has the head of its pen there. -/
theorem Line.beneath_of_singleton {l : Line} {u : Underline} {glyph : Char}
    (h : l.underlines = [u]) (hwidth : u.start < u.stop) (hhead : u.head = [glyph])
    (colored : Bool) : l.beneath colored =
      (Text.blanks u.start ++ ((if colored then u.on else []) ++
        glyph :: (u.fill.repeated (u.stop - u.start - 1) ++ if colored then u.off else []))) ::
        l.showHints colored := by
  have hrow := l.showUnderline_of_singleton h hwidth colored
  rw [hhead] at hrow
  have hsome : (l.showUnderline colored).isEmpty = false := by
    rw [hrow]
    simp
  rw [beneath, hsome]
  exact congrArg (· :: l.showHints colored) hrow

/-- A mark begins with one glyph that can be seen. -/
theorem Severity.exists_head_pen (sev : Severity) :
    ∃ glyph, sev.pen.head = [glyph] ∧ glyph ≠ ' ' := by
  cases sev with
  | notice => exact ⟨'-', rfl, by decide⟩
  | warning => exact ⟨'^', rfl, by decide⟩
  | error => exact ⟨'^', rfl, by decide⟩

namespace Report

variable {r : Report Line} {s : Source} {m : Remark} {here : Position} {t : Text}

/-- A report points at a position: one block alone has the number of its line. It holds the text of
that line, and its only underline covers something and begins in the column. It is shown as that
text behind its number, and right beneath it a row that is blank up to the column and has a glyph
there. -/
structure PointsAt (r : Report Line) (here : Position) (t : Text) (l : Line) (u : Underline) :
    Prop where
  block : ∃ before after, r.blocks = before ++ l :: after ∧
    ∀ l' ∈ before ++ after, l'.numbered = true → l'.number ≠ here.row
  numbered : l.numbered = true
  number : l.number = here.row
  text : l.text = t
  underlines : l.underlines = [u]
  start : u.start = here.column
  width : u.start < u.stop
  drawn : ∃ above glyph rest below, glyph ≠ ' ' ∧
    r.rows = above ++ (r.gutter (Text.decimal here.row) ++ t) ::
      (Text.blanks (r.gutterWidth + 2) ++ (Text.blanks here.column ++
        ((if r.color then u.on else []) ++ glyph :: rest))) :: below

theorem PointsAt.mem_shown {l : Line} {u : Underline} (h : r.PointsAt here t l u) :
    l ∈ r.shown := by
  obtain ⟨before, after, hblocks, -⟩ := h.block
  rw [shown, hblocks, List.mem_filter]
  exact ⟨List.mem_append_right before List.mem_cons_self, h.numbered⟩

/-- The window of a spot has the line of the spot in it, once. -/
theorem exists_window_split (ht : s.rowText here.row = .ok t) {context : Int}
    (hcontext : 0 ≤ context) : ∃ before after,
      s.window here.row context = before ++ (here.row, t) :: after ∧
        ∀ q ∈ before ++ after, q.1 ≠ here.row := by
  obtain ⟨p, hp, hrow⟩ := List.mem_map.mp (Source.row_mem_window ht hcontext)
  obtain rfl : p = (here.row, t) := by
    have htext := Source.rowText_of_mem_window hp
    rw [hrow, ht, Except.ok.injEq] at htext
    exact Prod.ext hrow htext.symm
  obtain ⟨before, after, hwindow⟩ := List.append_of_mem hp
  have hsorted := Source.pairwise_fst_window s here.row context
  rw [hwindow, List.map_append, List.map_cons, List.pairwise_append, List.pairwise_cons] at hsorted
  refine ⟨before, after, hwindow, fun q hq => ?_⟩
  rcases List.mem_append.mp hq with hq | hq
  · exact Int.ne_of_lt (hsorted.2.2 q.1 (List.mem_map_of_mem hq) _ List.mem_cons_self)
  · exact Int.ne_of_gt (hsorted.2.1.1 q.1 (List.mem_map_of_mem hq))

/-- The line of the spot is one of the blocks, and no other numbered block has its number. -/
theorem ShowsWindow.exists_split (h : r.ShowsWindow s m here) (ht : s.rowText here.row = .ok t)
    (hcontext : 0 ≤ m.context) : ∃ before after,
      r.blocks = before ++ m.lineAt here here.row t :: after ∧
        ∀ l ∈ before ++ after, l.numbered = true → l.number ≠ here.row := by
  obtain ⟨before, after, hwindow, hothers⟩ := exists_window_split ht hcontext
  refine ⟨{ text := s.header here m.message } :: before.map fun p => m.lineAt here p.1 p.2,
    after.map fun p => m.lineAt here p.1 p.2, ?_, fun l hl hnumbered => ?_⟩
  · rw [h.blocks, hwindow, List.map_append, List.map_cons, List.cons_append]
  · rw [List.cons_append, List.mem_cons, ← List.map_append, List.mem_map] at hl
    obtain rfl | ⟨q, hq, rfl⟩ := hl
    · cases hnumbered
    · exact hothers q hq

/-- **An excerpt points at its spot** unless less than no context is asked for. -/
theorem ShowsWindow.pointsAt (h : r.ShowsWindow s m here) (ht : s.rowText here.row = .ok t)
    (hcontext : 0 ≤ m.context) :
    r.PointsAt here t (m.lineAt here here.row t) (m.markFrom here.column t) := by
  obtain ⟨before, after, hblocks, hothers⟩ := h.exists_split ht hcontext
  obtain ⟨glyph, hhead, hvisible⟩ := m.severity.exists_head_pen
  have hunderlines : (m.lineAt here here.row t).underlines = [m.markFrom here.column t] :=
    if_pos rfl
  have hwidth : (m.markFrom here.column t).start < (m.markFrom here.column t).stop := by
    simp only [Remark.markFrom, Pen.beneath]
    omega
  have hrows : r.rows = before.flatMap r.blockRows ++
      (r.blockRows (m.lineAt here here.row t) ++ after.flatMap r.blockRows) := by
    rw [rows, hblocks, List.flatMap_append, List.flatMap_cons]
  rw [blockRows_numbered rfl, Line.showText_untinted rfl,
    Line.beneath_of_singleton hunderlines hwidth hhead r.color] at hrows
  exact ⟨⟨before, after, hblocks, hothers⟩, rfl, rfl, rfl, hunderlines, rfl, hwidth,
    _, glyph, _, _, hvisible, hrows⟩

end Report

namespace Cli

theorem Setting.get_eq_ok {α : Type} {s : Setting α} {fault : Fault} {a : α}
    (h : s.get fault = .ok a) : s = .value a := by
  cases s with
  | value b =>
    cases h
    rfl
  | blank => cases h

namespace Request

variable {r : Request} {codecs : Text → Option Codec} {find : Text → Entry} {o : Outcome}

/-! ## Where a successful run comes from -/

/-- A request that comes to a report leaves nothing blank that it needs. -/
theorem exists_asks {s : Source} {report : Report Line} (h : r.report s = .ok report) :
    ∃ line column context, r.Asks line column context := by
  obtain ⟨m, h, -⟩ := exists_of_bind_eq_ok h
  obtain ⟨column, hcolumn, h⟩ := exists_of_bind_eq_ok h
  obtain ⟨line, hline, h⟩ := exists_of_bind_eq_ok h
  obtain ⟨start, -, h⟩ := exists_of_bind_eq_ok h
  obtain ⟨text, -, h⟩ := exists_of_bind_eq_ok h
  obtain ⟨width, hwidth, h⟩ := exists_of_bind_eq_ok h
  obtain ⟨severity, hseverity, h⟩ := exists_of_bind_eq_ok h
  obtain ⟨context, hcontext, -⟩ := exists_of_bind_eq_ok h
  refine ⟨line, column, context, Setting.get_eq_ok hline, Setting.get_eq_ok hcolumn,
    Setting.get_eq_ok hcontext, fun hblank => ?_, fun hblank => ?_⟩
  · rw [hblank] at hwidth
    cases hwidth
  · rw [hblank] at hseverity
    cases hseverity

/-- A run that succeeds has opened its file. -/
theorem exists_opens (hrun : r.run codecs find = .ok o) (h0 : o.status = 0) :
    ∃ decoded, r.Opens codecs find decoded := by
  have hfails : ∀ reason, ¬ r.Fails codecs find reason := by
    intro reason hreason
    cases (run_of_fails hreason).symm.trans hrun
    cases h0
  cases hencoding : r.encoding with
  | blank =>
    rw [run, hencoding] at hrun
    cases hrun
  | value name =>
    have hname : '\x00' ∉ name := by
      intro hname
      simp [run, hencoding, Setting.get, bind, Except.bind, hname] at hrun
    have hpath : '\x00' ∉ r.path := by
      intro hpath
      simp [run, hencoding, Setting.get, bind, Except.bind, hname, hpath] at hrun
    rw [run_of_found hencoding hname hpath] at hrun
    cases hfile : find r.path with
    | unreadable code reason => exact absurd (.unreadable hencoding hname hpath hfile) (hfails _)
    | file bytes =>
      rw [hfile] at hrun
      cases hcodec : codecs name with
      | none => simp [runOn, hcodec] at hrun
      | some codec =>
        cases hdecoded : codec bytes with
        | text decoded => exact ⟨decoded, .intro hencoding hname hpath hfile hcodec hdecoded⟩
        | garbled reason =>
          exact absurd (.garbled hencoding hname hpath hfile hcodec hdecoded) (hfails _)
        | fault fault => simp [runOn, hcodec, hdecoded] at hrun

/-- A run that succeeds has a report to print. -/
theorem exists_report_of_display {decoded : Stored} (h : r.display decoded = .ok o)
    (h0 : o.status = 0) :
    ∃ report, r.report (r.source decoded) = .ok report ∧ o = .success report.render := by
  cases hreport : r.report (r.source decoded) with
  | error e =>
    rw [display_of_error hreport] at h
    split at h
    · cases h
      cases h0
    · cases h
  | ok report =>
    rw [display_of_ok hreport] at h
    split at h
    · cases h
    · cases h
      exact ⟨report, rfl, rfl⟩

/-- **Where a successful run comes from**: its file opened, it was asked for a line and a column
that the file has, and it printed the excerpt of that spot. -/
theorem exists_report_of_run (hrun : r.run codecs find = .ok o) (h0 : o.status = 0) :
    ∃ decoded line column context report m,
      r.Opens codecs find decoded ∧ r.Asks line column context ∧
      r.report (r.source decoded) = .ok report ∧ o = .success report.render ∧
      Within (decoded.1.unifyBreaks.splitOn '\n') line column ∧
      report.ShowsWindow (r.source decoded) m ⟨line, column - 1⟩ ∧ m.context = context := by
  obtain ⟨decoded, hopens⟩ := exists_opens hrun h0
  rw [run_of_opens hopens] at hrun
  obtain ⟨report, hreport, ho⟩ := exists_report_of_display hrun h0
  obtain ⟨line, column, context, hasks⟩ := exists_asks hreport
  have hwithin := within_of_display hasks hrun h0
  obtain ⟨m, report', hreport', hshows, -, -, hcontext, -⟩ :=
    report_ok hasks rfl (rowTexts_source r decoded ▸ hwithin)
  obtain rfl : report' = report := Except.ok.inj (hreport'.symm.trans hreport)
  exact ⟨decoded, line, column, context, report', m, hopens, hasks, hreport, ho, hwithin, hshows,
    hcontext⟩

/-! ## What it shows -/

/-- **A run that succeeds points at the spot that it was asked for**, in the text that its file
holds: it prints a report, and of the numbered lines of that one alone has the number; it is the
line of the file, and its only underline covers something and begins in the column, so that a glyph
is printed there on the row beneath. With less than no context it shows no line at all, and all that
it prints is the header. -/
theorem run_points (hrun : r.run codecs find = .ok o) (h0 : o.status = 0) :
    ∃ decoded line column context report,
      r.Opens codecs find decoded ∧ r.Asks line column context ∧
      r.report (r.source decoded) = .ok report ∧ o = .success report.render ∧
      (0 ≤ context → ∃ l u, report.PointsAt ⟨line, column - 1⟩
        ((decoded.1.unifyBreaks.splitOn '\n').getD (line - 1).toNat []) l u) ∧
      (context < 0 → report.shown = [] ∧ ∃ header, report.rows = [header]) := by
  obtain ⟨decoded, line, column, context, report, m, hopens, hasks, hreport, ho, hwithin, hshows,
    rfl⟩ := exists_report_of_run hrun h0
  refine ⟨decoded, line, column, m.context, report, hopens, hasks, hreport, ho,
    fun hcontext => ?_, fun hcontext => ?_⟩
  · have hrows := rowTexts_source r decoded
    rw [← hrows] at hwithin ⊢
    exact ⟨_, _, hshows.pointsAt (Source.rowText_of_row rfl hwithin.1) hcontext⟩
  · have hshown := hshows.shown_eq_nil hcontext
    have hwindow : (r.source decoded).window line m.context = [] := by
      rw [hshows.shown_eq] at hshown
      exact List.map_eq_nil_iff.mp hshown
    have hrows : report.rows =
        report.blockRows { text := (r.source decoded).header ⟨line, column - 1⟩ m.message } := by
      rw [Report.rows, hshows.blocks, hwindow]
      exact List.append_nil _
    exact ⟨hshown, _, hrows.trans (Report.blockRows_unnumbered rfl)⟩

/-- A column just past the end of its line, in a mark that is to be less than nothing wide. -/
theorem run_points_past_the_end :
    let r : Request :=
      { path := ['f'], line := .value 2, column := .value 3, width := some (.value (-5)) }
    let find : Text → Entry := fun _ => .file [97, 98, 13, 10, 99, 100]
    let o : Outcome :=
      .success "f: line 2, column 3: here\n2 | cd\n      ^".toList
    (r.run Encoding.codec? find = .ok o ∧ o.status = 0) ∧
      ∃ (report : Report Line) (l : Line) (u : Underline), o = .success report.render ∧ report.PointsAt ⟨2, 2⟩ ['c', 'd'] l u := by
  intro r find o
  have hrun : r.run Encoding.codec? find = .ok o := by decide
  obtain ⟨decoded, line, column, context, report, hopens, hasks, -, ho, hpoints, -⟩ :=
    run_points hrun rfl
  cases hasks.line
  cases hasks.column
  cases hasks.context
  obtain ⟨hencoding, -, -, hfile, hcodec, hdecoded⟩ := hopens
  cases hencoding
  cases hfile
  cases hcodec
  cases hdecoded
  obtain ⟨l, u, hl⟩ := hpoints (by decide)
  exact ⟨⟨hrun, rfl⟩, report, l, u, ho, hl⟩

/-- **A run that succeeds need not show the line that it was asked for.** -/
theorem run_shows_no_line :
    ¬ ∀ (r : Request) (codecs : Text → Option Codec) (find : Text → Entry) (o : Outcome),
      r.run codecs find = .ok o → o.status = 0 →
      ∃ decoded line column context report l u, r.Opens codecs find decoded ∧
        r.Asks line column context ∧ r.report (r.source decoded) = .ok report ∧
        o = .success report.render ∧ report.PointsAt ⟨line, column - 1⟩
          ((decoded.1.unifyBreaks.splitOn '\n').getD (line - 1).toNat []) l u := by
  intro hclaim
  let r : Request := { path := ['f'], line := .value 1, context := .value (-1) }
  let find : Text → Entry := fun _ => .file [97, 98, 99]
  have hrun : r.run Encoding.codec? find = .ok (.success "f: line 1, column 1: here".toList) := by
    decide
  obtain ⟨decoded, line, column, context, report, l, u, hopens, hasks, hreport, -, hpoints⟩ :=
    hclaim r Encoding.codec? find _ hrun rfl
  have hwithin := within_of_display hasks ((run_of_opens hopens).symm.trans hrun) rfl
  obtain ⟨m, report', hreport', hshows, -, -, hcontext, -⟩ :=
    report_ok hasks rfl (rowTexts_source r decoded ▸ hwithin)
  obtain rfl : report' = report := Except.ok.inj (hreport'.symm.trans hreport)
  cases hasks.context
  have hshown := hshows.shown_eq_nil (by omega)
  exact List.ne_nil_of_mem hpoints.mem_shown hshown

end Request

end Cli

end Marginalia
