import Marginalia.Cli.Run
import Marginalia.Proofs.Source.Written
import Marginalia.Proofs.TextRow

/-!
# What comes of a request

A request goes from a line and a column to an offset, and the excerpt from the offset back to a line
and a column. The two are inverse to each other, so the header names the spot that was asked for.
A spot that the file does not have ends the run with a message. Otherwise the run succeeds, but
with less than no context the number that measures the gutter may be too long to be written.

All of this holds whatever the codecs make of the bytes of a file.

Results:
* `Convention.texts_cut_normal`: the lines of a file.
* `Source.rowText_of_row`, `Source.rowText_of_no_row`: the lines that a source has.
* `Cli.Request.report_ok`: the report of a request for a spot that there is.
* `Cli.Request.run_comesOut`: how a run ends, and what is printed.
-/

namespace Marginalia

/-! ## The lines of a file -/

/-- Once the breaks are made all alike, there are no carriage returns. -/
theorem Text.not_mem_unifyBreaks (t : Text) : '\r' ∉ t.unifyBreaks := by
  fun_induction unifyBreaks t with
  | case1 rest ih => simpa using ih
  | case2 rest hrest ih => simpa using ih
  | case3 c rest hpair hc ih =>
    rw [List.mem_cons, not_or]
    exact ⟨fun h => hc h.symm, ih⟩
  | case4 => simp

/-- **A text is split at its line feeds** where these are the only breaks in it. -/
theorem Convention.texts_cut_of_singles {k : Convention} (hlf : '\n' ∈ k.singles) : ∀ {t : Text},
    (∀ c ∈ t, c ∈ k.singles → c = '\n') → (k.pair → '\r' ∉ t) →
    (k.cut t).map (·.text) = t.splitOn '\n'
  | [], _, _ => rfl
  | c :: rest, hsingle, hcr => by
    have hpair : ¬ (k.pair ∧ c = '\r' ∧ rest.head? = some '\n') :=
      fun h => hcr h.1 (h.2.1 ▸ List.mem_cons_self)
    have ih := texts_cut_of_singles hlf (fun d hd => hsingle d (List.mem_cons_of_mem c hd))
      fun hk hmem => hcr hk (List.mem_cons_of_mem c hmem)
    rw [List.splitOn_cons_eq_if_modifyHead, ← ih]
    by_cases hc : c = '\n'
    · rw [cut_cons_of_mem (hc ▸ hlf) hpair, if_pos (by simp [hc])]
      rfl
    · have hchar : c ∉ k.singles := fun hs => hc (hsingle c List.mem_cons_self hs)
      rw [cut_cons_of_not_mem hchar hpair, if_neg (by simp [hc]), map_text_modifyHead]

/-- Without carriage returns, lines end with line feeds. -/
theorem Convention.texts_cut_normal {t : Text} (h : '\r' ∉ t) :
    (normal.cut t).map (·.text) = t.splitOn '\n' := by
  refine texts_cut_of_singles (by decide) (fun c hc hs => ?_) fun _ => h
  rcases List.mem_cons.mp hs with rfl | hs
  · exact absurd hc h
  · exact List.mem_singleton.mp hs

/-- A line and a column of a text with some rows, both counted from one. The column may be that just
past the end of its line. -/
def Within (rows : List Text) (line column : Int) : Prop :=
  (1 ≤ line ∧ line ≤ rows.length) ∧
    1 ≤ column ∧ column ≤ (rows.getD (line - 1).toNat []).length + 1

instance (rows : List Text) (line column : Int) : Decidable (Within rows line column) :=
  inferInstanceAs (Decidable (_ ∧ _))

namespace Source

variable {s : Source} {line column : Int}

/-- A source whose lines are counted from one has a line for each of its rows. -/
theorem rowText_of_row (hfirst : s.firstRow = 1) (h : 1 ≤ line ∧ line ≤ s.rowTexts.length) :
    s.rowText line = .ok (s.rowTexts.getD (line - 1).toNat []) := by
  have hlast : s.lastRow = s.firstRow + s.lines.length - 1 := rfl
  rw [rowTexts, List.length_map] at h
  rw [rowText_eq, index?, if_pos (by omega), hfirst]

theorem rowText_of_no_row (hfirst : s.firstRow = 1) (h : ¬ (1 ≤ line ∧ line ≤ s.rowTexts.length)) :
    s.rowText line = Fault.refuse (.noSuchLine line) := by
  have hlast : s.lastRow = s.firstRow + s.lines.length - 1 := rfl
  rw [rowTexts, List.length_map] at h
  rw [rowText, index?, if_neg (by omega)]

theorem offset_of_within (hfirst : s.firstRow = 1) (h : Within s.rowTexts line column) :
    ∃ o, s.offset line (column - 1) = .ok o := by
  have hrow := rowText_of_row hfirst h.1
  have hcolumn := h.2
  rw [offset, hrow]
  refine ⟨_, if_pos ?_⟩
  omega

theorem offset_of_no_row (hfirst : s.firstRow = 1) (h : ¬ (1 ≤ line ∧ line ≤ s.rowTexts.length)) :
    s.offset line (column - 1) = Fault.refuse (.noSuchLine line) := by
  rw [offset, rowText_of_no_row hfirst h]
  rfl

theorem offset_of_no_column (hfirst : s.firstRow = 1) (hline : 1 ≤ line ∧ line ≤ s.rowTexts.length)
    (h : ¬ Within s.rowTexts line column) :
    s.offset line (column - 1) = Fault.refuse (.noSuchColumn line (column - 1)) := by
  refine offset_eq_error (rowText_of_row hfirst hline) fun hcolumn => h ⟨hline, ?_⟩
  omega

/-- A line that there is has a number that can be written. -/
theorem digitCount_of_row (h : 1 ≤ line ∧ line ≤ s.rowTexts.length) :
    Text.digitCount line ≤ Text.digitLimit := by
  have hroom := s.fits
  have hlines : s.lines.length ≤ s.content.length + 1 := s.convention.length_cut_le s.content
  rw [rowTexts, List.length_map] at h
  exact Text.digitCount_le_of_lengthLimit (by omega)

end Source

namespace Cli

/-- What comes of a fault in the value of an argument: its message, if the numbers in that can be
written. -/
def tell (fault : Fault) : Except Fault Outcome :=
  if ∀ n ∈ fault.numbers, Text.digitCount n ≤ Text.digitLimit then .ok (.failure fault.message)
  else .error .numberTooLong

namespace Request

variable {r : Request} {codecs : Text → Option Codec} {find : Text → Entry} {decoded : Stored}
  {line column context : Int}

/-- A request names a line and a column and how much context is to be shown. Nothing else that is
needed is left blank. -/
structure Asks (r : Request) (line column context : Int) : Prop where
  line : r.line = .value line
  column : r.column = .value column
  context : r.context = .value context
  width : r.width ≠ some .blank
  severity : r.severity ≠ .blank

/-- The file of a request opens, and the codec that the request names makes a text of it. -/
inductive Opens (r : Request) (codecs : Text → Option Codec) (find : Text → Entry)
    (decoded : Stored) : Prop
  | intro {name : Text} {bytes : List UInt8} {codec : Codec} (hencoding : r.encoding = .value name)
    (hname : '\x00' ∉ name) (hpath : '\x00' ∉ r.path) (hfile : find r.path = .file bytes)
    (hcodec : codecs name = some codec) (hdecoded : codec bytes = .text decoded)

/-- The file of a request does not open, or the codec that the request names makes no text of it,
for a reason that there are words for. -/
inductive Fails (r : Request) (codecs : Text → Option Codec) (find : Text → Entry) : Text → Prop
  | unreadable {name : Text} {code : Nat} {reason : Text} (hencoding : r.encoding = .value name)
    (hname : '\x00' ∉ name) (hpath : '\x00' ∉ r.path)
    (hfile : find r.path = .unreadable code reason) :
    Fails r codecs find (unreadable r.path code reason)
  | garbled {name : Text} {bytes : List UInt8} {codec : Codec} {reason : Text}
    (hencoding : r.encoding = .value name) (hname : '\x00' ∉ name) (hpath : '\x00' ∉ r.path)
    (hfile : find r.path = .file bytes) (hcodec : codecs name = some codec)
    (hgarbled : codec bytes = .garbled reason) : Fails r codecs find reason

/-- The header of a report about a line and a column. -/
def headline (r : Request) (line column : Int) : Text :=
  r.path ++ ": line ".toList ++ Text.decimal line ++ ", column ".toList ++ Text.decimal column ++
    ": ".toList ++ r.message.shown

/-- What is printed about a line and a column: the header, so far to the right if that is set, and
some rows beneath it. -/
def printed (r : Request) (line column width : Int) (beneath : List Text) : Text :=
  Text.stack (((if r.indentAll then Text.blanks width ++ Style.separator else []) ++
    r.headline line column) :: beneath)

/-! ## The remark and the report -/

section Report

variable {s : Source}

theorem remark_error (h : r.Asks line column context) {e : Fault}
    (he : s.offset line (column - 1) = .error e) : r.remark s = .error e := by
  rw [remark, h.column, h.line]
  simp only [Setting.get, bind, Except.bind, he]

theorem remark_ok (h : r.Asks line column context) {o : Int} {t : Text}
    (ho : s.offset line (column - 1) = .ok o) (ht : s.rowText line = .ok t) :
    ∃ m, r.remark s = .ok m ∧ m.spot.start = o ∧ m.message = r.message.shown ∧
      m.context = context := by
  obtain ⟨severity, hseverity⟩ : ∃ severity, r.severity = .value severity := by
    cases hs : r.severity with
    | value severity => exact ⟨severity, rfl⟩
    | blank => exact absurd hs h.severity
  obtain ⟨width, hwidth⟩ : ∃ width, r.width.getD (.value (t.length - (column - 1))) =
      .value width := by
    cases hw : r.width with
    | none => exact ⟨_, rfl⟩
    | some w =>
      cases w with
      | value width => exact ⟨width, rfl⟩
      | blank => exact absurd hw h.width
  refine ⟨{ spot := ⟨o, o + width⟩, message := r.message.shown, severity := severity,
            context := context, color := r.color }, ?_, rfl, rfl, rfl⟩
  rw [remark, h.column, h.line, hseverity, h.context]
  simp only [Setting.get, bind, Except.bind, ho, ht, hwidth]
  rfl

theorem report_error (h : r.Asks line column context) {e : Fault}
    (he : s.offset line (column - 1) = .error e) : r.report s = .error e := by
  rw [report, remark_error h he]
  rfl

/-- **The report of a request shows the spot that was asked for.** -/
theorem report_ok (h : r.Asks line column context) (hfirst : s.firstRow = 1)
    (hwithin : Within s.rowTexts line column) :
    ∃ m report, r.report s = .ok report ∧ report.ShowsWindow s m ⟨line, column - 1⟩ ∧
      s.position m.spot.start = .ok ⟨line, column - 1⟩ ∧ m.message = r.message.shown ∧
      m.context = context ∧ report.indentAll = r.indentAll := by
  obtain ⟨o, ho⟩ := Source.offset_of_within hfirst hwithin
  obtain ⟨m, hm, rfl, hmessage, hcontext⟩ :=
    remark_ok h ho (Source.rowText_of_row hfirst hwithin.1)
  have hhere := Source.position_of_offset ho
  obtain ⟨report, hreport, hshows⟩ :=
    Source.excerpt_eq (by omega) hhere (Source.digitCount_of_row hwithin.1)
  refine ⟨m, { report with indentAll := r.indentAll }, ?_, ⟨hshows.blocks, hshows.cursor⟩, hhere,
    hmessage, hcontext, rfl⟩
  rw [Request.report, hm]
  show (s.excerpt m >>= fun report => pure { report with indentAll := r.indentAll }) = _
  rw [hreport]
  rfl

end Report

/-! ## What is printed -/

theorem display_of_ok {report : Report Line} (h : r.report (r.source decoded) = .ok report) :
    r.display decoded = match report.excess? with
      | some e => .error e
      | none => .ok (.success report.render) := by
  rw [display, h]
  simp only [Report.render?]
  cases report.excess? <;> rfl

theorem display_of_error {e : Fault} (h : r.report (r.source decoded) = .error e) :
    r.display decoded = if e.isOfValue then .ok (.failure e.message) else .error e := by
  rw [display, h]

/-- **A refusal is told** if it can be put into words. -/
theorem display_of_refuse {fault : Fault} (h : r.report (r.source decoded) = fault.refuse)
    (hvalue : fault.isOfValue = true) : r.display decoded = tell fault := by
  rw [display_of_error h, tell]
  by_cases hshort : ∀ n ∈ fault.numbers, Text.digitCount n ≤ Text.digitLimit
  · rw [if_pos hshort, Fault.uttered_of_short hshort, if_pos hvalue]
  · rw [if_neg hshort]
    simp only [not_forall] at hshort
    obtain ⟨n, hn, hlong⟩ := hshort
    rw [Fault.uttered_of_long hn (Nat.lt_of_not_le hlong)]
    rfl

/-- **The first row of a report is its header.** -/
theorem exists_render_eq_printed {s : Source} {m : Remark} {report : Report Line}
    (hname : s.filename = some r.path) (hshows : report.ShowsWindow s m ⟨line, column - 1⟩)
    (hmessage : m.message = r.message.shown) (hindent : report.indentAll = r.indentAll) :
    ∃ beneath, report.render = r.printed line column report.gutterWidth beneath := by
  have hheader : s.header ⟨line, column - 1⟩ m.message = r.headline line column := by
    have hcolumn : column - 1 + 1 = column := by omega
    simp [Source.header, headline, hname, hcolumn, hmessage]
  rw [Report.render, Report.rows, hshows.blocks, List.flatMap_cons,
    Report.blockRows_unnumbered rfl, Line.showText_untinted rfl, hheader, hindent]
  exact ⟨_, rfl⟩

/-! ## How a run ends -/

/-- A request is carried out for what it finds, unless there is a NUL in a name. -/
theorem run_of_found {name : Text} (hencoding : r.encoding = .value name) (hname : '\x00' ∉ name)
    (hpath : '\x00' ∉ r.path) : r.run codecs find = r.runOn codecs name (find r.path) := by
  rw [run, hencoding]
  simp [Setting.get, bind, Except.bind, hname, hpath]

theorem run_of_opens (h : r.Opens codecs find decoded) :
    r.run codecs find = r.display decoded := by
  obtain ⟨hencoding, hname, hpath, hfile, hcodec, hdecoded⟩ := h
  rw [run_of_found hencoding hname hpath, hfile]
  simp only [runOn, hcodec, hdecoded]

theorem run_of_fails {reason : Text} (h : r.Fails codecs find reason) :
    r.run codecs find = .ok (.failure reason) := by
  cases h with
  | unreadable hencoding hname hpath hfile =>
    rw [run_of_found hencoding hname hpath, hfile]
    rfl
  | garbled hencoding hname hpath hfile hcodec hgarbled =>
    rw [run_of_found hencoding hname hpath, hfile]
    simp only [runOn, hcodec, hgarbled]

/-- The number that measures the gutter of a report with less than no context is too long. -/
def Overlong (line context : Int) : Prop :=
  context < 0 ∧ Text.digitLimit < Text.digitCount (1 + line - context)

instance (line context : Int) : Decidable (Overlong line context) :=
  inferInstanceAs (Decidable (_ ∧ _))

/-- How a run ends and what it prints when it is asked for a line and a column of a text. -/
structure ComesOut (r : Request) (t : Text) (line column context : Int)
    (result : Except Fault Outcome) : Prop where
  /-- It succeeds iff there is the spot, unless the number that measures the gutter is too long. -/
  succeeds_iff : (∃ o, result = .ok o ∧ o.status = 0) ↔
    Within (t.splitOn '\n') line column ∧ ¬ Overlong line context
  /-- If it succeeds, all that is printed is a report, the header of which names the spot. -/
  header : ∀ o, result = .ok o → o.status = 0 →
    ∃ width beneath, o = .success (r.printed line column width beneath)
  /-- If there is no such line, it fails with a message and prints nothing. -/
  noLine : ¬ (1 ≤ line ∧ line ≤ (t.splitOn '\n').length) → result = tell (.noSuchLine line)
  /-- If the line has no such column, it does so as well. -/
  noColumn : 1 ≤ line ∧ line ≤ (t.splitOn '\n').length → ¬ Within (t.splitOn '\n') line column →
    result = tell (.noSuchColumn line (column - 1))
  /-- If the number that measures the gutter is too long, it ends as a fault for that reason. -/
  overlong : Within (t.splitOn '\n') line column → Overlong line context →
    result = .error .numberTooLong

/-- The lines of a decoded file are those between line feeds, once its breaks are all alike. -/
theorem rowTexts_source (r : Request) (decoded : Stored) :
    (r.source decoded).rowTexts = decoded.1.unifyBreaks.splitOn '\n' :=
  Convention.texts_cut_normal (Text.not_mem_unifyBreaks decoded.1)

theorem display_of_no_row (h : r.Asks line column context)
    (hline : ¬ (1 ≤ line ∧ line ≤ (decoded.1.unifyBreaks.splitOn '\n').length)) :
    r.display decoded = tell (.noSuchLine line) := by
  rw [← rowTexts_source r] at hline
  exact display_of_refuse (report_error h (Source.offset_of_no_row rfl hline)) rfl

theorem display_of_no_column (h : r.Asks line column context)
    (hline : 1 ≤ line ∧ line ≤ (decoded.1.unifyBreaks.splitOn '\n').length)
    (hcolumn : ¬ Within (decoded.1.unifyBreaks.splitOn '\n') line column) :
    r.display decoded = tell (.noSuchColumn line (column - 1)) := by
  rw [← rowTexts_source r] at hline hcolumn
  exact display_of_refuse (report_error h (Source.offset_of_no_column rfl hline hcolumn)) rfl

/-- **A spot that there is can be shown** unless the number that measures the gutter is too long. -/
theorem display_of_within (h : r.Asks line column context)
    (hwithin : Within (decoded.1.unifyBreaks.splitOn '\n') line column) :
    ∃ report : Report Line,
      (r.display decoded = match report.excess? with
        | some e => .error e
        | none => .ok (.success report.render)) ∧
      report.excess? = (if Overlong line context then some .numberTooLong else none) ∧
      ∃ beneath, report.render = r.printed line column report.gutterWidth beneath := by
  rw [← rowTexts_source r] at hwithin
  obtain ⟨m, report, hreport, hshows, hhere, hmessage, rfl, hindent⟩ := report_ok h rfl hwithin
  refine ⟨report, display_of_ok hreport, ?_, exists_render_eq_printed rfl hshows hmessage hindent⟩
  by_cases hcontext : m.context < 0
  · rw [hshows.excess?_of_context_neg hwithin.1.1 hcontext, Text.decimalExcess?]
    simp only [Overlong, hcontext, true_and]
  · rw [hshows.excess?_of_context_nonneg hhere rfl (by omega),
      if_neg fun hlong => hcontext hlong.1]

theorem tell_not_success {fault : Fault} {o : Outcome} (h : tell fault = .ok o) :
    o.status ≠ 0 := by
  unfold tell at h
  split at h
  · cases h
    exact Nat.one_ne_zero
  · cases h

/-- A run that succeeds was asked for a spot that there is. -/
theorem within_of_display (h : r.Asks line column context) {o : Outcome}
    (ho : r.display decoded = .ok o) (h0 : o.status = 0) :
    Within (decoded.1.unifyBreaks.splitOn '\n') line column := by
  refine Decidable.byContradiction fun hwithin => ?_
  by_cases hline : 1 ≤ line ∧ line ≤ (decoded.1.unifyBreaks.splitOn '\n').length
  · exact tell_not_success ((display_of_no_column h hline hwithin).symm.trans ho) h0
  · exact tell_not_success ((display_of_no_row h hline).symm.trans ho) h0

theorem display_of_overlong (h : r.Asks line column context)
    (hwithin : Within (decoded.1.unifyBreaks.splitOn '\n') line column)
    (hlong : Overlong line context) : r.display decoded = .error .numberTooLong := by
  obtain ⟨report, hdisplay, hexcess, -⟩ := display_of_within h hwithin
  rw [hdisplay, hexcess, if_pos hlong]

theorem display_of_not_overlong (h : r.Asks line column context)
    (hwithin : Within (decoded.1.unifyBreaks.splitOn '\n') line column)
    (hshort : ¬ Overlong line context) :
    ∃ width beneath, r.display decoded = .ok (.success (r.printed line column width beneath)) := by
  obtain ⟨report, hdisplay, hexcess, beneath, hrender⟩ := display_of_within h hwithin
  rw [hdisplay, hexcess, if_neg hshort, hrender]
  exact ⟨report.gutterWidth, beneath, rfl⟩

/-- **How a request comes out** once its file is decoded. -/
theorem display_comesOut (h : r.Asks line column context) :
    r.ComesOut decoded.1.unifyBreaks line column context (r.display decoded) := by
  have hshort : ∀ o, r.display decoded = .ok o → o.status = 0 → ¬ Overlong line context := by
    intro o ho h0 hlong
    cases (display_of_overlong h (within_of_display h ho h0) hlong).symm.trans ho
  refine ⟨⟨?_, ?_⟩, ?_, display_of_no_row h, display_of_no_column h, display_of_overlong h⟩
  · rintro ⟨o, ho, h0⟩
    exact ⟨within_of_display h ho h0, hshort o ho h0⟩
  · rintro ⟨hwithin, hlong⟩
    obtain ⟨width, beneath, ho⟩ := display_of_not_overlong h hwithin hlong
    exact ⟨_, ho, rfl⟩
  · intro o ho h0
    obtain ⟨width, beneath, ho'⟩ :=
      display_of_not_overlong h (within_of_display h ho h0) (hshort o ho h0)
    exact ⟨width, beneath, Except.ok.inj (ho.symm.trans ho')⟩

/-- **A run reports the spot that it is asked for, or fails with a message.** -/
theorem run_comesOut (codecs : Text → Option Codec) (find : Text → Entry)
    (h : r.Asks line column context) :
    (∀ decoded, r.Opens codecs find decoded →
      r.ComesOut decoded.1.unifyBreaks line column context (r.run codecs find)) ∧
    ∀ reason, r.Fails codecs find reason → r.run codecs find = .ok (.failure reason) := by
  refine ⟨fun decoded hopens => ?_, fun reason hfails => run_of_fails hfails⟩
  rw [run_of_opens hopens]
  exact display_comesOut h

/-- The spot just past the end of the last line, in a file with a break of two characters. -/
theorem run_comesOut_past_the_end :
    let r : Request := { path := ['f'], line := .value 2, column := .value 3, context := .value 1 }
    let find : Text → Entry := fun _ => .file [97, 98, 13, 10, 99, 100]
    (r.Asks 2 3 1 ∧ r.Opens Encoding.codec? find ⟨"ab\r\ncd".toList, by decide⟩) ∧
      ∃ beneath, r.run Encoding.codec? find = .ok (.success
        (Text.stack ("f: line 2, column 3: here".toList :: beneath))) := by
  intro r find
  have hasks : r.Asks 2 3 1 := ⟨rfl, rfl, rfl, by simp [r], by simp [r]⟩
  have hopens : r.Opens Encoding.codec? find ⟨"ab\r\ncd".toList, by decide⟩ :=
    ⟨rfl, by decide, by decide, rfl, rfl, rfl⟩
  have hrun := (run_comesOut Encoding.codec? find hasks).1 _ hopens
  obtain ⟨o, ho, h0⟩ := hrun.succeeds_iff.mpr
    ⟨by decide, fun hlong => absurd hlong.1 (by decide)⟩
  obtain ⟨width, beneath, rfl⟩ := hrun.header o ho h0
  exact ⟨⟨hasks, hopens⟩, beneath, ho⟩

/-- A spot that there is does not make a run succeed: of the first line nothing is to be shown, from
as far ahead as the largest number that can be read says. -/
theorem run_refuses_distant_context :
    ¬ ∀ (r : Request) (codecs : Text → Option Codec) (find : Text → Entry) (decoded : Stored)
        (line column context : Int), r.Asks line column context → r.Opens codecs find decoded →
      ((∃ o, r.run codecs find = .ok o ∧ o.status = 0) ↔
        Within (decoded.1.unifyBreaks.splitOn '\n') line column) := by
  intro hclaim
  obtain ⟨n, hpos, -, hlong⟩ := Text.exists_longest
  let r : Request := { path := ['f'], line := .value 1, context := .value (-n) }
  let find : Text → Entry := fun _ => .file [97]
  let decoded : Stored := ⟨['a'], by decide⟩
  have hasks : r.Asks 1 1 (-n) := ⟨rfl, rfl, rfl, by simp [r], by simp [r]⟩
  have hpath : '\x00' ∉ r.path := show '\x00' ∉ ['f'] by decide
  have hopens : r.Opens Encoding.codec? find decoded := ⟨rfl, by decide, hpath, rfl, rfl, rfl⟩
  have hwithin : Within (decoded.1.unifyBreaks.splitOn '\n') 1 1 := by decide
  have hoverlong : Overlong 1 (-n) := ⟨by omega, hlong _ (by omega)⟩
  have hfault : r.run Encoding.codec? find = .error .numberTooLong := by
    rw [run_of_opens hopens]
    exact display_of_overlong hasks hwithin hoverlong
  obtain ⟨o, ho, -⟩ := (hclaim r Encoding.codec? find decoded 1 1 _ hasks hopens).mpr hwithin
  cases hfault.symm.trans ho

end Request

end Cli

end Marginalia
