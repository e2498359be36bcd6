import Marginalia.Finding
import Marginalia.Proofs.Order
import Marginalia.Proofs.Report
import Marginalia.Proofs.Source.Positions

/-!
# Evidence, piece by piece

A draft takes up the pieces of evidence in order of position. `Draft.Traces` is what holds between
two pieces: the marks of the report are those of the pieces so far, and the draft ends with the line
of the latest one. A further piece brings one mark: on the latest block, on a fresh copy of that
where it would collide, or on another line, which is never an earlier one (`Draft.Grows`).

Results:
* `Draft.turnTo_of_ne`, `Draft.mark_of_free`, `Draft.mark_of_collides`: what is done to a draft.
* `Draft.add_grows`: all that a piece within the text does to a draft.
* `Draft.add_traces`: it is taken up, and in the right place.
* `Draft.foldlM_add`: so are any number of them in order of position.
* `Source.evidenceReport_ok`, `Source.evidenceReport_error`: the report of the pieces of one source.
-/

namespace Marginalia

namespace Source

/-- A piece of evidence begins within the text, the place just past its end included. -/
def Holds (s : Source) (p : Evidence) : Prop :=
  0 ≤ p.spot.start ∧ p.spot.start ≤ s.content.length

instance (s : Source) (p : Evidence) : Decidable (s.Holds p) := inferInstanceAs (Decidable (_ ∧ _))

/-- The mark that shows a piece of evidence: in the style of the severity and with the caption as
its hint, it is on the line of the piece, from the column of the piece on, at least one cell wide
and no wider than what is left of the line. -/
def Shows (s : Source) (sev : Severity) (p : Evidence) (m : Mark) : Prop :=
  ∃ column, s.position p.spot.start = .ok ⟨m.row, column⟩ ∧ s.rowText m.row = .ok m.text ∧
    m.underline = sev.pen.beneath
      ⟨column, column + max 1 (min p.spot.width (m.text.length - column))⟩ p.caption

end Source

/-- A report accounts for pieces of evidence from a source: its numbered blocks show lines of the
source, and the marks on them are those of the pieces, in order. No two marks collide on a block,
and a line is shown again only for one that collides on its latest copy. No warning was given. -/
structure Report.Accounts (s : Source) (sev : Severity) (pieces : List Evidence)
    (r : Report Line) : Prop where
  lines : ∀ l ∈ r.shown, s.rowText l.number = .ok l.text
  marks : List.Forall₂ (s.Shows sev) pieces r.marks
  apart : ∀ l ∈ r.blocks, Span.Apart Underline.toSpan l.underlines
  following : r.shown.IsChain fun b c => c.MayFollow b
  quiet : r.warnings = []

namespace Report.Accounts

variable {s : Source} {sev : Severity} {pieces new : List Evidence} {r : Report Line}

/-- Every mark is that of a piece. -/
theorem exists_piece (h : r.Accounts s sev pieces) {m : Mark} (hm : m ∈ r.marks) :
    ∃ p ∈ pieces, s.Shows sev p m := by
  obtain ⟨i, hi, rfl⟩ := List.getElem_of_mem hm
  have hi' : i < pieces.length := by rw [h.marks.length_eq]; exact hi
  exact ⟨pieces[i], List.getElem_mem hi', h.marks.get hi' hi⟩

/-- Every piece has a mark. -/
theorem exists_mark (h : r.Accounts s sev pieces) {p : Evidence} (hp : p ∈ pieces) :
    ∃ m ∈ r.marks, s.Shows sev p m := by
  obtain ⟨i, hi, rfl⟩ := List.getElem_of_mem hp
  have hi' : i < r.marks.length := by rw [← h.marks.length_eq]; exact hi
  exact ⟨r.marks[i], List.getElem_mem hi', h.marks.get hi hi'⟩

/-- Notices change nothing about what is shown. -/
theorem notices (h : r.Accounts s sev pieces) {notices : List Line}
    (hnotices : ∀ l ∈ notices, IsNotice l) (n : Numbering) :
    Accounts s sev pieces { r with blocks := r.blocks ++ notices, numbering := n } := by
  have hshown : (r.blocks ++ notices).filter (·.numbered) = r.shown :=
    numbered_append_notices hnotices
  refine ⟨?_, ?_, fun l hl => ?_, ?_, h.quiet⟩
  · rw [shown, hshown]
    exact h.lines
  · rw [Report.marks, shown, hshown]
    exact h.marks
  · rcases List.mem_append.mp hl with hl | hl
    · exact h.apart l hl
    · rw [(hnotices l hl).2]
      exact List.Pairwise.nil
  · rw [shown, hshown]
    exact h.following

/-- One more numbered block brings the pieces that are marked on it. -/
theorem concat (h : r.Accounts s sev pieces) {c : Line} (hnumbered : c.numbered = true)
    (htext : s.rowText c.number = .ok c.text)
    (hmarks : List.Forall₂ (s.Shows sev) new c.marks)
    (hapart : Span.Apart Underline.toSpan c.underlines)
    (hfollow : ∀ b, r.shown.getLast? = some b → c.MayFollow b) (n : Numbering) :
    Accounts s sev (pieces ++ new) { r with blocks := r.blocks ++ [c], numbering := n } := by
  have hshown : (r.blocks ++ [c]).filter (·.numbered) = r.shown ++ [c] :=
    numbered_concat r.blocks hnumbered
  refine ⟨fun l hl => ?_, ?_, fun l hl => ?_, ?_, h.quiet⟩
  · rw [shown, hshown] at hl
    rcases List.mem_append.mp hl with hl | hl
    · exact h.lines l hl
    · rw [List.mem_singleton.mp hl]
      exact htext
  · rw [Report.marks, shown, hshown, List.flatMap_append, List.flatMap_singleton]
    exact List.rel_append h.marks hmarks
  · rcases List.mem_append.mp hl with hl | hl
    · exact h.apart l hl
    · rw [List.mem_singleton.mp hl]
      exact hapart
  · rw [shown, hshown, List.isChain_append]
    refine ⟨h.following, .singleton c, fun b hb c' hc' => ?_⟩
    obtain rfl : c = c' := by simpa using hc'
    exact hfollow b hb

/-- So does one behind notices. -/
theorem concat_notices (h : r.Accounts s sev pieces) {notices : List Line}
    (hnotices : ∀ l ∈ notices, IsNotice l) {c : Line} (hnumbered : c.numbered = true)
    (htext : s.rowText c.number = .ok c.text)
    (hmarks : List.Forall₂ (s.Shows sev) new c.marks)
    (hapart : Span.Apart Underline.toSpan c.underlines)
    (hfollow : ∀ b, r.shown.getLast? = some b → c.MayFollow b) (n : Numbering) :
    Accounts s sev (pieces ++ new)
      { r with blocks := r.blocks ++ notices ++ [c], numbering := n } := by
  refine (h.notices hnotices n).concat hnumbered htext hmarks hapart (fun b hb => ?_) n
  rw [shown, numbered_append_notices hnotices] at hb
  exact hfollow b hb

/-- One more underline on the last block brings the piece that it marks. -/
theorem mark (h : r.Accounts s sev pieces) {before : List Line} {l : Line} {e : Evidence}
    {u : Underline} (hblocks : r.blocks = before ++ [l]) (hnumbered : l.numbered = true)
    (hshows : s.Shows sev e ⟨l.number, l.text, u⟩)
    (hfree : ∀ v ∈ l.underlines, ¬ u.Collides v.toSpan) :
    Accounts s sev (pieces ++ [e])
      { r with blocks := before ++ [{ l with underlines := l.underlines ++ [u] }] } := by
  have hshown : r.shown = before.filter (·.numbered) ++ [l] := by
    rw [shown, hblocks, numbered_concat before hnumbered]
  have hshown' : (before ++ [{ l with underlines := l.underlines ++ [u] }]).filter (·.numbered) =
      before.filter (·.numbered) ++ [{ l with underlines := l.underlines ++ [u] }] :=
    numbered_concat before hnumbered
  have hmarks := h.marks
  have hfollowing := h.following
  rw [Report.marks, hshown, List.flatMap_append, List.flatMap_singleton] at hmarks
  rw [hshown, List.isChain_append] at hfollowing
  refine ⟨fun b hb => ?_, ?_, fun b hb => ?_, ?_, h.quiet⟩
  · rw [shown, hshown'] at hb
    rcases List.mem_append.mp hb with hb | hb
    · exact h.lines b (by rw [hshown]; exact List.mem_append_left _ hb)
    · rw [List.mem_singleton.mp hb]
      exact h.lines l (by rw [hshown]; simp)
  · rw [Report.marks, shown, hshown', List.flatMap_append, List.flatMap_singleton]
    have hline : ({ l with underlines := l.underlines ++ [u] } : Line).marks =
        l.marks ++ [⟨l.number, l.text, u⟩] := by simp [Line.marks]
    rw [hline, ← List.append_assoc]
    exact List.rel_append hmarks (.cons hshows .nil)
  · rcases List.mem_append.mp hb with hb | hb
    · exact h.apart b (by rw [hblocks]; exact List.mem_append_left _ hb)
    · rw [List.mem_singleton.mp hb]
      exact Span.apart_append (h.apart l (by rw [hblocks]; simp)) hfree
  · rw [shown, hshown', List.isChain_append]
    refine ⟨hfollowing.1, .singleton _, fun b hb c hc => ?_⟩
    obtain rfl : { l with underlines := l.underlines ++ [u] } = c := by simpa using hc
    rcases hfollowing.2.2 b hb l rfl with hlt | ⟨heq, v, hv, hhit⟩
    · exact Or.inl hlt
    · refine Or.inr ⟨heq, v, ?_, hhit⟩
      rw [List.head?_append, hv]
      rfl

end Report.Accounts

/-- The latest block of a draft is a certain line of the source, and the numbering stands right
behind it. -/
structure Draft.EndsWith (s : Source) (d : Draft) (before : List Line) (l : Line) : Prop where
  blocks : d.report.blocks = before ++ [l]
  row : d.row = some l.number
  numbered : l.numbered = true
  text : s.rowText l.number = .ok l.text
  numbering : d.report.numbering = ⟨l.number + 1, true, some l.number⟩

/-- Nothing is shown in a draft yet, though there may be notices. -/
structure Draft.Blank (d : Draft) : Prop where
  shown : d.report.shown = []
  row : d.row = none
  numbering : d.report.numbering = {}

namespace Draft

variable {s : Source} {sev : Severity} {pieces : List Evidence} {e : Evidence} {d : Draft}

theorem EndsWith.getLast?_shown {before : List Line} {l : Line} (h : d.EndsWith s before l) :
    d.report.shown.getLast? = some l := by
  rw [Report.shown, h.blocks, Report.numbered_concat before h.numbered, List.getLast?_concat]

theorem EndsWith.latest {before : List Line} {l : Line} (h : d.EndsWith s before l) :
    d.latest = l := by
  rw [Draft.latest, h.blocks, List.getLast?_concat]
  rfl

/-- **What holds between two pieces of evidence**: the report accounts for those so far, and shows
nothing or ends with the line of one of them. -/
structure Traces (s : Source) (sev : Severity) (pieces : List Evidence) (d : Draft) : Prop where
  accounts : d.report.Accounts s sev pieces
  stands : d.Blank ∨ ∃ before l, d.EndsWith s before l ∧
    ∃ p ∈ pieces, ∃ here, s.position p.spot.start = .ok here ∧ here.row = l.number

/-! ## What is done to a draft -/

/-- A line of a source as it is shown, with nothing on it yet. -/
def fresh (row : Int) (t : Text) : Line := { text := t, numbered := true, number := row }

/-- Turning to another line, no earlier than the latest number, shows that line. -/
theorem turnTo_of_ne {row : Int} {t : Text} (hrow : d.row ≠ some row) (h0 : 0 ≤ row)
    (ht : s.rowText row = .ok t)
    (hlast : ∀ last, d.report.numbering.last = some last → last ≤ row)
    (hcount : (d.report.numbering.leap row true).skipped.bind Text.decimalExcess? = none) :
    d.turnTo s row = .ok {
      report := { d.report with
        blocks := d.report.blocks ++ d.report.skipNotices row true ++ [fresh row t]
        numbering := ⟨row + 1, true, some row⟩ }
      row := some row } := by
  rw [turnTo, if_neg hrow, Report.jump_ahead true h0 hlast hcount, ht]
  rfl

section Mark

variable {before : List Line} {l : Line} {p : Place} {span : Span} (hend : d.EndsWith s before l)

include hend

/-- A mark that collides with none goes on the latest line. -/
theorem mark_of_free (hplace : l.locate p = .ok span)
    (hfree : ∀ v ∈ l.underlines, ¬ span.Collides v.toSpan) (pen : Pen) (hint : Text) (row : Int) :
    d.mark row (.underline p pen hint) = .ok { d with report := { d.report with
      blocks := before ++
        [{ l with underlines := l.underlines ++ [pen.beneath span hint] }] } } := by
  rw [mark, Report.annotateLast_concat hend.blocks, Line.annotate_underline_of_free hplace hfree]
  rfl

/-- A mark that collides goes on a fresh copy, which carries none yet that it could collide with. -/
theorem mark_of_collides (h0 : 0 ≤ l.number) (hplace : ∀ l' : Line, l'.locate p = .ok span)
    (hhit : ∃ v ∈ l.underlines, span.Collides v.toSpan)
    (hshort : ∀ n ∈ [span.start, span.stop], Text.digitCount n ≤ Text.digitLimit)
    (pen : Pen) (hint : Text) :
    d.mark l.number (.underline p pen hint) = .ok { d with report := { d.report with
      blocks := d.report.blocks ++
        [{ fresh l.number l.text with underlines := [pen.beneath span hint] }]
      numbering := ⟨l.number + 1, true, some l.number⟩ } } := by
  have hlast : ∀ last, d.report.numbering.last = some last → last ≤ l.number := by
    intro last hsome
    rw [hend.numbering, Option.some.injEq] at hsome
    exact Int.le_of_eq hsome.symm
  have hmarked := Line.annotate_underline_of_free (hplace (fresh l.number l.text))
    (fun v hv => absurd hv List.not_mem_nil) pen hint
  have huttered : (Fault.overlap span.start span.stop).uttered = .overlap span.start span.stop :=
    Fault.uttered_of_short hshort
  rw [mark, Report.annotateLast_concat hend.blocks,
    Line.annotate_underline_of_collides (hplace l) hhit, Fault.refuse,
    huttered, Report.jump_ahead false h0 hlast rfl, hend.latest]
  simp only [Except.map, bind, Except.bind, Report.annotateLast_addLine]
  rw [show Line.stamped { text := l.text } l.number = fresh l.number l.text from rfl, hmarked,
    show d.report.skipNotices l.number false = [] from rfl, List.append_nil]
  rfl

end Mark

/-! ## One piece more -/

/-- What becomes of a draft when one mark more goes into it. -/
inductive Grows (s : Source) (d : Draft) (m : Mark) : Draft → Prop
  /-- The mark goes on the latest line. -/
  | shared {before : List Line} {l : Line} (hend : d.EndsWith s before l) (hrow : l.number = m.row)
    (hfree : ∀ v ∈ l.underlines, ¬ m.underline.Collides v.toSpan) :
    Grows s d m { d with report := { d.report with
      blocks := before ++ [{ l with underlines := l.underlines ++ [m.underline] }] } }
  /-- The mark would collide there, and goes on a copy. -/
  | again {before : List Line} {l : Line} (hend : d.EndsWith s before l) (hrow : l.number = m.row)
    (hhit : ∃ v ∈ l.underlines, m.underline.Collides v.toSpan) :
    Grows s d m { d with report := { d.report with
      blocks := d.report.blocks ++ [m.line]
      numbering := ⟨m.row + 1, true, some m.row⟩ } }
  /-- The mark goes on another line, which comes later. -/
  | turned (hlater : ∀ before l, d.EndsWith s before l → l.number < m.row) :
    Grows s d m {
      report := { d.report with
        blocks := d.report.blocks ++ d.report.skipNotices m.row true ++ [m.line]
        numbering := ⟨m.row + 1, true, some m.row⟩ }
      row := some m.row }

/-- The draft ends with the line of the mark then. -/
theorem Grows.endsWith {m : Mark} {d' : Draft} (h : d.Grows s m d')
    (htext : s.rowText m.row = .ok m.text) :
    ∃ before l, d'.EndsWith s before l ∧ l.number = m.row := by
  cases h with
  | @shared before l hend hrow hfree =>
    exact ⟨before, _, ⟨rfl, hend.row, hend.numbered, hend.text, hend.numbering⟩, hrow⟩
  | @again before l hend hrow hhit =>
    exact ⟨_, m.line, ⟨rfl, hend.row.trans (congrArg some hrow), rfl, htext, rfl⟩, rfl⟩
  | turned hlater => exact ⟨_, m.line, ⟨rfl, rfl, rfl, htext, rfl⟩, rfl⟩

/-- It accounts for one piece more if the mark shows that piece. -/
theorem Grows.accounts {m : Mark} {d' : Draft} (h : d.Grows s m d')
    (htraces : d.Traces s sev pieces) (hshows : s.Shows sev e m) :
    d'.report.Accounts s sev (pieces ++ [e]) := by
  obtain ⟨column, hhere, htext, hunderline⟩ := id hshows
  have hmarks : List.Forall₂ (s.Shows sev) [e] m.line.marks := .cons hshows .nil
  have hapart : Span.Apart Underline.toSpan m.line.underlines := List.pairwise_singleton _ _
  cases h with
  | @shared before l hend hrow hfree =>
    have hline : m = ⟨l.number, l.text, m.underline⟩ := by
      have hsame := hend.text
      rw [hrow, htext, Except.ok.injEq] at hsame
      rw [hrow, ← hsame]
    exact htraces.accounts.mark hend.blocks hend.numbered (hline ▸ hshows) hfree
  | @again before l hend hrow hhit =>
    refine htraces.accounts.concat rfl htext hmarks hapart (fun b hb => ?_) _
    rw [hend.getLast?_shown, Option.some.injEq] at hb
    subst hb
    exact Or.inr ⟨hrow, m.underline, rfl, hhit⟩
  | turned hlater =>
    refine htraces.accounts.concat_notices Report.isNotice_of_mem_skipNotices rfl htext hmarks
      hapart (fun b hb => ?_) _
    obtain hblank | ⟨before, l, hend, -⟩ := htraces.stands
    · rw [hblank.shown] at hb
      cases hb
    · rw [hend.getLast?_shown, Option.some.injEq] at hb
      subst hb
      exact Or.inl (hlater before l hend)

/-- The draft does not end behind a piece that starts where the others do or later. -/
theorem Traces.number_le (h : d.Traces s sev pieces)
    (horder : ∀ p ∈ pieces, p.spot.start ≤ e.spot.start) {here : Position}
    (hhere : s.position e.spot.start = .ok here) {before : List Line} {l : Line}
    (hend : d.EndsWith s before l) : l.number ≤ here.row := by
  obtain hblank | ⟨before', l', hend', p, hp, there, hthere, hl'⟩ := h.stands
  · cases hend.row.symm.trans hblank.row
  · have hmono := Source.position_row_mono hthere hhere (horder p hp)
    have hsame := hend.row.symm.trans hend'.row
    rw [Option.some.injEq] at hsame
    omega

/-- **No jump from one line of a source to another leaves out more lines than can be counted.** -/
theorem Traces.skipped_eq_none (h : d.Traces s sev pieces) {o : Int} {here : Position}
    (hhere : s.position o = .ok here) :
    (d.report.numbering.leap here.row true).skipped.bind Text.decimalExcess? = none := by
  refine Option.bind_eq_none_iff.mpr fun count hskip => ?_
  obtain ⟨⟨hstarted, hfar⟩, hcount⟩ := Option.ite_none_right_eq_some.mp hskip
  obtain hblank | ⟨before, l, hend, -⟩ := h.stands
  · rw [hblank.numbering] at hstarted
    cases hstarted
  · have hlines : s.lines.length ≤ s.content.length + 1 := s.convention.length_cut_le s.content
    have hfits := s.fits
    have hlast : s.lastRow = s.firstRow + s.lines.length - 1 := rfl
    obtain ⟨-, -, -, t, ht⟩ := Source.position_bounds hhere
    obtain ⟨i, _, hi, hrow, -⟩ := Source.rowText_eq_ok_iff.mp ht
    obtain ⟨j, _, -, hnumber, -⟩ := Source.rowText_eq_ok_iff.mp hend.text
    have hbound := (List.getElem?_eq_some_iff.mp hi).1
    rw [hend.numbering] at hfar hcount
    refine Text.decimalExcess?_eq_none_iff.mpr (Text.digitCount_le_of_lengthLimit ?_)
    cases hcount
    simp only at hfar ⊢
    omega

/-- The ends of a mark are columns, which are short enough to be written. -/
theorem digitCount_reach_le {o row column : Int} {l : Line}
    (hhere : s.position o = .ok ⟨row, column⟩) (ht : s.rowText row = .ok l.text) (width : Int) :
    ∀ n ∈ [(l.reach column width).start, (l.reach column width).stop],
      Text.digitCount n ≤ Text.digitLimit := by
  obtain ⟨-, h0, hlength, -⟩ := Source.position_bounds hhere
  have htext := Source.length_rowText_le ht
  have hfits := s.fits
  simp only at h0 hlength
  refine List.forall_mem_cons.mpr ⟨?_, List.forall_mem_singleton.mpr ?_⟩
  · exact Text.digitCount_le_of_lengthLimit (by simp only [Line.reach]; omega)
  · exact Text.digitCount_le_of_lengthLimit (by simp only [Line.reach]; omega)

/-- A piece on the latest line has its mark there, or else on a copy of it. -/
theorem grows_of_row_eq (sev : Severity) {before : List Line} {l : Line} {column : Int}
    (hend : d.EndsWith s before l) (h0 : 0 ≤ l.number)
    (hhere : s.position e.spot.start = .ok ⟨l.number, column⟩) :
    ∃ d', add sev s d e = .ok d' ∧ d.Grows s
      ⟨l.number, l.text, sev.pen.beneath (l.reach column e.spot.width) e.caption⟩ d' := by
  have hcolumn : 0 ≤ column := (Source.position_bounds hhere).2.1
  have hadd : add sev s d e =
      d.mark l.number (sev.mark (l.reach column e.spot.width) e.caption) := by
    rw [add, hhere]
    show (d.turnTo s l.number >>= fun d => _) = _
    rw [turnTo, if_pos hend.row]
    show d.mark l.number (sev.mark (d.latest.reach column e.spot.width) e.caption) = _
    rw [hend.latest]
  have hplace := Line.locate_reach l hcolumn e.spot.width
  by_cases hhit : ∃ v ∈ l.underlines, (l.reach column e.spot.width).Collides v.toSpan
  · have hshort := digitCount_reach_le hhere hend.text e.spot.width
    exact ⟨_, hadd.trans (mark_of_collides hend h0 hplace hhit hshort _ _), .again hend rfl hhit⟩
  · have hfree : ∀ v ∈ l.underlines, ¬ (l.reach column e.spot.width).Collides v.toSpan :=
      fun v hv hc => hhit ⟨v, hv, hc⟩
    exact ⟨_, hadd.trans (mark_of_free hend (hplace l) hfree _ _ _), .shared hend rfl hfree⟩

/-- A piece on a later line has its mark on that line. -/
theorem grows_of_row_ne (sev : Severity) {row column : Int} {t : Text}
    (hturn : d.row ≠ some row) (h0 : 0 ≤ row) (ht : s.rowText row = .ok t)
    (hhere : s.position e.spot.start = .ok ⟨row, column⟩)
    (hlast : ∀ last, d.report.numbering.last = some last → last ≤ row)
    (hcount : (d.report.numbering.leap row true).skipped.bind Text.decimalExcess? = none)
    (hlater : ∀ before l, d.EndsWith s before l → l.number < row) :
    ∃ d', add sev s d e = .ok d' ∧ d.Grows s
      ⟨row, t, sev.pen.beneath ((fresh row t).reach column e.spot.width) e.caption⟩ d' := by
  have hcolumn : 0 ≤ column := (Source.position_bounds hhere).2.1
  let turned : Draft := {
    report := { d.report with
      blocks := d.report.blocks ++ d.report.skipNotices row true ++ [fresh row t]
      numbering := ⟨row + 1, true, some row⟩ }
    row := some row }
  have hend : turned.EndsWith s (d.report.blocks ++ d.report.skipNotices row true) (fresh row t) :=
    ⟨rfl, rfl, rfl, ht, rfl⟩
  refine ⟨_, ?_, .turned hlater⟩
  rw [add, hhere]
  show (d.turnTo s row >>= fun d => _) = _
  rw [turnTo_of_ne hturn h0 ht hlast hcount]
  show turned.mark row (sev.mark (turned.latest.reach column e.spot.width) e.caption) = _
  rw [hend.latest]
  -- nothing is on the line yet that the mark could collide with
  exact mark_of_free hend (Line.locate_reach _ hcolumn _ _)
    (fun v hv => absurd hv List.not_mem_nil) _ _ _

/-- **A piece of evidence brings one mark**, when it begins within the text and not before the
others. -/
theorem add_grows (h : d.Traces s sev pieces) (hfirst : 0 ≤ s.firstRow) (hholds : s.Holds e)
    (horder : ∀ p ∈ pieces, p.spot.start ≤ e.spot.start) :
    ∃ m d', s.Shows sev e m ∧ add sev s d e = .ok d' ∧ d.Grows s m d' := by
  obtain ⟨⟨row, column⟩, hhere⟩ := Source.exists_position hholds.1 hholds.2
  obtain ⟨hrow, -, -, t, ht⟩ := Source.position_bounds hhere
  have h0 : 0 ≤ row := Int.le_trans hfirst hrow
  by_cases hturn : d.row = some row
  · obtain hblank | ⟨before, l, hend, -⟩ := h.stands
    · cases hblank.row.symm.trans hturn
    · obtain rfl : l.number = row := Option.some.inj (hend.row.symm.trans hturn)
      obtain ⟨d', hadd, hgrows⟩ := grows_of_row_eq sev hend h0 hhere
      exact ⟨_, d', ⟨column, hhere, hend.text, rfl⟩, hadd, hgrows⟩
  · have hlater : ∀ before l, d.EndsWith s before l → l.number < row := by
      intro before l hend
      have hne : l.number ≠ row := fun heq => hturn (heq ▸ hend.row)
      exact Int.lt_iff_le_and_ne.mpr ⟨h.number_le horder hhere hend, hne⟩
    have hlast : ∀ last, d.report.numbering.last = some last → last ≤ row := by
      intro last hsome
      obtain hblank | ⟨before, l, hend, -⟩ := h.stands
      · rw [hblank.numbering] at hsome
        cases hsome
      · rw [hend.numbering, Option.some.injEq] at hsome
        exact hsome ▸ Int.le_of_lt (hlater before l hend)
    have hcount := h.skipped_eq_none hhere
    obtain ⟨d', hadd, hgrows⟩ := grows_of_row_ne sev hturn h0 ht hhere hlast hcount hlater
    exact ⟨_, d', ⟨column, hhere, ht, rfl⟩, hadd, hgrows⟩

/-- **A piece of evidence is taken up** when it begins within the text and not before the others.
-/
theorem add_traces (h : d.Traces s sev pieces) (hfirst : 0 ≤ s.firstRow) (hholds : s.Holds e)
    (horder : ∀ p ∈ pieces, p.spot.start ≤ e.spot.start) :
    ∃ d', add sev s d e = .ok d' ∧ d'.Traces s sev (pieces ++ [e]) := by
  obtain ⟨m, d', hshows, hadd, hgrows⟩ := add_grows h hfirst hholds horder
  obtain ⟨column, hhere, htext, -⟩ := id hshows
  obtain ⟨before, l, hend, hl⟩ := hgrows.endsWith htext
  exact ⟨d', hadd, hgrows.accounts h hshows,
    Or.inr ⟨before, l, hend, e, by simp, _, hhere, hl.symm⟩⟩

/-- A piece that begins outside the text is refused before anything is done. -/
theorem add_error (hout : ¬ s.Holds e) (d : Draft) :
    add sev s d e = Fault.refuse (.offsetOutside e.spot.start) := by
  rw [add, Source.position_of_outside hout]
  rfl

/-! ## Any number of pieces -/

/-- **Pieces within the text are all taken up**, if they come in order of position. -/
theorem foldlM_add (h : d.Traces s sev pieces) (hfirst : 0 ≤ s.firstRow) {rest : List Evidence}
    (hholds : ∀ p ∈ rest, s.Holds p)
    (horder : (pieces ++ rest).Pairwise fun p q => p.spot.start ≤ q.spot.start) :
    ∃ d', rest.foldlM (add sev s) d = .ok d' ∧ d'.Traces s sev (pieces ++ rest) := by
  induction rest generalizing d pieces with
  | nil => exact ⟨d, rfl, by simpa using h⟩
  | cons e rest ih =>
    obtain ⟨d₁, hadd, h₁⟩ := add_traces h hfirst (hholds e List.mem_cons_self)
      fun p hp => (List.pairwise_append.mp horder).2.2 p hp e List.mem_cons_self
    obtain ⟨d₂, hfold, h₂⟩ := ih h₁ (fun p hp => hholds p (List.mem_cons_of_mem e hp))
      (by simpa using horder)
    refine ⟨d₂, ?_, by simpa using h₂⟩
    rw [List.foldlM_cons, hadd]
    exact hfold

/-- The first of the pieces outside the text is what a run is refused for. -/
theorem foldlM_add_error (h : d.Traces s sev pieces) (hfirst : 0 ≤ s.firstRow)
    {rest : List Evidence} (hout : ∃ p ∈ rest, ¬ s.Holds p)
    (horder : (pieces ++ rest).Pairwise fun p q => p.spot.start ≤ q.spot.start) :
    ∃ p ∈ rest, ¬ s.Holds p ∧
      rest.foldlM (add sev s) d = Fault.refuse (.offsetOutside p.spot.start) := by
  induction rest generalizing d pieces with
  | nil =>
    obtain ⟨p, hp, -⟩ := hout
    cases hp
  | cons e rest ih =>
    rw [List.foldlM_cons]
    by_cases he : s.Holds e
    · obtain ⟨d₁, hadd, h₁⟩ := add_traces h hfirst he
        fun p hp => (List.pairwise_append.mp horder).2.2 p hp e List.mem_cons_self
      have hrest : ∃ p ∈ rest, ¬ s.Holds p := by
        obtain ⟨p, hp, hnot⟩ := hout
        rcases List.mem_cons.mp hp with rfl | hp
        · exact absurd he hnot
        · exact ⟨p, hp, hnot⟩
      obtain ⟨p, hp, hnot, hfold⟩ := ih h₁ hrest (by simpa using horder)
      rw [hadd]
      exact ⟨p, List.mem_cons_of_mem e hp, hnot, hfold⟩
    · rw [add_error he]
      exact ⟨e, List.mem_cons_self, he, rfl⟩

end Draft

/-! ## The report of one source -/

namespace Source

variable {s : Source} {sev : Severity} {pieces : List Evidence}

/-- The draft of a report before any piece of evidence is taken up. -/
def opening (s : Source) (color : Bool) : Draft :=
  { report := s.fileNote.elim { color := color } (Report.addNote { color := color }) }

/-- The note of a file is a text and nothing else. -/
theorem eq_of_fileNote_eq_some {l : Line} (h : s.fileNote = some l) : l = { text := l.text } := by
  unfold fileNote at h
  split at h
  · cases h
  · cases h
  · cases h
    rfl

/-- It is all that the draft begins with. -/
theorem opening_blocks (s : Source) (color : Bool) :
    (s.opening color).report.blocks = s.fileNote.toList := by
  unfold opening
  cases hfile : s.fileNote with
  | none => rfl
  | some l =>
    rw [eq_of_fileNote_eq_some hfile]
    rfl

theorem opening_blank (s : Source) (color : Bool) : (s.opening color).Blank := by
  refine ⟨?_, rfl, ?_⟩
  · rw [Report.shown, opening_blocks, List.filter_eq_nil_iff]
    intro l hl
    rw [eq_of_fileNote_eq_some (Option.mem_toList.mp hl)]
    exact Bool.false_ne_true
  · unfold opening
    cases s.fileNote <;> rfl

theorem opening_traces (s : Source) (sev : Severity) (color : Bool) :
    (s.opening color).Traces s sev [] := by
  have hblank := s.opening_blank color
  refine ⟨⟨?_, ?_, fun l hl => ?_, ?_, ?_⟩, Or.inl hblank⟩
  · simp [hblank.shown]
  · rw [Report.marks, hblank.shown]
    exact .nil
  · rw [opening_blocks] at hl
    rw [eq_of_fileNote_eq_some (Option.mem_toList.mp hl)]
    exact List.Pairwise.nil
  · rw [hblank.shown]
    exact .nil
  · unfold opening
    cases s.fileNote <;> rfl

theorem evidenceReport_eq (s : Source) (sev : Severity) (color : Bool) (pieces : List Evidence) :
    s.evidenceReport sev color pieces =
      ((inOrder (·.spot.start) pieces).foldlM (Draft.add sev s) (s.opening color)).map
        (·.report) := rfl

/-- Every stage of the report of some pieces accounts for the pieces taken up so far. -/
theorem traces_of_foldlM_ok (hfirst : 0 ≤ s.firstRow) {before after : List Evidence}
    {color : Bool} {d : Draft} (hsplit : inOrder (·.spot.start) pieces = before ++ after)
    (h : before.foldlM (Draft.add sev s) (s.opening color) = .ok d) : d.Traces s sev before := by
  have horder := inOrder_sorted (·.spot.start) pieces
  rw [hsplit] at horder
  have hbefore := (List.pairwise_append.mp horder).1
  have hopening := s.opening_traces sev color
  by_cases hout : ∃ p ∈ before, ¬ s.Holds p
  · obtain ⟨p, -, -, hrun⟩ := Draft.foldlM_add_error hopening hfirst hout hbefore
    rw [h] at hrun
    cases hrun
  · have hholds : ∀ p ∈ before, s.Holds p :=
      fun p hp => Decidable.byContradiction fun hnot => hout ⟨p, hp, hnot⟩
    obtain ⟨d', hrun, htraces⟩ := Draft.foldlM_add hopening hfirst hholds hbefore
    rw [h, Except.ok.injEq] at hrun
    exact hrun ▸ htraces

/-- **The report of pieces within the text** is made, and accounts for them. -/
theorem evidenceReport_ok (sev : Severity) (hfirst : 0 ≤ s.firstRow)
    (hholds : ∀ p ∈ pieces, s.Holds p) (color : Bool) :
    ∃ d : Draft, s.evidenceReport sev color pieces = .ok d.report ∧
      d.Traces s sev (inOrder (·.spot.start) pieces) := by
  obtain ⟨d, hrun, htraces⟩ := Draft.foldlM_add (s.opening_traces sev color) hfirst
    (fun p hp => hholds p ((mem_inOrder _).mp hp)) (inOrder_sorted (·.spot.start) pieces)
  refine ⟨d, ?_, htraces⟩
  rw [evidenceReport_eq, hrun]
  rfl

/-- **A report with pieces outside the text** is refused for the first of them. -/
theorem evidenceReport_error (hfirst : 0 ≤ s.firstRow) (hout : ∃ p ∈ pieces, ¬ s.Holds p)
    (color : Bool) : ∃ p ∈ pieces, ¬ s.Holds p ∧
      s.evidenceReport sev color pieces = Fault.refuse (.offsetOutside p.spot.start) := by
  obtain ⟨q, hq, hnot⟩ := hout
  obtain ⟨p, hp, hpnot, hrun⟩ := Draft.foldlM_add_error (s.opening_traces sev color) hfirst
    ⟨q, (mem_inOrder _).mpr hq, hnot⟩ (inOrder_sorted (·.spot.start) pieces)
  refine ⟨p, (mem_inOrder _).mp hp, hpnot, ?_⟩
  rw [evidenceReport_eq, hrun]
  rfl

end Source

end Marginalia
