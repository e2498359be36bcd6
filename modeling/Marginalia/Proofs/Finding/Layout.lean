import Marginalia.Proofs.Finding.Account

/-!
# How a finding is laid out

The report of a source shows the lines on which some piece of evidence starts, from top to bottom
and each with as many copies as its marks need. A notice stands between two of them that are at
least three lines apart, and counts the lines in between.

While pieces are taken up, the blocks are the numbered ones with the notices woven in (`withSkips`),
and each numbered block bears a mark: `Draft.Woven` is kept by one piece more, whether its mark goes
on the latest line, on a copy of it or on a later line (`Draft.Grows.woven`). As the numbers of the
blocks never go down, blocks with one number stand together (`exists_showings`).

Results:
* `Draft.foldlM_woven`: the blocks of a draft at any stage.
* `Draft.Traces.laidOut`: the lines that a report shows.
* `Finding.reports_laidOut`: the reports of all sources.
-/

namespace Marginalia

/-- A line of a source as a report shows it: its number, and its copies from top to bottom. -/
structure Showing where
  row : Int
  copies : List Line
  deriving DecidableEq, Repr

/-- What stands between two lines that are shown: a notice that counts the lines that are left out,
if they are two or more. -/
def skipBetween (row next : Int) : List Line :=
  if row + 3 ≤ next then [Line.skipNotice (next - row - 1)] else []

/-- Lines that are shown one after the other, with what stands between them. -/
def Showing.stack : List Showing → List Line
  | [] => []
  | [g] => g.copies
  | g :: next :: rest => g.copies ++ skipBetween g.row next.row ++ stack (next :: rest)

/-- A report is laid out for pieces of evidence: below the note of its file it shows the lines on
which these start, from top to bottom, each in one or more copies that bear its number, its text and
at least one underline. -/
structure Report.LaidOut (s : Source) (pieces : List Evidence) (shown : List Showing)
    (r : Report Line) : Prop where
  blocks : r.blocks = s.fileNote.toList ++ Showing.stack shown
  ascending : (shown.map (·.row)).Pairwise (· < ·)
  rows : ∀ row, row ∈ shown.map (·.row) ↔
    ∃ p ∈ pieces, ∃ column, s.position p.spot.start = .ok ⟨row, column⟩
  nonempty : ∀ g ∈ shown, g.copies ≠ []
  copies : ∀ g ∈ shown, ∀ l ∈ g.copies, l.numbered = true ∧ l.number = g.row ∧
    s.rowText g.row = .ok l.text ∧ l.underlines ≠ []

/-! ## Numbered blocks with notices between them -/

/-- Numbered blocks with what stands between them. -/
def withSkips : List Line → List Line
  | [] => []
  | [l] => [l]
  | l :: next :: rest => l :: skipBetween l.number next.number ++ withSkips (next :: rest)

theorem withSkips_concat (ls : List Line) (b : Line) : withSkips (ls ++ [b]) =
    withSkips ls ++ (ls.getLast?.elim [] fun a => skipBetween a.number b.number) ++ [b] := by
  induction ls with
  | nil => rfl
  | cons l rest ih =>
    cases rest with
    | nil => rfl
    | cons next rest =>
      rw [List.cons_append] at ih ⊢
      rw [List.cons_append, withSkips, ih, withSkips, List.getLast?_cons_cons]
      simp only [List.cons_append, List.append_assoc]

/-- There is no notice between copies of a line. -/
theorem skipBetween_self (row : Int) : skipBetween row row = [] := if_neg (by omega)

theorem Showing.stack_cons_copy (row : Int) (l : Line) (copies : List Line) (more : List Showing) :
    stack (⟨row, l :: copies⟩ :: more) = l :: stack (⟨row, copies⟩ :: more) := by
  cases more <;> rfl

/-- **Blocks with one number stand together** where the numbers never go down. -/
theorem exists_showings : ∀ {ls : List Line}, ls.IsChain (fun a b => a.number ≤ b.number) →
    ∃ gs : List Showing, withSkips ls = Showing.stack gs ∧ gs.flatMap (·.copies) = ls ∧
      (gs.map (·.row)).IsChain (· < ·) ∧
      ∀ g ∈ gs, g.copies ≠ [] ∧ ∀ l ∈ g.copies, l.number = g.row
  | [], _ => ⟨[], rfl, rfl, .nil, by simp⟩
  | [l], _ => ⟨[⟨l.number, [l]⟩], rfl, rfl, .singleton _, by simp⟩
  | l :: next :: rest, h => by
    rw [List.isChain_cons_cons] at h
    obtain ⟨gs, hskips, hflat, hrows, hcopies⟩ := exists_showings h.2
    cases gs with
    | nil => cases hflat
    | cons g more =>
      obtain ⟨hg, hmore⟩ := List.forall_mem_cons.mp hcopies
      have hnext : next.number = g.row := by
        obtain ⟨c, cs, hc⟩ := List.exists_cons_of_ne_nil hg.1
        rw [List.flatMap_cons, hc, List.cons_append, List.cons.injEq] at hflat
        exact hflat.1 ▸ hg.2 c (by simp [hc])
      by_cases hsame : l.number = g.row
      · -- one more copy of the line that comes first
        refine ⟨⟨g.row, l :: g.copies⟩ :: more, ?_, ?_, hrows, ?_⟩
        · rw [withSkips, hsame, hnext, skipBetween_self, hskips, Showing.stack_cons_copy]
          rfl
        · rw [List.flatMap_cons] at hflat ⊢
          rw [List.cons_append, hflat]
        · exact List.forall_mem_cons.mpr
            ⟨⟨by simp, List.forall_mem_cons.mpr ⟨hsame, hg.2⟩⟩, hmore⟩
      · refine ⟨⟨l.number, [l]⟩ :: g :: more, ?_, ?_, ?_, ?_⟩
        · rw [withSkips, hnext, hskips]
          rfl
        · rw [List.flatMap_cons, hflat]
          rfl
        · exact List.isChain_cons_cons.mpr ⟨show l.number < g.row by omega, hrows⟩
        · exact List.forall_mem_cons.mpr ⟨⟨by simp, by simp⟩, hcopies⟩

/-! ## Drafts -/

namespace Draft

variable {s : Source} {sev : Severity} {pieces : List Evidence} {d d' : Draft} {m : Mark}

/-- **What stands between the numbered blocks of a draft**, each of which bears a mark. -/
structure Woven (s : Source) (d : Draft) : Prop where
  blocks : d.report.blocks = s.fileNote.toList ++ withSkips d.report.shown
  marked : ∀ l ∈ d.report.shown, l.underlines ≠ []

/-- The notice before a later line counts the lines from the latest one on, since the cursor is
right behind that. -/
theorem EndsWith.skipNotices_eq {before : List Line} {l : Line} (h : d.EndsWith s before l)
    (row : Int) : d.report.skipNotices row true = skipBetween l.number row := by
  rw [Report.skipNotices, h.numbering, skipBetween]
  simp only [Numbering.skipped?, if_true, true_and]
  by_cases hrow : l.number + 3 ≤ row
  · rw [if_pos (by omega), if_pos hrow, show row - (l.number + 1) = row - l.number - 1 by omega]
    rfl
  · rw [if_neg (by omega), if_neg hrow]
    rfl

/-- There is no notice before the first line. -/
theorem Blank.skipNotices_eq (h : d.Blank) (row : Int) : d.report.skipNotices row true = [] := by
  rw [Report.skipNotices, h.numbering]
  rfl

/-- One block more, with a mark on it, behind what is to stand before it. -/
theorem Woven.concat (hw : d.Woven s) (gap : List Line)
    (hgap : (d.report.shown.getLast?.elim [] fun a => skipBetween a.number m.row) = gap)
    (hnotices : ∀ l ∈ gap, Report.IsNotice l)
    (hblocks : d'.report.blocks = d.report.blocks ++ gap ++ [m.line]) : d'.Woven s := by
  have hshown : d'.report.shown = d.report.shown ++ [m.line] := by
    rw [Report.shown, hblocks, Report.numbered_concat _ rfl,
      Report.numbered_append_notices hnotices]
    rfl
  refine ⟨?_, fun l hl => ?_⟩
  · rw [hshown, withSkips_concat, show m.line.number = m.row from rfl, hgap, hblocks, hw.blocks]
    simp only [List.append_assoc]
  · rw [hshown] at hl
    rcases List.mem_append.mp hl with hl | hl
    · exact hw.marked l hl
    · rw [List.mem_singleton.mp hl]
      exact List.cons_ne_nil _ _

/-- One mark more on the last block. -/
theorem Woven.mark (hw : d.Woven s) {before : List Line} {l : Line} {us : List Underline}
    (hend : d.EndsWith s before l) (hus : us ≠ [])
    (hblocks : d'.report.blocks = before ++ [{ l with underlines := us }]) : d'.Woven s := by
  have hshown : d.report.shown = before.filter (·.numbered) ++ [l] := by
    rw [Report.shown, hend.blocks, Report.numbered_concat before hend.numbered]
  have hshown' : d'.report.shown = before.filter (·.numbered) ++ [{ l with underlines := us }] := by
    rw [Report.shown, hblocks]
    exact Report.numbered_concat before hend.numbered
  refine ⟨?_, fun b hb => ?_⟩
  · -- the notices depend on the numbers alone, which stay as they are
    have hwoven := hw.blocks
    rw [hshown, withSkips_concat, hend.blocks, ← List.append_assoc] at hwoven
    rw [hshown', withSkips_concat, hblocks, ← List.append_assoc]
    exact congrArg (· ++ [{ l with underlines := us }]) (List.append_cancel_right hwoven)
  · rw [hshown'] at hb
    rcases List.mem_append.mp hb with hb | hb
    · exact hw.marked b (by rw [hshown]; exact List.mem_append_left _ hb)
    · rw [List.mem_singleton.mp hb]
      exact hus

/-- **One mark more keeps the blocks woven.** -/
theorem Grows.woven (h : d.Grows s m d') (hw : d.Woven s) (htraces : d.Traces s sev pieces) :
    d'.Woven s := by
  cases h with
  | @shared before l hend hrow hfree => exact hw.mark hend (by simp) rfl
  | @again before l hend hrow hhit =>
    refine hw.concat (m := m) [] ?_ (by simp) (by simp)
    rw [hend.getLast?_shown]
    show skipBetween l.number m.row = []
    rw [hrow, skipBetween_self]
  | turned hlater =>
    refine hw.concat _ ?_ Report.isNotice_of_mem_skipNotices rfl
    obtain hblank | ⟨before, l, hend, -⟩ := htraces.stands
    · rw [hblank.shown, hblank.skipNotices_eq]
      rfl
    · rw [hend.getLast?_shown, hend.skipNotices_eq]
      rfl

/-- **The blocks of a draft are woven at any stage.** -/
theorem foldlM_woven (h : d.Traces s sev pieces) (hw : d.Woven s) (hfirst : 0 ≤ s.firstRow)
    {rest : List Evidence} (hholds : ∀ p ∈ rest, s.Holds p)
    (horder : (pieces ++ rest).Pairwise fun p q => p.spot.start ≤ q.spot.start)
    (hrun : rest.foldlM (add sev s) d = .ok d') : d'.Woven s := by
  induction rest generalizing d pieces with
  | nil =>
    cases hrun
    exact hw
  | cons e rest ih =>
    have hbefore : ∀ p ∈ pieces, p.spot.start ≤ e.spot.start :=
      fun p hp => (List.pairwise_append.mp horder).2.2 p hp e List.mem_cons_self
    obtain ⟨m, d₁, -, hadd, hgrows⟩ := add_grows h hfirst (hholds e List.mem_cons_self) hbefore
    obtain ⟨d₂, hadd₂, h₂⟩ := add_traces h hfirst (hholds e List.mem_cons_self) hbefore
    obtain rfl : d₁ = d₂ := Except.ok.inj (hadd.symm.trans hadd₂)
    rw [List.foldlM_cons, hadd] at hrun
    exact ih h₂ (hgrows.woven hw h) (fun p hp => hholds p (List.mem_cons_of_mem e hp))
      (by simpa using horder) hrun

end Draft

/-! ## Reports -/

namespace Draft.Traces

variable {s : Source} {sev : Severity} {pieces : List Evidence} {d : Draft}

/-- The lines that are shown are those on which a piece starts. -/
theorem mem_shown_iff (h : d.Traces s sev pieces) (hw : d.Woven s) (row : Int) :
    (∃ l ∈ d.report.shown, l.number = row) ↔
      ∃ p ∈ pieces, ∃ column, s.position p.spot.start = .ok ⟨row, column⟩ := by
  constructor
  · rintro ⟨l, hl, rfl⟩
    obtain ⟨u, us, hu⟩ := List.exists_cons_of_ne_nil (hw.marked l hl)
    have hmark : ⟨l.number, l.text, u⟩ ∈ d.report.marks :=
      Report.mem_marks.mpr ⟨l, hl, u, by simp [hu], rfl⟩
    obtain ⟨p, hp, column, hhere, -⟩ := h.accounts.exists_piece hmark
    exact ⟨p, hp, column, hhere⟩
  · rintro ⟨p, hp, column, hhere⟩
    obtain ⟨m, hm, _, hthere, -⟩ := h.accounts.exists_mark hp
    obtain ⟨l, hl, u, -, rfl⟩ := Report.mem_marks.mp hm
    cases hhere.symm.trans hthere
    exact ⟨l, hl, rfl⟩

/-- **What a report shows is laid out.** -/
theorem laidOut (h : d.Traces s sev pieces) (hw : d.Woven s) :
    ∃ shown, d.report.LaidOut s pieces shown := by
  obtain ⟨gs, hskips, hflat, hrows, hcopies⟩ :=
    exists_showings (h.accounts.following.imp fun _ _ => Line.MayFollow.number_le)
  refine ⟨gs, ?_, List.isChain_iff_pairwise.mp hrows, fun row => ?_, fun g hg => (hcopies g hg).1,
    fun g hg l hl => ?_⟩
  · rw [hw.blocks, hskips]
  · rw [← h.mem_shown_iff hw row, List.mem_map, ← hflat]
    constructor
    · rintro ⟨g, hg, rfl⟩
      obtain ⟨l, ls, hl⟩ := List.exists_cons_of_ne_nil (hcopies g hg).1
      have hmem : l ∈ g.copies := by simp [hl]
      exact ⟨l, List.mem_flatMap.mpr ⟨g, hg, hmem⟩, (hcopies g hg).2 l hmem⟩
    · rintro ⟨l, hl, rfl⟩
      obtain ⟨g, hg, hmem⟩ := List.mem_flatMap.mp hl
      exact ⟨g, hg, ((hcopies g hg).2 l hmem).symm⟩
  · have hnumber := (hcopies g hg).2 l hl
    have hshown : l ∈ d.report.shown := hflat ▸ List.mem_flatMap.mpr ⟨g, hg, hl⟩
    exact ⟨(List.mem_filter.mp hshown).2, hnumber, hnumber ▸ h.accounts.lines l hshown,
      hw.marked l hshown⟩

end Draft.Traces

theorem Report.LaidOut.congr {s : Source} {pieces pieces' : List Evidence} {shown : List Showing}
    {r : Report Line} (h : r.LaidOut s pieces shown) (hpieces : ∀ p, p ∈ pieces ↔ p ∈ pieces') :
    r.LaidOut s pieces' shown where
  blocks := h.blocks
  ascending := h.ascending
  rows row := by simpa only [hpieces] using h.rows row
  nonempty := h.nonempty
  copies := h.copies

namespace Source

variable {s : Source} {pieces : List Evidence}

theorem opening_woven (s : Source) (color : Bool) : (s.opening color).Woven s := by
  have hshown := (s.opening_blank color).shown
  refine ⟨?_, by simp [hshown]⟩
  rw [hshown, opening_blocks]
  exact (List.append_nil _).symm

/-- **The report of pieces within the text is laid out.** -/
theorem evidenceReport_laidOut (sev : Severity) (hfirst : 0 ≤ s.firstRow)
    (hholds : ∀ p ∈ pieces, s.Holds p) (color : Bool) :
    ∃ (d : Draft) (shown : List Showing), s.evidenceReport sev color pieces = .ok d.report ∧
      d.Traces s sev (inOrder (·.spot.start) pieces) ∧ d.report.LaidOut s pieces shown := by
  have horder := inOrder_sorted (·.spot.start) pieces
  have hsorted : ∀ p ∈ inOrder (·.spot.start) pieces, s.Holds p :=
    fun p hp => hholds p ((mem_inOrder _).mp hp)
  have hopening := s.opening_traces sev color
  obtain ⟨d, hrun, htraces⟩ := Draft.foldlM_add hopening hfirst hsorted horder
  have hwoven := Draft.foldlM_woven hopening (s.opening_woven color) hfirst hsorted horder hrun
  obtain ⟨shown, hlaid⟩ := htraces.laidOut hwoven
  refine ⟨d, shown, ?_, htraces, hlaid.congr fun p => mem_inOrder _⟩
  rw [evidenceReport_eq, hrun]
  rfl

end Source

namespace Finding

variable {κ : Type} {f : Finding κ} {fetch : κ → Except Fault Source} {color : Bool}

/-- **The text of a finding is given** iff all its reports are made and can be written. -/
theorem reports?_eq_ok_iff {rs : List (Report Line)} : f.reports? fetch color = .ok rs ↔
    f.reports fetch color = .ok rs ∧ ∀ r ∈ rs, r.excess? = none := by
  rw [reports?_eq, reports, mapM_eq_ok_iff, mapM_eq_ok_iff]
  simp only [written_eq_ok_iff]
  exact forall₂_and_right

/-- **How a finding is laid out.** Of sources whose lines have no negative numbers and which hold
all pieces of evidence, the reports are made, and each is laid out for the pieces of its source. The
text of the finding is its headline and below it, in the order of the keys, the reports that have a
block. It is given iff each of the reports can be written, and each can unless the number that
measures its gutter has too many digits. -/
theorem reports_laidOut (f : Finding κ) (src : κ → Source) (color : Bool)
    (hfirst : ∀ known ∈ f.evidence, 0 ≤ (src known.1).firstRow)
    (hholds : ∀ known ∈ f.evidence, ∀ p ∈ known.2, (src known.1).Holds p) :
    let fetch : κ → Except Fault Source := fun key => .ok (src key)
    ∃ rs, f.reports fetch color = .ok rs ∧
      List.Forall₂ (fun known r => f.report fetch color known = .ok r ∧
        (∃ shown, r.LaidOut (src known.1) known.2 shown) ∧
        r.excess? = Text.decimalExcess? (r.firstNumber + r.numbering.cursor)) f.evidence rs ∧
      f.assemble rs = Text.stack
        (f.headline :: (rs.filter fun r => !r.blocks.isEmpty).map (·.render)) ∧
      ∀ rs', f.reports? fetch color = .ok rs' ↔ rs' = rs ∧ ∀ r ∈ rs, r.excess? = none := by
  intro fetch
  have hmade : ∀ known ∈ f.evidence, ∃ r, f.report fetch color known = .ok r ∧
      (∃ shown, r.LaidOut (src known.1) known.2 shown) ∧
      r.excess? = Text.decimalExcess? (r.firstNumber + r.numbering.cursor) := by
    intro known hknown
    obtain ⟨d, shown, hd, htraces, hlaid⟩ := Source.evidenceReport_laidOut f.severity
      (hfirst known hknown) (hholds known hknown) color
    exact ⟨d.report, hd, ⟨shown, hlaid⟩, htraces.excess?_eq (hfirst known hknown)⟩
  cases hrs : f.reports fetch color with
  | error e =>
    obtain ⟨known, hknown, he⟩ := exists_of_mapM_eq_error hrs
    obtain ⟨r, hr, -⟩ := hmade known hknown
    cases hr.symm.trans he
  | ok rs =>
    refine ⟨rs, rfl, ?_, rfl, fun rs' => ?_⟩
    · have hall := (List.forall₂_and_left f.evidence rs).mpr ⟨hmade, forall₂_of_mapM_eq_ok hrs⟩
      refine hall.imp fun known r ⟨⟨r', hr', hlaid⟩, hr⟩ => ⟨hr, ?_⟩
      obtain rfl : r' = r := Except.ok.inj (hr'.symm.trans hr)
      exact hlaid
    · rw [reports?_eq_ok_iff, hrs, Except.ok.injEq]
      constructor
      · rintro ⟨rfl, hwritten⟩
        exact ⟨rfl, hwritten⟩
      · rintro ⟨rfl, hwritten⟩
        exact ⟨rfl, hwritten⟩

/-- Of six lines the first, the second and the last are shown, the first one twice. The other source
has no evidence and shows nothing. -/
theorem reports_laidOut_six_lines :
    let s : Source := { content := ['a', '\n', 'b', '\n', '\n', '\n', '\n', 'c'] }
    let pieces : List Evidence :=
      [{ spot := ⟨7, 8⟩ }, { spot := ⟨0, 1⟩ }, { spot := ⟨2, 3⟩ }, { spot := ⟨0, 1⟩ }]
    let f : Finding Bool := { activity := ['p'], severity := .error, summary := ['d'], evidence :=
      [(true, pieces), (false, [])] }
    (∀ known ∈ f.evidence, 0 ≤ s.firstRow) ∧ (∀ known ∈ f.evidence, ∀ p ∈ known.2, s.Holds p) ∧
      ∃ r r' shown, f.reports (fun _ => .ok s) false = .ok [r, r'] ∧ r.LaidOut s pieces shown ∧
        r.blocks.map (fun l => (l.numbered, l.number, l.text)) =
          [(true, 1, ['a']), (true, 1, ['a']), (true, 2, ['b']),
            (false, 1, Style.skipNotice 3), (true, 6, ['c'])] ∧
        r'.blocks = [] ∧ f.assemble [r, r'] = Text.stack [f.headline, r.render] := by
  intro s pieces f
  have hfirst : ∀ known ∈ f.evidence, 0 ≤ s.firstRow := fun _ _ => by decide
  have hholds : ∀ known ∈ f.evidence, ∀ p ∈ known.2, s.Holds p := by decide
  have hblocks : (f.reports (fun _ => .ok s) false).map (·.map fun r => r.blocks.map fun l =>
      (l.numbered, l.number, l.text)) = .ok [[(true, 1, ['a']), (true, 1, ['a']), (true, 2, ['b']),
        (false, 1, Style.skipNotice 3), (true, 6, ['c'])], []] := by
    decide
  obtain ⟨rs, hrs, hall, htext, -⟩ := reports_laidOut f (fun _ => s) false hfirst hholds
  obtain _ | ⟨⟨-, ⟨shown, hlaid⟩, -⟩, _ | ⟨-, _ | _⟩⟩ := hall
  rename_i r r'
  rw [hrs] at hblocks
  obtain ⟨hr, hr'⟩ := List.cons.inj (Except.ok.inj hblocks)
  have hempty : r'.blocks = [] := List.map_eq_nil_iff.mp (List.cons.inj hr').1
  refine ⟨hfirst, hholds, r, r', shown, hrs, hlaid, hr, hempty, ?_⟩
  rw [htext]
  have hfull : r.blocks.isEmpty = false := by
    rw [List.isEmpty_eq_false_iff]
    intro hnil
    simp only [hnil, List.map_nil] at hr
    cases hr
  simp [hempty, hfull]

end Finding

end Marginalia
