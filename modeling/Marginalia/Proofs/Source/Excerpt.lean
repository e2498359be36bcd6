import Marginalia.Proofs.Extent
import Marginalia.Proofs.Source.Positions
import Marginalia.Session.Step
import Mathlib.Data.Int.Range
import Mathlib.Data.List.Sort

/-!
# What an excerpt shows

An excerpt numbers its lines with the cursor of its report and takes their texts from the rows of
the source. The cursor is set to the first row of the window, and the rows of the window follow one
another, so the two stay in step (`Source.foldlM_showLine`): each line stands under its own number.

Results:
* `Source.map_fst_window`: the rows of a window.
* `Source.excerpt_eq`: the report of a spot that lies within the text.
* `Source.excerpt_window`: what is shown, and when an excerpt is refused.
-/

namespace Marginalia

/-- The mark of a remark on a line with a text, from a column on: at least one cell, and no more
than the line has left. -/
def Remark.markFrom (m : Remark) (column : Int) (t : Text) : Underline :=
  m.severity.pen.beneath ⟨column, column + max 1 (min m.spot.width (t.length - column))⟩ m.caption

/-- A line of a source as it is shown with a remark: under its number, and with the mark if it is
the line of the spot. -/
def Remark.lineAt (m : Remark) (here : Position) (row : Int) (t : Text) : Line :=
  { text := t, numbered := true, number := row,
    underlines := if row = here.row then [m.markFrom here.column t] else [] }

/-- A report is the excerpt of a remark whose spot lies at a position: a block without a number that
holds the message with that position, then the lines of the source that are no more than so many
lines away, each under its own number and with nothing between them. The only underline is the mark
on the line of the spot, which goes past the end of its line only where nothing of that is left. -/
structure Report.Excerpts (s : Source) (m : Remark) (here : Position) (r : Report Line) : Prop where
  blocks : ∃ lines, r.blocks = { text := s.header here m.message } :: lines ∧
    List.Forall₂ (fun row l => ∃ t, s.rowText row = .ok t ∧ l = m.lineAt here row t)
      (Int.range (max s.firstRow (here.row - m.context))
        (min s.lastRow (here.row + m.context) + 1)) lines
  mark : ∃ t, s.rowText here.row = .ok t ∧
    r.blocks.flatMap (·.underlines) = [m.markFrom here.column t] ∧
    r.marks = [⟨here.row, t, m.markFrom here.column t⟩] ∧
    (here.column < t.length → (m.markFrom here.column t).stop ≤ t.length) ∧
    (t.length ≤ here.column → (m.markFrom here.column t).stop = here.column + 1)

/-- A report shows the window of a spot: its header, and behind it the lines of the source that are
near enough. The cursor has passed them all. -/
structure Report.ShowsWindow (s : Source) (m : Remark) (here : Position) (r : Report Line) :
    Prop where
  blocks : r.blocks = { text := s.header here m.message } ::
    (s.window here.row m.context).map fun p => m.lineAt here p.1 p.2
  cursor : r.numbering.cursor =
    max s.firstRow (here.row - m.context) + (s.window here.row m.context).length

/-- The lines of the window are all that is shown under a number. -/
theorem Report.ShowsWindow.shown_eq {s : Source} {m : Remark} {here : Position} {r : Report Line}
    (h : r.ShowsWindow s m here) :
    r.shown = (s.window here.row m.context).map fun p => m.lineAt here p.1 p.2 := by
  have hall : ∀ l ∈ (s.window here.row m.context).map (fun p => m.lineAt here p.1 p.2),
      l.numbered = true := by
    intro l hl
    obtain ⟨p, -, rfl⟩ := List.mem_map.mp hl
    rfl
  rw [shown, h.blocks, List.filter_cons_of_neg (by simp), List.filter_eq_self.mpr hall]

/-- Whole numbers in a row go up. -/
theorem pairwise_range (m n : Int) : (Int.range m n).Pairwise (· < ·) := by
  rw [Int.range, List.pairwise_map]
  exact List.pairwise_lt_range.imp fun h => by omega

namespace Source

variable {s : Source}

/-! ## The window -/

theorem map_fst_numbered (s : Source) :
    s.numbered.map Prod.fst = Int.range s.firstRow (s.lastRow + 1) := by
  have hlength : (s.lastRow + 1 - s.firstRow).toNat = s.rowTexts.length := by
    have hlast : s.lastRow = s.firstRow + s.lines.length - 1 := rfl
    rw [rowTexts, List.length_map]
    omega
  have hrows : s.numbered.map Prod.fst =
      (s.rowTexts.zipIdx.map Prod.snd).map fun i : Nat => s.firstRow + (i : Int) := by
    rw [numbered, List.map_map, List.map_map]
    rfl
  rw [hrows, List.zipIdx_map_snd, ← List.range_eq_range', Int.range, hlength]

theorem rowText_of_mem_numbered {p : Int × Text} (h : p ∈ s.numbered) :
    s.rowText p.1 = .ok p.2 := by
  obtain ⟨⟨t, i⟩, hmem, rfl⟩ := List.mem_map.mp h
  obtain ⟨l, hl, rfl⟩ : ∃ l, s.lines[i]? = some l ∧ l.text = t := by
    simpa [rowTexts, List.mem_zipIdx_iff_getElem?] using hmem
  exact rowText_eq_ok_iff.mpr ⟨i, l, hl, rfl, rfl⟩

/-- **The rows of a window** are all those of the source that are near enough, in order. -/
theorem map_fst_window (s : Source) (row context : Int) :
    (s.window row context).map Prod.fst =
      Int.range (max s.firstRow (row - context)) (min s.lastRow (row + context) + 1) := by
  have hfilter : (s.window row context).map Prod.fst =
      (Int.range s.firstRow (s.lastRow + 1)).filter
        fun r => row - context ≤ r ∧ r ≤ row + context := by
    rw [← map_fst_numbered, List.filter_map]
    rfl
  rw [hfilter]
  refine ((pairwise_range _ _).filter _).eq_of_mem_iff (pairwise_range _ _) fun r => ?_
  simp only [List.mem_filter, Int.mem_range_iff, decide_eq_true_eq]
  omega

theorem pairwise_fst_window (s : Source) (row context : Int) :
    ((s.window row context).map Prod.fst).Pairwise (· < ·) := by
  rw [map_fst_window]
  exact pairwise_range _ _

/-- A row of the source is in its own window, however few lines are shown around it. -/
theorem row_mem_window {row context : Int} {t : Text} (ht : s.rowText row = .ok t)
    (hcontext : 0 ≤ context) : row ∈ (s.window row context).map Prod.fst := by
  obtain ⟨i, l, hl, hrow, -⟩ := rowText_eq_ok_iff.mp ht
  have hi := (List.getElem?_eq_some_iff.mp hl).1
  have hlast : s.lastRow = s.firstRow + s.lines.length - 1 := rfl
  rw [map_fst_window, Int.mem_range_iff]
  omega

theorem rowText_of_mem_window {row context : Int} {p : Int × Text} (h : p ∈ s.window row context) :
    s.rowText p.1 = .ok p.2 := rowText_of_mem_numbered (List.mem_filter.mp h).1

/-! ## One line after the other -/

variable {m : Remark} {here : Position}

/-- A line whose row is where the cursor stands is shown under its own number. -/
theorem showLine_eq (hcolumn : 0 ≤ here.column) (r : Report Line) (t : Text) :
    showLine m here r (r.numbering.cursor, t) = .ok { r with
      blocks := r.blocks ++ [m.lineAt here r.numbering.cursor t]
      numbering := r.numbering.advance } := by
  unfold showLine Remark.lineAt
  by_cases h : r.numbering.cursor = here.row
  · have hplace := Line.locate_reach { text := t } hcolumn m.spot.width
      (Line.stamped { text := t } here.row)
    have hmarked := Line.annotate_underline_of_free hplace
      (fun v hv => absurd hv List.not_mem_nil) m.severity.pen m.caption
    simp only [h, ↓reduceIte, Report.annotateLast_addLine]
    rw [Severity.mark, hmarked]
    rfl
  · simp only [h, ↓reduceIte]
    rfl

/-- **Rows that follow one another from the cursor on are shown under their own numbers.** -/
theorem foldlM_showLine (hcolumn : 0 ≤ here.column) : ∀ (rows : List (Int × Text))
    (r : Report Line), (∀ (i : Nat) p, rows[i]? = some p → p.1 = r.numbering.cursor + i) →
    ∃ n, n.cursor = r.numbering.cursor + rows.length ∧
      rows.foldlM (showLine m here) r = .ok { r with
        blocks := r.blocks ++ rows.map fun p => m.lineAt here p.1 p.2
        numbering := n }
  | [], r, _ => ⟨r.numbering, by simp, by simp [pure, Except.pure]⟩
  | (row, t) :: rows, r, hrows => by
    obtain rfl : row = r.numbering.cursor := by simpa using hrows 0 (row, t) rfl
    have hnext : ∀ (i : Nat) p, rows[i]? = some p → p.1 = r.numbering.advance.cursor + i := by
      intro i p hp
      have := hrows (i + 1) p hp
      simp only [Numbering.advance]
      omega
    obtain ⟨n, hcursor, hfold⟩ := foldlM_showLine hcolumn rows { r with
      blocks := r.blocks ++ [m.lineAt here r.numbering.cursor t]
      numbering := r.numbering.advance } hnext
    simp only [Numbering.advance] at hcursor
    refine ⟨n, by rw [hcursor, List.length_cons]; omega, ?_⟩
    rw [List.foldlM_cons, showLine_eq hcolumn]
    refine hfold.trans ?_
    simp only [List.map_cons, List.append_assoc, List.singleton_append]

/-! ## The report of a remark -/

/-- A spot outside the text is refused as such, if that can be said. -/
theorem excerpt_of_outside (h : ¬ (0 ≤ m.spot.start ∧ m.spot.start ≤ s.content.length)) :
    s.excerpt m = .error (if Text.digitLimit < Text.digitCount m.spot.start then .numberTooLong
      else .offsetOutside m.spot.start) := by
  rw [excerpt, position_of_outside h, ← Fault.uttered_of_numbers_eq rfl]
  rfl

/-- An excerpt is refused if the row in its header has too many digits. -/
theorem excerpt_of_long_row (hhere : s.position m.spot.start = .ok here)
    (hdigits : Text.digitLimit < Text.digitCount here.row) :
    s.excerpt m = .error .numberTooLong := by
  rw [excerpt, hhere]
  simp only [bind, Except.bind, Text.decimalsExcess?_of_long List.mem_cons_self hdigits]
  rfl

/-- The report of a remark before any line of the window is shown: below the header, the cursor is
set to the first of them. -/
def overture (s : Source) (m : Remark) (here : Position) : Report Line where
  color := m.color
  numbering := { cursor := max s.firstRow (here.row - m.context), started := true }
  blocks := [{ text := s.header here m.message }]

/-- **The report of a spot within the text** is made line by line. -/
theorem excerpt_of_position (hfirst : 0 ≤ s.firstRow) (hhere : s.position m.spot.start = .ok here)
    (hdigits : Text.digitCount here.row ≤ Text.digitLimit) : s.excerpt m =
      (s.window here.row m.context).foldlM (showLine m here) (s.overture m here) := by
  have hheader : Text.decimalsExcess? [here.row, here.column + 1] = none := by
    refine Text.decimalsExcess?_eq_none_iff.mpr (List.forall_mem_cons.mpr ⟨hdigits, ?_⟩)
    exact List.forall_mem_singleton.mpr (digitCount_column_le hhere)
  have hjump : (Report.addNote { color := m.color } { text := s.header here m.message }).jump
      (max s.firstRow (here.row - m.context)) = .ok (s.overture m here) := by
    rw [Report.jump, Numbering.jump_of_nonneg (by omega)]
    rfl
  rw [excerpt, hhere]
  simp only [bind, Except.bind, hheader, Fault.check, hjump]

/-- It shows the window of the spot. -/
theorem excerpt_eq (hfirst : 0 ≤ s.firstRow) (hhere : s.position m.spot.start = .ok here)
    (hdigits : Text.digitCount here.row ≤ Text.digitLimit) :
    ∃ r, s.excerpt m = .ok r ∧ r.ShowsWindow s m here := by
  obtain ⟨-, hcolumn, -⟩ := position_bounds hhere
  have hrows : ∀ (i : Nat) p, (s.window here.row m.context)[i]? = some p →
      p.1 = (s.overture m here).numbering.cursor + i := by
    intro i p hp
    have hrow : ((s.window here.row m.context).map Prod.fst)[i]? = some p.1 := by simp [hp]
    rw [map_fst_window, Int.range, List.getElem?_map, Option.map_eq_some_iff] at hrow
    obtain ⟨j, hj, hrow⟩ := hrow
    obtain ⟨hi, hget⟩ := List.getElem?_eq_some_iff.mp hj
    rw [List.getElem_range] at hget
    simp only [overture]
    omega
  obtain ⟨n, hcursor, hfold⟩ := foldlM_showLine (m := m) hcolumn (s.window here.row m.context)
    (s.overture m here) hrows
  exact ⟨_, (excerpt_of_position hfirst hhere hdigits).trans hfold, rfl, hcursor⟩

/-- Of lines in order one alone has the number of the spot, so only this one is marked. -/
theorem marks_lineAt {t : Text} (hrow : s.rowText here.row = .ok t) :
    ∀ {rows : List (Int × Text)}, (rows.map Prod.fst).Pairwise (· < ·) →
    (∀ p ∈ rows, s.rowText p.1 = .ok p.2) → here.row ∈ rows.map Prod.fst →
    (rows.map fun p => m.lineAt here p.1 p.2).flatMap Line.marks =
      [⟨here.row, t, m.markFrom here.column t⟩]
  | p :: rows, hsorted, htexts, hmem => by
    rw [List.map_cons, List.pairwise_cons] at hsorted
    rw [List.map_cons, List.flatMap_cons]
    by_cases h : p.1 = here.row
    · have hother : ∀ q ∈ rows, q.1 ≠ here.row := fun q hq => by
        have := hsorted.1 q.1 (List.mem_map_of_mem hq)
        omega
      have hnone : (rows.map fun p => m.lineAt here p.1 p.2).flatMap Line.marks = [] := by
        rw [List.flatMap_eq_nil_iff]
        intro l hl
        obtain ⟨q, hq, rfl⟩ := List.mem_map.mp hl
        simp [Line.marks, Remark.lineAt, hother q hq]
      obtain rfl : t = p.2 := by
        have := htexts p List.mem_cons_self
        rw [h, hrow] at this
        exact Except.ok.inj this
      rw [hnone, List.append_nil]
      simp [Line.marks, Remark.lineAt, h]
    · have hlater : here.row ∈ rows.map Prod.fst := by
        rcases List.mem_cons.mp hmem with h' | h'
        · exact absurd h'.symm h
        · exact h'
      have hfirst : (m.lineAt here p.1 p.2).marks = [] := by simp [Line.marks, Remark.lineAt, h]
      rw [hfirst, List.nil_append]
      exact marks_lineAt hrow hsorted.2 (fun q hq => htexts q (List.mem_cons_of_mem p hq)) hlater

/-- **An excerpt shows the window of its spot**, and marks the spot alone. -/
theorem excerpts_of_position (hfirst : 0 ≤ s.firstRow) (hcontext : 0 ≤ m.context)
    (hhere : s.position m.spot.start = .ok here)
    (hdigits : Text.digitCount here.row ≤ Text.digitLimit) :
    ∃ r, s.excerpt m = .ok r ∧ r.Excerpts s m here := by
  obtain ⟨r, hr, hshows⟩ := excerpt_eq hfirst hhere hdigits
  obtain ⟨-, -, -, t, ht⟩ := position_bounds hhere
  have hmarks := marks_lineAt (m := m) ht (pairwise_fst_window s here.row m.context)
    (fun p hp => rowText_of_mem_window hp) (row_mem_window ht hcontext)
  refine ⟨r, hr, ⟨⟨_, hshows.blocks, ?_⟩, t, ht, ?_, ?_, ?_, ?_⟩⟩
  · rw [← map_fst_window, List.forall₂_map_left_iff, List.forall₂_map_right_iff, List.forall₂_same]
    exact fun p hp => ⟨p.2, rowText_of_mem_window hp, rfl⟩
  · have hunderlines : ∀ ls : List Line,
        ls.flatMap (·.underlines) = (ls.flatMap Line.marks).map (·.underline) := by
      intro ls
      simp [List.map_flatMap, Line.marks, Function.comp_def]
    rw [hshows.blocks, List.flatMap_cons, List.nil_append, hunderlines, hmarks]
    rfl
  · rw [Report.marks, hshows.shown_eq, hmarks]
  · intro hlt
    simp only [Remark.markFrom, Pen.beneath]
    omega
  · intro hle
    simp only [Remark.markFrom, Pen.beneath]
    omega

/-- **An excerpt shows the right window with the right mark.** Of a source whose lines have no
negative numbers, an excerpt is refused iff its spot begins outside the text or in a line whose
number has too many digits to be written. It is refused as the one or the other, but also for too
many digits where the spot begins too far outside to say so. Otherwise the report shows the window
of the spot and marks the spot alone. -/
theorem excerpt_window (hfirst : 0 ≤ s.firstRow) (hcontext : 0 ≤ m.context) :
    ((∃ e, s.excerpt m = .error e) ↔
      ¬ (0 ≤ m.spot.start ∧ m.spot.start ≤ s.content.length) ∨
        ∃ here, s.position m.spot.start = .ok here ∧
          Text.digitLimit < Text.digitCount here.row) ∧
    (¬ (0 ≤ m.spot.start ∧ m.spot.start ≤ s.content.length) →
      s.excerpt m = .error (if Text.digitLimit < Text.digitCount m.spot.start then .numberTooLong
        else .offsetOutside m.spot.start)) ∧
    ∀ here, s.position m.spot.start = .ok here →
      (Text.digitLimit < Text.digitCount here.row → s.excerpt m = .error .numberTooLong) ∧
      (Text.digitCount here.row ≤ Text.digitLimit →
        ∃ r, s.excerpt m = .ok r ∧ r.Excerpts s m here) := by
  refine ⟨⟨?_, ?_⟩, excerpt_of_outside, fun here hhere =>
    ⟨excerpt_of_long_row hhere, excerpts_of_position hfirst hcontext hhere⟩⟩
  · rintro ⟨e, he⟩
    refine Decidable.or_iff_not_imp_left.mpr fun hinside => ?_
    have hinside := Decidable.not_not.mp hinside
    obtain ⟨here, hhere⟩ := exists_position hinside.1 hinside.2
    refine ⟨here, hhere, Nat.lt_of_not_le fun hdigits => ?_⟩
    obtain ⟨r, hr, -⟩ := excerpts_of_position hfirst hcontext hhere hdigits
    cases hr.symm.trans he
  · rintro (h | ⟨here, hhere, hdigits⟩)
    · exact ⟨_, excerpt_of_outside h⟩
    · exact ⟨_, excerpt_of_long_row hhere hdigits⟩

/-- A spot between the characters of a break, with the line behind it. -/
theorem excerpt_window_within_break :
    let s : Source := { content := ['a', '\r', '\n', 'b'], firstRow := 9 }
    let m : Remark := { spot := ⟨2, 4⟩, message := ['m'], context := 1 }
    (0 ≤ s.firstRow ∧ 0 ≤ m.context) ∧ ∃ r, s.excerpt m = .ok r ∧ r.Excerpts s m ⟨9, 2⟩ := by
  intro s m
  have hfirst : 0 ≤ s.firstRow := by decide
  have hcontext : 0 ≤ m.context := by decide
  exact ⟨⟨hfirst, hcontext⟩, ((excerpt_window hfirst hcontext).2.2 ⟨9, 2⟩ rfl).2 (by decide)⟩

/-- A spot outside the text is not all that an excerpt is refused for: the spot is the second line,
when the first has the largest number that can be written. -/
theorem excerpt_refuses_long_rows :
    ¬ ∀ (s : Source) (m : Remark), 0 ≤ s.firstRow → 0 ≤ m.context →
      ((∃ e, s.excerpt m = .error e) ↔
        ¬ (0 ≤ m.spot.start ∧ m.spot.start ≤ s.content.length)) := by
  intro hclaim
  obtain ⟨n, hpos, -, hlong⟩ := Text.exists_longest
  let s : Source := { content := ['\n', 'a'], firstRow := n }
  let m : Remark := { spot := ⟨1, 2⟩, message := ['m'] }
  have hhere : s.position m.spot.start = .ok ⟨s.firstRow + 1, 0⟩ := rfl
  have hdigits : Text.digitLimit < Text.digitCount (s.firstRow + 1) := hlong _ (Int.lt_succ n)
  have hinside : 0 ≤ m.spot.start ∧ m.spot.start ≤ s.content.length :=
    ⟨show (0 : Int) ≤ 1 by decide, show (1 : Int) ≤ (2 : Nat) by decide⟩
  have hfirst : 0 ≤ s.firstRow := Int.le_of_lt hpos
  exact (hclaim s m hfirst (Int.le_refl 0)).mp ⟨_, excerpt_of_long_row hhere hdigits⟩ hinside

end Source

end Marginalia
