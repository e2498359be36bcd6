import Marginalia.Proofs.Annotating
import Marginalia.Report.Layout
import Mathlib.Data.List.Chain
import Mathlib.Data.List.Forall2

/-!
# What a report shows

The numbered blocks of a report show lines, and the underlines on them are its marks. Three things
happen to a report while evidence is put into it: the cursor jumps ahead, a block is appended, and
an underline is hung on the last block.

Results:
* `Report.jump_ahead`: a jump ahead only adds notices, and gives no warning.
* `Report.annotateLast_concat`: a decoration goes on the last block and nowhere else.
* `Report.blockRows_numbered`, `Report.blockRows_unnumbered`: the rows of a block.
-/

namespace Marginalia

/-- An underline with the line that it is shown on: the number of that line and its text. -/
structure Mark where
  row : Int
  text : Text
  underline : Underline
  deriving DecidableEq, Repr

/-- The line of a mark as it is shown, with this mark and nothing else on it. -/
def Mark.line (m : Mark) : Line :=
  { text := m.text, numbered := true, number := m.row, underlines := [m.underline] }

/-- The underlines on a line, in the order in which they came. -/
def Line.marks (l : Line) : List Mark := l.underlines.map fun u => ⟨l.number, l.text, u⟩

/-- A block that may follow another one: it shows a later line, or the same line once more because
its first underline collides with one on the other. -/
def Line.MayFollow (c b : Line) : Prop :=
  b.number < c.number ∨ b.number = c.number ∧
    ∃ u, c.underlines.head? = some u ∧ ∃ v ∈ b.underlines, u.Collides v.toSpan

theorem Line.MayFollow.number_le {b c : Line} (h : c.MayFollow b) : b.number ≤ c.number := by
  unfold Line.MayFollow at h
  omega

namespace Report

/-- The numbered blocks, from top to bottom. -/
def shown (r : Report Line) : List Line := r.blocks.filter (·.numbered)

/-- The underlines of the numbered blocks, block by block. -/
def marks (r : Report Line) : List Mark := r.shown.flatMap Line.marks

variable {r : Report Line}

theorem mem_marks {m : Mark} :
    m ∈ r.marks ↔ ∃ l ∈ r.shown, ∃ u ∈ l.underlines, ⟨l.number, l.text, u⟩ = m := by
  simp only [marks, Line.marks, List.mem_flatMap, List.mem_map]

/-- A block without a number and with nothing on it. -/
def IsNotice (l : Line) : Prop := l.numbered = false ∧ l.underlines = []

theorem isNotice_skipNotice (count : Int) : IsNotice (Line.skipNotice count) := ⟨rfl, rfl⟩

theorem numbered_append_notices {blocks notices : List Line} (h : ∀ l ∈ notices, IsNotice l) :
    (blocks ++ notices).filter (·.numbered) = blocks.filter (·.numbered) := by
  have hnone : notices.filter (·.numbered) = [] := by
    rw [List.filter_eq_nil_iff]
    intro l hl
    simp [(h l hl).1]
  rw [List.filter_append, hnone, List.append_nil]

theorem numbered_concat (blocks : List Line) {c : Line} (h : c.numbered = true) :
    (blocks ++ [c]).filter (·.numbered) = blocks.filter (·.numbered) ++ [c] := by
  rw [List.filter_append, List.filter_cons_of_pos h]
  rfl

/-- The notices that a jump leaves behind: one if it is to be told that lines are left out. -/
def skipNotices (r : Report Line) (target : Int) (tellSkip : Bool) : List Line :=
  ((if tellSkip then r.numbering.skipped? target else none).map Line.skipNotice).toList

theorem isNotice_of_mem_skipNotices {target : Int} {tellSkip : Bool} :
    ∀ l ∈ r.skipNotices target tellSkip, IsNotice l := by
  intro l hl
  obtain ⟨count, -, rfl⟩ := Option.map_eq_some_iff.mp (Option.mem_toList.mp hl)
  exact isNotice_skipNotice count

/-- A jump to the latest number or ahead of it earns no warning. -/
theorem backwards?_eq_none {n : Numbering} {target : Int}
    (hlast : ∀ last, n.last = some last → last ≤ target) : n.backwards? target = none := by
  unfold Numbering.backwards?
  split
  · rfl
  · rename_i last hsome
    have := hlast last hsome
    rw [if_neg (by omega)]

/-- **A jump ahead** moves the cursor and gives no warning. At most it leaves notices behind, which
have to be written. -/
theorem jump_ahead {target : Int} (tellSkip : Bool) (h0 : 0 ≤ target)
    (hlast : ∀ last, r.numbering.last = some last → last ≤ target)
    (hcount : (r.numbering.leap target tellSkip).skipped.bind Text.decimalExcess? = none) :
    r.jump target tellSkip = .ok { r with
      blocks := r.blocks ++ r.skipNotices target tellSkip
      numbering := { r.numbering with cursor := target, started := true } } := by
  have hquiet : r.numbering.backwards? target = none := backwards?_eq_none hlast
  have hexcess : (r.numbering.leap target tellSkip).excess? = none := by
    rw [Jump.excess?, Jump.warningExcess?, hcount, Numbering.leap, hquiet]
    rfl
  rw [jump, Numbering.jump_eq_ok_iff.mpr ⟨h0, hexcess, rfl⟩]
  simp [bind, Except.bind, pure, Except.pure, follow, skipNotices, hquiet, Numbering.leap]

/-- **A decoration goes on the last block.** -/
theorem annotateLast_concat {before : List Line} {l : Line} (h : r.blocks = before ++ [l])
    (a : Annotation) :
    r.annotateLast a = (l.annotate a).map fun l' => { r with blocks := before ++ [l'] } := by
  rw [annotateLast, h, List.getLast?_concat]
  simp only [List.dropLast_concat]
  cases l.annotate a <;> rfl

/-- A decoration goes on the line that was just appended. -/
theorem annotateLast_addLine (r : Report Line) (l : Line) (a : Annotation) :
    (r.addLine l).annotateLast a = ((l.stamped r.numbering.cursor).annotate a).map fun l' =>
      { r with blocks := r.blocks ++ [l'], numbering := r.numbering.advance } :=
  annotateLast_concat rfl a

/-! ## The rows of a block -/

section Rows

variable {l : Line}

theorem blockRows_numbered (hl : l.numbered = true) : r.blockRows l =
    (r.gutter (Text.decimal l.number) ++ l.showText r.color) ::
      (l.beneath r.color).map (Text.blanks (r.gutterWidth + 2) ++ ·) := by
  rw [blockRows, if_pos hl]
  rfl

/-- An unnumbered block has the separator in the same column if it is to be indented. -/
theorem blockRows_unnumbered (hl : l.numbered = false) : r.blockRows l =
    [(if r.indentAll then Text.blanks r.gutterWidth ++ Style.separator else []) ++
      l.showText r.color] := by
  rw [blockRows, if_neg (by simp [hl])]
  split
  · simp [gutter]
  · rfl

end Rows

end Report

end Marginalia
