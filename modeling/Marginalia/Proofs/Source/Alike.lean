import Marginalia.Proofs.Source.Excerpt

/-!
# Sources with the same lines

What ends the lines of a source shows in its offsets and nowhere else. Two sources with the same
name that have the same lines under the same numbers (`Source.Alike`) have the same columns too, and
a line and column is found at its own offset in each of them, so the remark that is made there is
the same remark.

Results:
* `Source.exists_offset_iff`: which lines and columns a source has.
* `Source.Alike.excerpt_movedTo`: the report of a remark is the same for both.
* `Source.Alike.agree`: so is all that is asked for by line and column.
-/

namespace Marginalia

/-- The remark about a spot of the same width that begins somewhere else. -/
def Remark.movedTo (m : Remark) (offset : Int) : Remark :=
  { m with spot := ⟨offset, offset + m.spot.width⟩ }

@[simp] theorem Remark.width_movedTo (m : Remark) (offset : Int) :
    (m.movedTo offset).spot.width = m.spot.width := by
  simp only [movedTo, Span.width]
  omega

namespace Source

/-- Two sources have the same name, and the same lines under the same numbers. -/
structure Alike (s s' : Source) : Prop where
  filename : s.filename = s'.filename
  firstRow : s.firstRow = s'.firstRow
  rowTexts : s.rowTexts = s'.rowTexts

/-- Two sources cannot be told apart as long as spots are given by line and column. -/
structure Agree (s s' : Source) : Prop where
  lastRow : s.lastRow = s'.lastRow
  /-- Each line has the same text, or there is no such line. -/
  rowText : ∀ row, s.rowText row = s'.rowText row
  /-- They have the same lines and columns. -/
  offset : ∀ row column,
    (∃ o, s.offset row column = .ok o) ↔ ∃ o, s'.offset row column = .ok o
  /-- What is said about the same line and column is rendered the same, in every session, or it is
  refused for the same reason. -/
  excerpt : ∀ {row column o o' : Int}, s.offset row column = .ok o →
    s'.offset row column = .ok o' → ∀ (m : Remark) {session session' : Session}
      {name name' : String}, session.source name = .ok s → session'.source name' = .ok s' →
      (session.excerpt name (m.movedTo o) >>= Report.render?) =
        (session'.excerpt name' (m.movedTo o') >>= Report.render?)

variable {s s' : Source}

theorem length_rowTexts (s : Source) : s.rowTexts.length = s.lines.length := List.length_map _

/-- **The columns of a line** are those of its text and that just past the end. -/
theorem exists_offset_iff {row column : Int} :
    (∃ o, s.offset row column = .ok o) ↔
      ∃ t, s.rowText row = .ok t ∧ 0 ≤ column ∧ column ≤ t.length := by
  constructor
  · rintro ⟨o, ho⟩
    obtain ⟨i, l, hl, hrow, h0, hlength, -⟩ := offset_eq_ok_iff.mp ho
    exact ⟨l.text, rowText_eq_ok_iff.mpr ⟨i, l, hl, hrow, rfl⟩, h0, hlength⟩
  · rintro ⟨t, ht, h0, hlength⟩
    obtain ⟨i, l, hl, hrow, rfl⟩ := rowText_eq_ok_iff.mp ht
    exact ⟨_, offset_eq_ok_iff.mpr ⟨i, l, hl, hrow, h0, hlength, rfl⟩⟩

namespace Alike

theorem symm (h : s.Alike s') : s'.Alike s := ⟨h.filename.symm, h.firstRow.symm, h.rowTexts.symm⟩

theorem trans {s'' : Source} (h : s.Alike s') (h' : s'.Alike s'') : s.Alike s'' :=
  ⟨h.filename.trans h'.filename, h.firstRow.trans h'.firstRow, h.rowTexts.trans h'.rowTexts⟩

variable (h : s.Alike s')

include h

theorem lastRow : s.lastRow = s'.lastRow := by
  rw [Source.lastRow, Source.lastRow, ← length_rowTexts, ← length_rowTexts, h.rowTexts, h.firstRow]

theorem rowText (row : Int) : s.rowText row = s'.rowText row := by
  have hindex : s.index? row = s'.index? row := by
    rw [index?, index?, h.firstRow, h.lastRow]
  rw [rowText_eq, rowText_eq, hindex, h.rowTexts]

theorem offset (row column : Int) :
    (∃ o, s.offset row column = .ok o) ↔ ∃ o, s'.offset row column = .ok o := by
  rw [exists_offset_iff, exists_offset_iff, h.rowText]

theorem window (row context : Int) : s.window row context = s'.window row context := by
  rw [Source.window, Source.window, numbered, numbered, h.rowTexts, h.firstRow]

theorem header (here : Position) (message : Text) :
    s.header here message = s'.header here message := by
  rw [Source.header, Source.header, h.filename]

section Found

variable {here : Position} {o o' : Int} (ho : s.position o = .ok here)
  (ho' : s'.position o' = .ok here) (m : Remark)

include ho ho'

/-- **The report of a remark** is the same for both sources. -/
theorem excerpt_movedTo : s.excerpt (m.movedTo o) = s'.excerpt (m.movedTo o') := by
  -- Of the spot, a line is shown with no more than its width.
  have hshow : showLine (m.movedTo o) here = showLine (m.movedTo o') here := by
    funext r row
    rw [showLine, showLine, m.width_movedTo, m.width_movedTo]
    rfl
  have hhere : s.position (m.movedTo o).spot.start = .ok here := ho
  have hhere' : s'.position (m.movedTo o').spot.start = .ok here := ho'
  rw [Source.excerpt, Source.excerpt, hhere, hhere']
  simp only [bind, Except.bind]
  rw [h.header, h.window, h.firstRow, hshow]
  rfl

theorem sessionExcerpt_movedTo {session session' : Session} {name name' : String}
    (hname : session.source name = .ok s) (hname' : session'.source name' = .ok s') :
    session.excerpt name (m.movedTo o) = session'.excerpt name' (m.movedTo o') := by
  rw [Session.excerpt, Session.excerpt, hname, hname']
  exact h.excerpt_movedTo ho ho' m

end Found

/-- **Sources that are alike cannot be told apart** by line and column. -/
theorem agree : s.Agree s' where
  lastRow := h.lastRow
  rowText := h.rowText
  offset := h.offset
  excerpt ho ho' m _ _ _ _ hname hname' := by
    rw [h.sessionExcerpt_movedTo (position_of_offset ho) (position_of_offset ho') m hname hname']

end Alike

end Source

end Marginalia
