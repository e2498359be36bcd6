import Marginalia.Proofs.Numbers
import Marginalia.Proofs.Source.Excerpt

/-!
# Writing an excerpt

The gutter of an excerpt is measured by the sum of its first number and the cursor behind its last
one. Both are numbers of lines as long as the spot itself is shown. With less than no context
nothing is shown, and the cursor stands as far behind the spot as the context says.

Results:
* `Report.ShowsWindow.numbers_eq`: the numbers of an excerpt.
* `Report.ShowsWindow.excess?_of_context_neg`: with less than no context an excerpt is refused for
  the number that measures its gutter, or not at all.
* `Report.ShowsWindow.excess?_of_context_nonneg`: else the excerpt of a source can be written.
-/

namespace Marginalia.Report.ShowsWindow

variable {s : Source} {m : Remark} {here : Position} {r : Report Line}

/-! ## Its numbers -/

/-- **The numbers of an excerpt** are those of the rows in its window. -/
theorem numbers_eq (h : r.ShowsWindow s m here) :
    r.numbers = Int.range (max s.firstRow (here.row - m.context))
      (min s.lastRow (here.row + m.context) + 1) := by
  rw [numbers_eq_map_shown, h.shown_eq, ← Source.map_fst_window, List.map_map]
  rfl

/-- The cursor stands behind the window, or where the window would begin if it is empty. -/
theorem cursor_eq (h : r.ShowsWindow s m here) :
    r.numbering.cursor = max (max s.firstRow (here.row - m.context))
      (min s.lastRow (here.row + m.context) + 1) := by
  have hlength : (s.window here.row m.context).length =
      (min s.lastRow (here.row + m.context) + 1 - max s.firstRow (here.row - m.context)).toNat := by
    rw [← List.length_map Prod.fst, Source.map_fst_window, Int.range, List.length_map,
      List.length_range]
  rw [h.cursor, hlength]
  omega

theorem mem_numbers_iff (h : r.ShowsWindow s m here) {n : Int} :
    n ∈ r.numbers ↔ max s.firstRow (here.row - m.context) ≤ n ∧
      n ≤ min s.lastRow (here.row + m.context) := by
  rw [h.numbers_eq, Int.mem_range_iff]
  omega

/-- With less than no context an excerpt shows no line. -/
theorem shown_eq_nil (h : r.ShowsWindow s m here) (hcontext : m.context < 0) : r.shown = [] := by
  have hnumbers : r.numbers = [] := by
    rw [List.eq_nil_iff_forall_not_mem]
    intro n hn
    have := h.mem_numbers_iff.mp hn
    omega
  rw [numbers_eq_map_shown] at hnumbers
  exact List.map_eq_nil_iff.mp hnumbers

/-! ## Its marks -/

/-- There is room for the mark of an excerpt, since there is for the source. -/
theorem fits (h : r.ShowsWindow s m here) (hhere : s.position m.spot.start = .ok here) :
    ∀ l ∈ r.shown, ∀ u ∈ l.underlines, u.Fits := by
  intro l hl u hu
  have hroom := s.fits
  rw [h.shown_eq] at hl
  obtain ⟨p, hp, rfl⟩ := List.mem_map.mp hl
  have hlength := Source.length_rowText_le (Source.rowText_of_mem_window hp)
  obtain ⟨-, h0, hcolumn, -⟩ := Source.position_bounds hhere
  simp only [Remark.lineAt] at hu
  split at hu
  · rw [List.mem_singleton.mp hu, Remark.markFrom]
    exact m.severity.fits_beneath h0 (by omega) (by omega) _ _
  · cases hu

/-! ## What it is refused for -/

/-- **With less than no context** an excerpt shows no line, and is refused for the number that
measures its gutter or not at all. -/
theorem excess?_of_context_neg (h : r.ShowsWindow s m here) (hrow : s.firstRow ≤ here.row)
    (hcontext : m.context < 0) :
    r.excess? = Text.decimalExcess? (1 + here.row - m.context) := by
  have hshown := h.shown_eq_nil hcontext
  have hnumbers : r.numbers = [] := by
    rw [numbers_eq_map_shown, hshown]
    rfl
  have hgutter : r.firstNumber + r.numbering.cursor = 1 + here.row - m.context := by
    rw [firstNumber_eq, hnumbers, h.cursor_eq]
    simp only [List.head?_nil, Option.getD_none]
    omega
  rw [← hgutter]
  exact excess?_of_fits (by simp [hshown]) (by simp [hshown])

/-- **Every spot of a source can be shown** with some lines around it, when the lines are numbered
from one on. -/
theorem excess?_of_context_nonneg (h : r.ShowsWindow s m here)
    (hhere : s.position m.spot.start = .ok here) (hfirst : s.firstRow = 1)
    (hcontext : 0 ≤ m.context) : r.excess? = none := by
  have hroom := s.fits
  obtain ⟨hrow, -, -, t, ht⟩ := Source.position_bounds hhere
  obtain ⟨i, l, hl, hi, -⟩ := Source.rowText_eq_ok_iff.mp ht
  have hlines : s.lines.length ≤ s.content.length + 1 := s.convention.length_cut_le s.content
  have hlast : s.lastRow = s.firstRow + s.lines.length - 1 := rfl
  have hbound := (List.getElem?_eq_some_iff.mp hl).1
  have hspot : here.row ∈ r.numbers := by
    rw [h.mem_numbers_iff]
    omega
  have hnumber := h.mem_numbers_iff.mp (firstNumber_mem (List.ne_nil_of_mem hspot))
  have hcursor := h.cursor_eq
  rw [excess?_of_fits (h.fits hhere), Text.decimalExcess?_eq_none_iff]
  · -- Both numbers are those of lines, of which there are no more than characters.
    exact Text.digitCount_le_of_lengthLimit (by omega)
  · intro l' hl'
    have := h.mem_numbers_iff.mp (mem_numbers.mpr ⟨l', hl', rfl⟩)
    omega

end Marginalia.Report.ShowsWindow
