import Marginalia.Proofs.Extent
import Marginalia.Proofs.TextRow
import Marginalia.Proofs.Workspace.Runs

/-!
# The gutter

The gutter of a report is as wide as the sum of the first number and the cursor has digits, which is
an estimate. Where the numbers go up, every one of them lies between the first number and the
cursor, so none has more digits than that sum (`Report.Ascending.length_decimal_lt`), and all texts
begin in one column. While the cursor is right behind the greatest number, the sum is less than
three times that number, and one digit more is all that the estimate may be off by.

Results:
* `Report.Ascending.aligned`: how a numbered block stands in a report whose numbers go up.
* `Workspace.gutter_of_run`: the columns of a report after a run without warnings.
-/

namespace Marginalia

namespace Text

theorem length_decimal {n : Int} (h : 0 ≤ n) : (decimal n).length = digitCount n := by
  rw [decimal_of_nonneg h, digitCount]

theorem getElem?_behind {lead row : Text} {i : Nat} :
    (lead ++ row)[lead.length + i]? = row[i]? := by
  rw [List.getElem?_append_right (Nat.le_add_right _ _), Nat.add_sub_cancel_left]

/-- Twice a number and one has one digit more at most. -/
theorem digitCount_le_succ {m n : Int} (hm : 0 ≤ m) (h : m ≤ 2 * n + 1) :
    digitCount m ≤ digitCount n + 1 := by
  have hlt : n.natAbs < Nat.pow 10 (digitCount n) :=
    (digitCount_le_iff Nat.length_toDigits_pos).mp (Nat.le_refl _)
  rw [digitCount_le_iff (Nat.succ_pos _), Nat.pow_eq, Nat.pow_succ]
  rw [Nat.pow_eq] at hlt
  omega

end Text

namespace Report

variable {r : Report Line} {l : Line}

/-- How a numbered block stands in a report: its number, at least one blank up to the width of the
gutter, the separator and the text; and the rows beneath as far to the right as the text. -/
structure Aligned (r : Report Line) (l : Line) : Prop where
  rows : ∃ pad : Nat, 1 ≤ pad ∧ (Text.decimal l.number).length + pad = r.gutterWidth ∧
    r.blockRows l =
      (Text.decimal l.number ++ Text.blanks pad ++ Style.separator ++ l.showText r.color) ::
        (l.beneath r.color).map (Text.blanks (r.gutterWidth + 2) ++ ·)
  text : ∃ row, (r.blockRows l)[0]? = some row ∧
    ∀ i : Nat, row[(r.gutterWidth + 2).toNat + i]? = (l.showText r.color)[i]?
  cells : r.color = false → l.DrawnSingly → ∀ u c, l.DrawnAt u c → 0 ≤ c ∧
    ∃ row under, (r.blockRows l)[0]? = some row ∧ (r.blockRows l)[1]? = some under ∧
      row[(r.gutterWidth + 2 + c).toNat]? = l.text[c.toNat]? ∧
      (under[(r.gutterWidth + 2 + c).toNat]?).map (fun c => [c]) = some (u.glyphAt c)

/-! ## The width of the gutter -/

/-- **The gutter has room for every number** and one blank. -/
theorem Ascending.length_decimal_lt (h : r.Ascending) {n : Int} (hn : n ∈ r.numbers) :
    (Text.decimal n).length < r.gutterWidth := by
  have hrange := h.range n hn
  have hfirst := h.firstNumber_le n hn
  have hdigits : Text.digitCount n ≤ Text.digitCount (r.firstNumber + r.numbering.cursor) :=
    Text.digitCount_mono (by omega)
  rw [gutterWidth, Text.length_decimal hrange.1]
  omega

/-- **Right behind the greatest number** the gutter has room for one digit more at most. -/
theorem Ascending.gutterWidth_le (h : r.Ascending) {n : Int} (hn : n ∈ r.numbers)
    (hcursor : r.numbering.cursor = n + 1) : r.gutterWidth ≤ Text.digitCount n + 2 := by
  have hfirst := h.firstNumber_le n hn
  have hdigits : Text.digitCount (r.firstNumber + r.numbering.cursor) ≤ Text.digitCount n + 1 :=
    Text.digitCount_le_succ (by omega) (by omega)
  rw [gutterWidth]
  omega

/-! ## The columns of a block -/

theorem gutter_of_lt {number : Text} (h : number.length < r.gutterWidth) :
    ∃ pad : Nat, 1 ≤ pad ∧ number.length + pad = r.gutterWidth ∧
      r.gutter number = number ++ Text.blanks pad ++ Style.separator := by
  refine ⟨(r.gutterWidth - number.length).toNat, by omega, by omega, ?_⟩
  rw [gutter, Int.toNat_of_nonneg (by omega)]

theorem gutterWidth_nonneg (r : Report Line) : 0 ≤ r.gutterWidth := by
  rw [gutterWidth]
  omega

theorem length_gutter {number : Text} (h : number.length < r.gutterWidth) :
    (r.gutter number).length = (r.gutterWidth + 2).toNat := by
  obtain ⟨pad, -, hwidth, hgutter⟩ := gutter_of_lt h
  rw [hgutter]
  simp only [List.length_append, Text.length_blanks, Style.separator, List.length_cons,
    List.length_nil]
  omega

/-- **A numbered block stands in the columns of its report** if the gutter has room for its
number. -/
theorem aligned_of_lt (hl : l.numbered = true)
    (h : (Text.decimal l.number).length < r.gutterWidth) : r.Aligned l where
  rows := by
    obtain ⟨pad, hpad, hwidth, hgutter⟩ := gutter_of_lt h
    exact ⟨pad, hpad, hwidth, by rw [blockRows_numbered hl, hgutter]⟩
  text := by
    refine ⟨_, by rw [blockRows_numbered hl]; rfl, fun i => ?_⟩
    rw [← length_gutter h, Text.getElem?_behind]
  cells := by
    intro hcolor hsingly u c hu
    obtain ⟨hc, hglyph⟩ := l.getElem?_showUnderline hsingly hu
    have hcolumn : (r.gutterWidth + 2 + c).toNat = (r.gutterWidth + 2).toNat + c.toNat := by
      have := gutterWidth_nonneg r
      omega
    have hshown : (l.showUnderline false).isEmpty = false := by
      rw [List.isEmpty_eq_false_iff]
      intro hnil
      rw [hnil] at hglyph
      cases hglyph
    refine ⟨hc, _, Text.blanks (r.gutterWidth + 2) ++ l.showUnderline false,
      by rw [blockRows_numbered hl]; rfl, ?_, ?_, ?_⟩
    · rw [blockRows_numbered hl, Line.beneath, hcolor, hshown]
      rfl
    · rw [hcolumn, ← length_gutter h, Text.getElem?_behind, hcolor, Line.showText_plain]
    · have hblanks : (r.gutterWidth + 2).toNat = (Text.blanks (r.gutterWidth + 2)).length :=
        (Text.length_blanks _).symm
      rw [hcolumn, hblanks, Text.getElem?_behind, hglyph]

theorem Ascending.aligned (h : r.Ascending) (hl : l ∈ r.blocks) (hnumbered : l.numbered = true) :
    r.Aligned l := by
  have hshown : l ∈ r.shown := List.mem_filter.mpr ⟨hl, hnumbered⟩
  exact aligned_of_lt hnumbered (h.length_decimal_lt (mem_numbers.mpr ⟨l, hshown, rfl⟩))

end Report

namespace Workspace

/-- **One gutter for the whole report.** After a run of a new report without warnings: the rows of
the report are those of its blocks one after the other. Every numbered block stands in the columns
of the report, and every other one too if it is to be indented. If a numbered line was the last to
move the cursor, then the width of the gutter is two more than the greatest number has digits, at
most. -/
theorem gutter_of_run {w₀ w : Workspace} {r : ReportId} (hfresh : Fresh w₀ r) (hrun : Run r w₀ w)
    (hquiet : (w.report r).warnings = []) :
    let rep := w.view r
    (∀ t, rep.render? = .ok t → t = Text.stack (rep.blocks.flatMap rep.blockRows)) ∧
    (∀ l ∈ rep.blocks, l.numbered = true → rep.Aligned l) ∧
    (∀ l ∈ rep.blocks, l.numbered = false → rep.blockRows l =
      [(if rep.indentAll then Text.blanks rep.gutterWidth ++ Style.separator else []) ++
        l.showText rep.color]) ∧
    ∀ w₁ w₂ c id, Run r w₀ w₁ → w₁.Holds c → w₁.outcome (.addLine r c) = .ok (w₂, id) →
      StillRun r w₂ w →
      ∃ l ∈ rep.blocks, l.numbered = true ∧
        (∀ l' ∈ rep.blocks, l'.numbered = true → l'.number ≤ l.number) ∧
        rep.gutterWidth ≤ Text.digitCount l.number + 2 := by
  intro rep
  have hascending : rep.Ascending := Run.ascending hfresh hrun hquiet
  refine ⟨fun t ht => ?_, fun l hl => hascending.aligned hl, fun l _ => Report.blockRows_unnumbered,
    fun w₁ w₂ c id hbefore hc hline hstill => ?_⟩
  · rw [Report.render?] at ht
    cases hexcess : Fault.check rep.excess? with
    | error e =>
      rw [hexcess] at ht
      cases ht
    | ok _ =>
      rw [hexcess] at ht
      cases ht
      rfl
  · have hproper := Run.proper hbefore hfresh.proper
    obtain ⟨n, hnumbers, hcursor⟩ := StillRun.numbers_after_addLine hproper hc hline hstill
    obtain ⟨l, hl, rfl, hgreatest⟩ := hascending.exists_greatest hnumbers
    have hwidth := hascending.gutterWidth_le (Report.mem_numbers.mpr ⟨l, hl, rfl⟩) hcursor
    obtain ⟨hblock, hnumbered⟩ := List.mem_filter.mp hl
    exact ⟨l, hblock, hnumbered, fun l' hl' hnumbered' =>
      hgreatest l' (List.mem_filter.mpr ⟨hl', hnumbered'⟩), hwidth⟩

-- From the second line to the third the numbers get one digit more, and the last one is appended
-- by itself. The first operand is a line that was there before.
theorem gutter_of_run_to_a_hundred :
    let l : Line :=
      { text := ['a', 'b', 'c']
        underlines := [{ start := 1, stop := 3, fill := ['~'], tip := some ['^'], hint := ['?'] }] }
    let w₀ := (({ lines := [l] } : Workspace).newReport { indentAll := true }).1
    ∃ w₁ b w₂ w₃ id₃ w₄ id₄, w₀.outcome (.jump 0 98 true) = .ok (w₁, b) ∧
      ((Edit.addLines 0 [.line 0, .text ['b']]).run.run w₁).2 = w₂ ∧
      w₂.outcome (.addLine 0 (.text ['c'])) = .ok (w₃, id₃) ∧
      w₃.outcome (.addNote 0 (.text ['n'])) = .ok (w₄, id₄) ∧
      Fresh w₀ 0 ∧ Run 0 w₀ w₄ ∧ (w₄.report 0).warnings = [] ∧
      (w₄.view 0).rows = [
        ['9', '8', ' ', ' ', '|', ' ', 'a', 'b', 'c'],
        [' ', ' ', ' ', ' ', ' ', ' ', ' ', '^', '~'],
        [' ', ' ', ' ', ' ', ' ', ' ', ' ', '?'],
        ['9', '9', ' ', ' ', '|', ' ', 'b'],
        ['1', '0', '0', ' ', '|', ' ', 'c'],
        [' ', ' ', ' ', ' ', '|', ' ', 'n']] ∧
      (∀ l ∈ (w₄.view 0).blocks, l.numbered = true → (w₄.view 0).Aligned l) ∧
      ∃ l ∈ (w₄.view 0).blocks, l.numbered = true ∧
        (∀ l' ∈ (w₄.view 0).blocks, l'.numbered = true → l'.number ≤ l.number) ∧
        (w₄.view 0).gutterWidth ≤ Text.digitCount l.number + 2 := by
  intro l w₀
  have hfresh : Fresh w₀ 0 := ⟨{ lines := [l] }, false, true, rfl⟩
  have htext (w : Workspace) (t : Text) : w.Holds (.text t) := fun id hid => by cases hid
  have happly : ∀ {w₁ b w₃ id₃ w₄ id₄}, w₀.outcome (.jump 0 98 true) = .ok (w₁, b) →
      ((Edit.addLines 0 [.line 0, .text ['b']]).run.run w₁).2.outcome
        (.addLine 0 (.text ['c'])) = .ok (w₃, id₃) →
      w₃.outcome (.addNote 0 (.text ['n'])) = .ok (w₄, id₄) →
      0 < w₁.lines.length →
      (w₄.report 0).numbering.cursor = (w₃.report 0).numbering.cursor →
      (w₄.report 0).warnings = [] →
      Run 0 w₀ w₄ ∧ (∀ l ∈ (w₄.view 0).blocks, l.numbered = true → (w₄.view 0).Aligned l) ∧
      ∃ l ∈ (w₄.view 0).blocks, l.numbered = true ∧
        (∀ l' ∈ (w₄.view 0).blocks, l'.numbered = true → l'.number ≤ l.number) ∧
        (w₄.view 0).gutterWidth ≤ Text.digitCount l.number + 2 := by
    intro w₁ b w₃ id₃ w₄ id₄ hjump hline hnote hlines hcursor hquiet
    have hholds : ∀ c ∈ [Content.line 0, .text ['b']], w₁.Holds c := by
      intro c hc
      rcases List.mem_cons.mp hc with rfl | hc
      · exact fun id hid => by cases hid; exact hlines
      · exact List.mem_singleton.mp hc ▸ htext w₁ ['b']
    have hbefore : Run 0 w₀ _ := .head (.jump hjump)
      (run_addLines (hfresh.proper.jump hjump) hholds)
    have hstep : Step 0 w₃ w₄ := .note (htext w₃ ['n']) hnote
    have hrun : Run 0 w₀ w₄ := (hbefore.tail (.line (htext _ ['c']) hline)).tail hstep
    obtain ⟨-, haligned, -, hwidth⟩ := gutter_of_run hfresh hrun hquiet
    exact ⟨hrun, haligned,
      hwidth _ _ _ _ hbefore (htext _ ['c']) hline (.single ⟨hstep, hcursor⟩)⟩
  refine ⟨_, _, _, _, _, _, _, rfl, rfl, rfl, rfl, hfresh, ?_⟩
  obtain ⟨hrun, haligned, hwidth⟩ := happly rfl rfl rfl (by decide) rfl rfl
  exact ⟨hrun, rfl, by decide, haligned, hwidth⟩

end Workspace

end Marginalia
