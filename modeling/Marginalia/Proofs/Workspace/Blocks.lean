import Marginalia.Proofs.Traversal
import Marginalia.Proofs.Workspace.Outcomes
import Mathlib.Data.List.Nodup

/-!
# The blocks of a report in a workspace

The blocks of a report are references to lines that change in place. Yet what is done to a report of
references is what is done to a report of lines: as long as its blocks are distinct, stamping the
newest one changes no other. So the report that can be viewed in a workspace goes through the same
operations as the one that holds references.

Results:
* `Workspace.Proper.addNote`, `Workspace.Proper.addLine`, `Workspace.Proper.jump`: the blocks of a
  report stay distinct.
* `Workspace.view_addNote`, `Workspace.view_addLine`, `Workspace.view_jump`: what an operation does
  to the report that is viewed.
-/

namespace Marginalia.Workspace

variable {w w' : Workspace} {r : ReportId} {id : LineId} {c : Content}

/-! ## Lines and reports by reference -/

theorem line_of_getElem? {l : Line} (h : w.lines[id]? = some l) : w.line id = l := by
  rw [line, List.getD_eq_getElem?_getD, h]
  rfl

theorem line_modifyLine_self (h : id < w.lines.length) (f : Line → Line) :
    (w.modifyLine id f).line id = f (w.line id) := by
  rw [line, line, modifyLine, List.getD_eq_getElem?_getD, List.getD_eq_getElem?_getD,
    List.getElem?_modify_eq, List.getElem?_eq_getElem h]
  rfl

theorem line_modifyLine_ne {i : LineId} (h : i ≠ id) (f : Line → Line) :
    (w.modifyLine id f).line i = w.line i := by
  rw [line, line, modifyLine, List.getD_eq_getElem?_getD, List.getD_eq_getElem?_getD,
    List.getElem?_modify_ne f w.lines (Ne.symm h)]

theorem length_lines_modifyLine (f : Line → Line) :
    (w.modifyLine id f).lines.length = w.lines.length := List.length_modify f w.lines id

theorem report_modifyReport (h : r < w.reports.length) (f : Report LineId → Report LineId) :
    (w.modifyReport r f).report r = f (w.report r) := by
  rw [report, report, modifyReport, List.getD_eq_getElem?_getD, List.getD_eq_getElem?_getD,
    List.getElem?_modify_eq, List.getElem?_eq_getElem h]
  rfl

theorem report_modifyReport_ne {i : ReportId} (h : i ≠ r) (f : Report LineId → Report LineId) :
    (w.modifyReport r f).report i = w.report i := by
  rw [report, report, modifyReport, List.getD_eq_getElem?_getD, List.getD_eq_getElem?_getD,
    List.getElem?_modify_ne f w.reports (Ne.symm h)]

theorem length_reports_modifyReport (f : Report LineId → Report LineId) :
    (w.modifyReport r f).reports.length = w.reports.length := List.length_modify f w.reports r

theorem line_newLine {i : LineId} (h : i < w.lines.length) (l : Line) :
    (w.newLine l).1.line i = w.line i := by
  rw [line, line, newLine, List.getD_eq_getElem?_getD, List.getD_eq_getElem?_getD,
    List.getElem?_append_left h]

/-! ## Distinct blocks -/

/-- A report that is there, with distinct lines that are there for its blocks. -/
structure Proper (w : Workspace) (r : ReportId) : Prop where
  report : r < w.reports.length
  lines : ∀ id ∈ (w.report r).blocks, id < w.lines.length
  nodup : (w.report r).blocks.Nodup

/-- A content that is there: any but a reference to a line that has not been made. -/
def Holds (w : Workspace) (c : Content) : Prop := ∀ id, c = .line id → id < w.lines.length

instance (w : Workspace) : (c : Content) → Decidable (w.Holds c)
  | .line id => decidable_of_iff (id < w.lines.length)
    ⟨fun h i hi => by cases hi; exact h, fun h => h id rfl⟩
  | .text _ => isTrue nofun
  | .other _ => isTrue nofun

/-- More lines, none of those that were there changed, and the same reports. -/
structure Extends (w w' : Workspace) : Prop where
  reports : w'.reports = w.reports
  length : w.lines.length ≤ w'.lines.length
  lines : ∀ i < w.lines.length, w'.line i = w.line i

theorem Extends.refl (w : Workspace) : Extends w w := ⟨rfl, Nat.le_refl _, fun _ _ => rfl⟩

theorem Extends.trans {w'' : Workspace} (h : Extends w w') (h' : Extends w' w'') :
    Extends w w'' where
  reports := h'.reports.trans h.reports
  length := Nat.le_trans h.length h'.length
  lines i hi := (h'.lines i (Nat.lt_of_lt_of_le hi h.length)).trans (h.lines i hi)

theorem extends_newLine (w : Workspace) (l : Line) : Extends w (w.newLine l).1 where
  reports := rfl
  length := by simp [newLine]
  lines := fun _ hi => line_newLine hi l

theorem extends_append (w : Workspace) (ls : List Line) :
    Extends w { w with lines := w.lines ++ ls } where
  reports := rfl
  length := by simp
  lines i hi := by
    rw [line, line, List.getD_eq_getElem?_getD, List.getD_eq_getElem?_getD,
      List.getElem?_append_left hi]

theorem Extends.report_eq (h : Extends w w') (r : ReportId) : w'.report r = w.report r := by
  rw [report, h.reports]
  rfl

theorem Extends.view_eq (h : Extends w w') (hw : w.Proper r) : w'.view r = w.view r := by
  rw [view, view, h.report_eq]
  simp only [Report.map]
  rw [List.map_congr_left fun i hi => h.lines i (hw.lines i hi)]

theorem Extends.proper (h : Extends w w') (hw : w.Proper r) : w'.Proper r where
  report := h.reports ▸ hw.report
  lines := by
    rw [h.report_eq]
    exact fun i hi => Nat.lt_of_lt_of_le (hw.lines i hi) h.length
  nodup := h.report_eq r ▸ hw.nodup

/-- **The line for a block** is there and is not a block yet. -/
theorem blockFor_spec (hw : w.Proper r) (hc : w.Holds c)
    (h : w.outcome (.blockFor r c) = .ok (w', id)) :
    Extends w w' ∧ id < w'.lines.length ∧ id ∉ (w.report r).blocks := by
  have hnew (l : Line) : Extends w (w.newLine l).1 ∧
      (w.newLine l).2 < (w.newLine l).1.lines.length ∧ (w.newLine l).2 ∉ (w.report r).blocks :=
    ⟨extends_newLine w l, by simp [newLine], fun hmem => Nat.lt_irrefl _ (hw.lines _ hmem)⟩
  cases c with
  | text t =>
    cases h
    exact hnew _
  | line i =>
    rw [outcome_blockFor, Except.ok.injEq] at h
    split at h
    · cases h
      exact hnew _
    · cases h
      exact ⟨Extends.refl w, hc _ rfl, ‹_›⟩
  | other kind => cases h

/-- The reports stay as they are until the line for a block is there. -/
theorem reports_of_blockFor (h : w.outcome (.blockFor r c) = .ok (w', id)) :
    w'.reports = w.reports := by
  rw [outcome_blockFor] at h
  cases c with
  | text t =>
    cases h
    rfl
  | line i =>
    rw [Except.ok.injEq] at h
    split at h <;> cases h <;> rfl
  | other kind => cases h

/-! ## Appending -/

theorem addNote_eq_ok (h : w.outcome (.addNote r c) = .ok (w', id)) :
    ∃ w₁, w.outcome (.blockFor r c) = .ok (w₁, id) ∧
      w' = w₁.append r id Line.unnumbered (·.push id) := by
  rw [outcome_addNote] at h
  obtain ⟨made, hmade, h⟩ := exists_of_map_eq_ok h
  cases h
  exact ⟨made.1, hmade, rfl⟩

theorem addLine_eq_ok (h : w.outcome (.addLine r c) = .ok (w', id)) :
    ∃ w₁, w.outcome (.blockFor r c) = .ok (w₁, id) ∧
      w' = w₁.append r id (·.stamped (w.report r).numbering.cursor) (·.pushNumbered id) := by
  rw [outcome_addLine] at h
  obtain ⟨made, hmade, h⟩ := exists_of_map_eq_ok h
  cases h
  refine ⟨made.1, hmade, ?_⟩
  rw [report, report, reports_of_blockFor hmade]

section Append

variable {f : Line → Line} {take : Report LineId → Report LineId}

theorem length_append : (w.append r id f take).lines.length = w.lines.length :=
  length_lines_modifyLine f

theorem proper_append (hw : w.Proper r) (hid : id < w.lines.length)
    (hfresh : id ∉ (w.report r).blocks)
    (htake : (take (w.report r)).blocks = (w.report r).blocks ++ [id]) :
    (w.append r id f take).Proper r := by
  have hreport : (w.append r id f take).report r = take (w.report r) :=
    report_modifyReport (w := w.modifyLine id f) hw.report take
  refine ⟨?_, ?_, ?_⟩
  · exact (length_reports_modifyReport (w := w.modifyLine id f) take).symm ▸ hw.report
  · rw [hreport, htake, length_append]
    intro i hi
    rcases List.mem_append.mp hi with hi | hi
    · exact hw.lines i hi
    · exact List.mem_singleton.mp hi ▸ hid
  · rw [hreport, htake, List.nodup_append]
    refine ⟨hw.nodup, List.nodup_singleton id, fun i hi j hj hij => hfresh ?_⟩
    exact List.mem_singleton.mp hj ▸ hij ▸ hi

/-- **Changing a line that is not a block yet changes no block.** -/
theorem view_append (hw : w.Proper r) (hid : id < w.lines.length)
    (hfresh : id ∉ (w.report r).blocks)
    (htake : (take (w.report r)).blocks = (w.report r).blocks ++ [id]) :
    (w.append r id f take).view r =
      { (take (w.report r)).map w.line with
        blocks := (w.view r).blocks ++ [f (w.line id)] } := by
  have hreport : (w.append r id f take).report r = take (w.report r) :=
    report_modifyReport (w := w.modifyLine id f) hw.report take
  have hblocks : (w.report r).blocks.map (w.modifyLine id f).line = (w.view r).blocks :=
    List.map_congr_left fun i hi => line_modifyLine_ne (ne_of_mem_of_not_mem hi hfresh) f
  rw [view, hreport]
  simp only [Report.map, htake, List.map_append, List.map_cons, List.map_nil]
  congr 1
  show (w.report r).blocks.map (w.modifyLine id f).line ++ [(w.modifyLine id f).line id] = _
  rw [hblocks, line_modifyLine_self hid]

end Append

theorem length_le_of_addLine (hw : w.Proper r) (hc : w.Holds c)
    (h : w.outcome (.addLine r c) = .ok (w', id)) : w.lines.length ≤ w'.lines.length := by
  obtain ⟨w₁, hmade, rfl⟩ := addLine_eq_ok h
  rw [length_append]
  exact (blockFor_spec hw hc hmade).1.length

theorem Proper.addNote (hw : w.Proper r) (hc : w.Holds c)
    (h : w.outcome (.addNote r c) = .ok (w', id)) : w'.Proper r := by
  obtain ⟨w₁, hmade, rfl⟩ := addNote_eq_ok h
  obtain ⟨hext, hid, hfresh⟩ := blockFor_spec hw hc hmade
  exact proper_append (hext.proper hw) hid (hext.report_eq r ▸ hfresh) rfl

theorem Proper.addLine (hw : w.Proper r) (hc : w.Holds c)
    (h : w.outcome (.addLine r c) = .ok (w', id)) : w'.Proper r := by
  obtain ⟨w₁, hmade, rfl⟩ := addLine_eq_ok h
  obtain ⟨hext, hid, hfresh⟩ := blockFor_spec hw hc hmade
  exact proper_append (hext.proper hw) hid (hext.report_eq r ▸ hfresh) rfl

/-- **A note is a note** whether the report holds lines or references to them. -/
theorem view_addNote (hw : w.Proper r) (hc : w.Holds c)
    (h : w.outcome (.addNote r c) = .ok (w', id)) :
    ∃ l, w'.view r = (w.view r).addNote l := by
  obtain ⟨w₁, hmade, rfl⟩ := addNote_eq_ok h
  obtain ⟨hext, hid, hfresh⟩ := blockFor_spec hw hc hmade
  refine ⟨w₁.line id, ?_⟩
  rw [view_append (hext.proper hw) hid (hext.report_eq r ▸ hfresh) rfl, hext.view_eq hw,
    hext.report_eq r]
  rfl

/-- **A numbered line gets the number that the cursor is at**, whether the report holds lines or
references to them. -/
theorem view_addLine (hw : w.Proper r) (hc : w.Holds c)
    (h : w.outcome (.addLine r c) = .ok (w', id)) :
    ∃ l, w'.view r = (w.view r).addLine l := by
  obtain ⟨w₁, hmade, rfl⟩ := addLine_eq_ok h
  obtain ⟨hext, hid, hfresh⟩ := blockFor_spec hw hc hmade
  refine ⟨w₁.line id, ?_⟩
  rw [view_append (hext.proper hw) hid (hext.report_eq r ▸ hfresh) rfl, hext.view_eq hw,
    hext.report_eq r]
  rfl

/-! ## Jumping -/

variable {target : Int} {tellSkip : Bool} {b : Option Backwards}

theorem jump_eq_ok (h : w.outcome (.jump r target tellSkip) = .ok (w', b)) :
    ∃ j, (w.report r).numbering.jump target tellSkip = .ok j ∧
      w' = (w.note r j.skipped).modifyReport r (·.follow j) ∧ b = j.warning := by
  rw [outcome_jump] at h
  obtain ⟨j, hj, h⟩ := exists_of_map_eq_ok h
  cases h
  exact ⟨j, hj, rfl, rfl⟩

/-- A notice is a new line that nothing is changed about. -/
theorem note_some (w : Workspace) (r : ReportId) (count : Int) : w.note r (some count) =
    (w.newLine (Line.skipNotice count)).1.append r w.lines.length (fun l => l)
      (·.push w.lines.length) := by
  have hsame := List.modify_id w.lines.length (w.newLine (Line.skipNotice count)).1.lines
  rw [append, modifyLine, show (fun l : Line => l) = id from rfl, hsame]
  rfl

/-- A notice is one block more, or nothing. -/
theorem note_spec (hw : w.Proper r) (skipped : Option Int) :
    (w.note r skipped).Proper r ∧ (w.note r skipped).view r =
      { w.view r with blocks := (w.view r).blocks ++ (skipped.map Line.skipNotice).toList } := by
  cases skipped with
  | none => exact ⟨hw, by simp [note]⟩
  | some count =>
    have hext := extends_newLine w (Line.skipNotice count)
    have hid : w.lines.length < (w.newLine (Line.skipNotice count)).1.lines.length := by
      simp [newLine]
    have hline : (w.newLine (Line.skipNotice count)).1.line w.lines.length =
        Line.skipNotice count := by
      simp [newLine, line]
    have hfresh : w.lines.length ∉ (w.report r).blocks :=
      fun hmem => Nat.lt_irrefl _ (hw.lines _ hmem)
    rw [note_some]
    refine ⟨proper_append (hext.proper hw) hid hfresh rfl, ?_⟩
    rw [view_append (hext.proper hw) hid hfresh rfl, hext.view_eq hw, hline]
    rfl

theorem Proper.jump (hw : w.Proper r) (h : w.outcome (.jump r target tellSkip) = .ok (w', b)) :
    w'.Proper r := by
  obtain ⟨j, -, rfl, -⟩ := jump_eq_ok h
  have hnote := (note_spec hw j.skipped).1
  have hreport := report_modifyReport hnote.report (·.follow j)
  refine ⟨?_, ?_, ?_⟩
  · exact (length_reports_modifyReport (w := w.note r j.skipped) _).symm ▸ hnote.report
  · rw [hreport]
    exact hnote.lines
  · rw [hreport]
    exact hnote.nodup

/-- **A jump is a jump**, whether the report holds lines or references to them. -/
theorem view_jump (hw : w.Proper r) (h : w.outcome (.jump r target tellSkip) = .ok (w', b)) :
    (w.view r).jump target tellSkip = .ok (w'.view r) := by
  obtain ⟨j, hj, rfl, -⟩ := jump_eq_ok h
  obtain ⟨hnote, hview⟩ := note_spec hw j.skipped
  have hfollow : ((w.note r j.skipped).modifyReport r (·.follow j)).view r =
      ((w.note r j.skipped).view r).follow j := by
    rw [view, report_modifyReport hnote.report]
    rfl
  have hj' : (w.view r).numbering.jump target tellSkip = .ok j := hj
  rw [hfollow, hview, Report.jump, hj']
  rfl

end Marginalia.Workspace
