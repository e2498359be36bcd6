import Marginalia.Proofs.Numbers
import Marginalia.Proofs.Workspace.Blocks

/-!
# Runs

A run is what happens to a workspace from the point of view of one of its reports: jumps, notes and
numbered lines of that report, in any order, and in between anything else that leaves its blocks and
their numbers alone, such as decorating lines, building other reports, or a request that is refused.

Results:
* `Workspace.Run.view`: the report that is viewed makes moves.
* `Workspace.Run.ascending`: the numbers go up along a run without warnings.
* `Workspace.StillRun.numbers_after_addLine`: the numbers as long as nothing moves the cursor on.
* `Workspace.run_addLines`: appending many lines is a run, also when one of them is refused.
-/

namespace Marginalia

namespace Workspace

/-- What may happen besides what is done to a report: settings, contents of lines, other lines and
other reports may change, but the numbering of this report, its blocks and their numbers do not. -/
structure Spares (r : ReportId) (w w' : Workspace) : Prop where
  reports : w.reports.length ≤ w'.reports.length
  lines : w.lines.length ≤ w'.lines.length
  numbering : (w'.report r).numbering = (w.report r).numbering
  warnings : (w'.report r).warnings = (w.report r).warnings
  blocks : (w'.report r).blocks = (w.report r).blocks
  stamps : ∀ id ∈ (w.report r).blocks, (w'.line id).number? = (w.line id).number?

/-- One thing that is done to a report, or happens elsewhere. -/
inductive Step (r : ReportId) : Workspace → Workspace → Prop
  | jump {w w' : Workspace} {target : Int} {tellSkip : Bool} {b : Option Backwards}
    (h : w.outcome (.jump r target tellSkip) = .ok (w', b)) : Step r w w'
  | note {w w' : Workspace} {c : Content} {id : LineId} (hc : w.Holds c)
    (h : w.outcome (.addNote r c) = .ok (w', id)) : Step r w w'
  | line {w w' : Workspace} {c : Content} {id : LineId} (hc : w.Holds c)
    (h : w.outcome (.addLine r c) = .ok (w', id)) : Step r w w'
  | elsewhere {w w' : Workspace} (h : Spares r w w') : Step r w w'

/-- One thing after the other. -/
abbrev Run (r : ReportId) : Workspace → Workspace → Prop := Relation.ReflTransGen (Step r)

/-- One thing after the other, none of which moves the cursor of the report. -/
abbrev StillRun (r : ReportId) : Workspace → Workspace → Prop :=
  Relation.ReflTransGen fun w w' =>
    Step r w w' ∧ (w'.report r).numbering.cursor = (w.report r).numbering.cursor

/-- A workspace with a report that was just made. -/
def Fresh (w : Workspace) (r : ReportId) : Prop :=
  ∃ (w₀ : Workspace) (color indentAll : Bool),
    w₀.newReport { color := color, indentAll := indentAll } = (w, r)

variable {w w' : Workspace} {r : ReportId}

/-! ## A new report -/

theorem Fresh.report_eq (h : Fresh w r) :
    ∃ color indentAll, w.report r = { color := color, indentAll := indentAll } := by
  obtain ⟨w₀, color, indentAll, h⟩ := h
  cases h
  exact ⟨color, indentAll, by simp [report]⟩

theorem Fresh.proper (h : Fresh w r) : w.Proper r := by
  obtain ⟨color, indentAll, hreport⟩ := h.report_eq
  refine ⟨?_, by simp [hreport], by simp [hreport]⟩
  obtain ⟨w₀, color, indentAll, h⟩ := h
  cases h
  simp

theorem Fresh.ascending (h : Fresh w r) : (w.view r).Ascending := by
  obtain ⟨color, indentAll, hreport⟩ := h.report_eq
  rw [view, hreport]
  exact Report.ascending_empty color indentAll

/-! ## What a step does -/

theorem Spares.proper (h : Spares r w w') (hw : w.Proper r) : w'.Proper r where
  report := Nat.lt_of_lt_of_le hw.report h.reports
  lines := by
    rw [h.blocks]
    exact fun id hid => Nat.lt_of_lt_of_le (hw.lines id hid) h.lines
  nodup := h.blocks ▸ hw.nodup

theorem Spares.keeps (h : Spares r w w') : Report.Keeps (w.view r) (w'.view r) where
  numbering := h.numbering
  warnings := h.warnings
  stamps := by
    show ((w'.report r).blocks.map w'.line).map Line.number? =
      ((w.report r).blocks.map w.line).map Line.number?
    rw [h.blocks, List.map_map, List.map_map]
    exact List.map_congr_left h.stamps

theorem Step.proper (h : Step r w w') (hw : w.Proper r) : w'.Proper r := by
  cases h with
  | jump h => exact hw.jump h
  | note hc h => exact hw.addNote hc h
  | line hc h => exact hw.addLine hc h
  | elsewhere h => exact h.proper hw

/-- **A step is a move of the report that is viewed.** -/
theorem Step.view (h : Step r w w') (hw : w.Proper r) : Report.Move (w.view r) (w'.view r) := by
  cases h with
  | jump h => exact .jump (view_jump hw h)
  | note hc h =>
    obtain ⟨l, hview⟩ := view_addNote hw hc h
    exact hview ▸ .note _ l
  | line hc h =>
    obtain ⟨l, hview⟩ := view_addLine hw hc h
    exact hview ▸ .line _ l
  | elsewhere h => exact .keep h.keeps

/-! ## What a run does -/

theorem Run.proper (h : Run r w w') (hw : w.Proper r) : w'.Proper r := by
  induction h with
  | refl => exact hw
  | tail _ hstep ih => exact hstep.proper ih

/-- **Along a run the report that is viewed makes moves.** -/
theorem Run.view (h : Run r w w') (hw : w.Proper r) :
    Relation.ReflTransGen Report.Move (w.view r) (w'.view r) := by
  induction h with
  | refl => exact .refl
  | tail hrun hstep ih => exact ih.tail (hstep.view (Run.proper hrun hw))

/-- **The numbers go up along a run without warnings.** -/
theorem Run.ascending (hfresh : Fresh w r) (h : Run r w w')
    (hquiet : (w'.report r).warnings = []) : (w'.view r).Ascending :=
  hfresh.ascending.of_moves (Run.view h hfresh.proper) hquiet

/-- While the cursor stays where it is, no number is added. -/
theorem StillRun.numbers_eq (h : StillRun r w w') (hw : w.Proper r) :
    w'.Proper r ∧ (w'.view r).numbers = (w.view r).numbers ∧
      (w'.view r).numbering.cursor = (w.view r).numbering.cursor := by
  induction h with
  | refl => exact ⟨hw, rfl, rfl⟩
  | tail _ hstep ih =>
    obtain ⟨hproper, hnumbers, hcursor⟩ := ih
    refine ⟨hstep.1.proper hproper, ?_, hstep.2.trans hcursor⟩
    rw [(hstep.1.view hproper).numbers_eq hstep.2, hnumbers]

/-- **Where a numbered line was the last to move the cursor**, its number is the last one and the
cursor is right behind it. -/
theorem StillRun.numbers_after_addLine {w₀ : Workspace} {c : Content} {id : LineId}
    (hw : w₀.Proper r) (hc : w₀.Holds c) (hline : w₀.outcome (.addLine r c) = .ok (w, id))
    (h : StillRun r w w') : ∃ n, (w'.view r).numbers = (w₀.view r).numbers ++ [n] ∧
      (w'.view r).numbering.cursor = n + 1 := by
  obtain ⟨l, hview⟩ := view_addLine hw hc hline
  obtain ⟨-, hnumbers, hcursor⟩ := StillRun.numbers_eq h (hw.addLine hc hline)
  refine ⟨(w₀.view r).numbering.cursor, ?_, ?_⟩
  · rw [hnumbers, hview, Report.numbers_addLine]
  · rw [hcursor, hview]
    rfl

/-! ## Many lines -/

/-- What comes of appending many lines: the first of them is appended and then the others, unless it
is refused. -/
theorem addLines_cons (w : Workspace) (r : ReportId) (c : Content) (rest : List Content) :
    (Edit.addLines r (c :: rest)).run.run w = match w.outcome (.addLine r c) with
      | .ok (w₁, id) => (((Edit.addLines r rest).run.run w₁).1.map (id :: ·),
          ((Edit.addLines r rest).run.run w₁).2)
      | .error e => (.error e, w) := by
  rw [Edit.addLines, Attempt.run_bind, run_of_traceless (Edit.traceless_addLine r c)]
  rcases w.outcome (.addLine r c) with e | ⟨w₁, id⟩
  · rfl
  · simp only
    rw [Attempt.run_bind]
    generalize (Edit.addLines r rest).run.run w₁ = outcome
    rcases outcome with ⟨e | ids, w'⟩ <;> rfl

/-- **Appending many lines is a run**, also when one of them is refused. -/
theorem run_addLines {cs : List Content} : ∀ {w : Workspace}, w.Proper r →
    (∀ c ∈ cs, w.Holds c) → Run r w ((Edit.addLines r cs).run.run w).2 := by
  induction cs with
  | nil => exact fun _ _ => .refl
  | cons c rest ih =>
    intro w hw hholds
    rw [addLines_cons]
    cases hmade : w.outcome (.addLine r c) with
    | error e => exact .refl
    | ok made =>
      have hc := hholds c List.mem_cons_self
      have hlength := length_le_of_addLine hw hc hmade
      have hrest : ∀ c ∈ rest, made.1.Holds c := fun c hmem id hid =>
        Nat.lt_of_lt_of_le (hholds c (List.mem_cons_of_mem _ hmem) id hid) hlength
      exact .head (.line hc hmade) (ih (hw.addLine hc hmade) hrest)

end Workspace

end Marginalia
