import Marginalia.Proofs.Session.Refusal
import Marginalia.Proofs.Workspace.Finish

/-!
# Commands that build

A report is built by requests and finishes. Which request or finish a command stands for depends on
the names of the session alone, and so do the names that it gives.

Results:
* `Session.step_of_gives`, `Session.snd_step_of_asks`: what a command does that builds.
* `Session.builds_cases`: each of them stands for a finish or a request, or for nothing.
-/

namespace Marginalia

/-- A command that builds: it sets a flag of a report, moves its cursor, appends to it, or hangs a
decoration on a line. -/
inductive Command.Builds : Command → Prop
  | annotate (line : String) (a : Annotation) : Builds (.line (.annotate line a))
  | color (report : String) (flag : Bool) : Builds (.report (.setColor report flag))
  | indent (report : String) (flag : Bool) : Builds (.report (.setIndent report flag))
  | jump (report : String) (target : Int) (tellSkip : Bool) :
    Builds (.report (.jump report target tellSkip))
  | note (report : String) (content : Operand) (saveAs : Option String) :
    Builds (.report (.addNote report content saveAs))
  | line (report : String) (content : Operand) (saveAs : Option String) :
    Builds (.report (.addLine report content saveAs))
  | lines (report : String) (contents : List Operand) (saveAs : List String) :
    Builds (.report (.addLines report contents saveAs))

/-- The names that a command gives to what it appended. -/
def ReportCommand.saved : ReportCommand → List LineId → Names LineId
  | .addNote _ _ saveAs, ids | .addLine _ _ saveAs, ids => saveAs.toList.zip ids
  | .addLines _ _ saveAs, ids => (saveAs.zip ids).reverse
  | _, _ => []

/-- The report that a command is about, if it is about one that there is. -/
def ReportCommand.report? : ReportCommand → Option String
  | .new .. => none
  | .setColor report _ | .setIndent report _ | .jump report _ _ | .addNote report _ _ |
    .addLine report _ _ | .addLines report _ _ | .status report | .blocks report |
    .block report _ _ | .render report => some report

namespace Session

open Workspace

variable {s : Session}

/-- A command is a finish, as its names are understood in a session. -/
inductive Gives (s : Session) : Command → Finish → Prop
  | annotate {line : String} {id : LineId} {a : Annotation} (hid : s.lineId line = .ok id) :
    Gives s (.line (.annotate line a)) (.annotate id a)
  | color {report : String} {r : ReportId} {flag : Bool} (hr : s.reportId report = .ok r) :
    Gives s (.report (.setColor report flag)) (.color r flag)
  | indent {report : String} {r : ReportId} {flag : Bool} (hr : s.reportId report = .ok r) :
    Gives s (.report (.setIndent report flag)) (.indent r flag)

/-- **The commands that are finishes** do to a session what these do to its workspace. -/
theorem step_of_gives {c : Command} {f : Finish} (h : s.Gives c f) :
    (s.step c).1.map (fun _ => ()) = (s.space.finish f).1 ∧
      (s.step c).2 = { s with space := s.space.finished f } := by
  rw [← snd_finish]
  cases h with
  | @annotate line id a hid =>
    rw [step, perform, performLine, run_ask_bind, hid]
    simp only
    rw [Attempt.run_bind, run_edit, finish, Finish.edit]
    generalize (Edit.annotate id a).run.run s.space = outcome
    obtain ⟨e | x, w⟩ := outcome <;> exact ⟨rfl, rfl⟩
  | color hr | indent hr =>
    rw [step, perform, performReport, run_ask_bind, hr]
    exact ⟨rfl, rfl⟩

/-- What a request leaves a session with: its workspace, and the names of what was appended. -/
theorem snd_step_of_asks {c : ReportCommand} {r : ReportId} {q : Request} (h : s.Asks c r q) :
    (s.step (.report c)).2 =
      { s with
        space := (s.space.carryOut r q).2
        lines := c.saved ((s.space.carryOut r q).1.toOption.getD []) ++ s.lines } := by
  cases h with
  | @jump report r target tellSkip hr =>
    rw [step_jump hr, carryOut_jump]
    cases s.space.outcome (.jump r target tellSkip) <;> rfl
  | @note report r content c saveAs hr hc =>
    rw [step, perform, performReport, run_addOperand (Edit.traceless_addNote r c) hr hc,
      carryOut_note]
    cases s.space.outcome (.addNote r c) <;> cases saveAs <;> rfl
  | @line report r content c saveAs hr hc =>
    rw [step, perform, performReport, run_addOperand (Edit.traceless_addLine r c) hr hc,
      carryOut_line]
    cases s.space.outcome (.addLine r c) <;> cases saveAs <;> rfl
  | @lines report r contents cs saveAs hr hcs =>
    rw [step_addLines hr hcs]
    rcases s.space.carryOut r (.lines cs) with ⟨e | ids, w⟩
    · simp [ReportCommand.saved, Except.toOption]
    · rfl

/-! ## Names that are not in use -/

/-- A command about a report without a name for it is refused. -/
theorem step_of_no_report {c : ReportCommand} {report : String} {e : Fault}
    (hr : s.reportId report = .error e) (hc : c.report? = some report) :
    s.step (.report c) = (.error e, s) := by
  cases c with
  | new saveAs color indentAll => cases hc
  | setColor | setIndent | jump | addLines | block =>
    cases hc
    rw [step, perform, performReport, run_ask_bind, hr]
  | addNote | addLine =>
    cases hc
    rw [step, perform, performReport, addOperand, run_ask_bind, hr]
  | status | blocks | render =>
    cases hc
    rw [step, perform, performReport, run_ask, hr]
    rfl

/-- What operands stand for depends on the names alone. -/
theorem contentOf_space (s : Session) (w : Workspace) :
    ({ s with space := w } : Session).contentOf = s.contentOf :=
  funext fun o => by cases o <;> rfl

/-- **A command that builds** is a finish or a request; or one of its names is not in use, and then
it is refused whatever the workspace is. -/
theorem builds_cases {c : Command} (h : c.Builds) (s : Session) :
    (∃ f, s.Gives c f) ∨ (∃ d r q, c = .report d ∧ s.Asks d r q) ∨
      ∃ e, ∀ w, ({ s with space := w } : Session).step c = (.error e, { s with space := w }) := by
  have hnone : ∀ {d : ReportCommand} {report : String} {e : Fault}, s.reportId report = .error e →
      d.report? = some report → ∃ e, ∀ w, ({ s with space := w } : Session).step (.report d) =
        (.error e, { s with space := w }) :=
    fun hr hd => ⟨_, fun w => step_of_no_report (s := { s with space := w }) hr hd⟩
  cases h with
  | annotate line a =>
    cases hid : s.lineId line with
    | ok id => exact Or.inl ⟨_, .annotate hid⟩
    | error e =>
      refine Or.inr (Or.inr ⟨e, fun w => ?_⟩)
      have hw : ({ s with space := w } : Session).lineId line = .error e := hid
      rw [step, perform, performLine, run_ask_bind, hw]
  | color report flag =>
    cases hr : s.reportId report with
    | ok r => exact Or.inl ⟨_, .color hr⟩
    | error e => exact Or.inr (Or.inr (hnone hr rfl))
  | indent report flag =>
    cases hr : s.reportId report with
    | ok r => exact Or.inl ⟨_, .indent hr⟩
    | error e => exact Or.inr (Or.inr (hnone hr rfl))
  | jump report target tellSkip =>
    cases hr : s.reportId report with
    | ok r => exact Or.inr (Or.inl ⟨_, _, _, rfl, .jump hr⟩)
    | error e => exact Or.inr (Or.inr (hnone hr rfl))
  | note report content saveAs | line report content saveAs =>
    cases hr : s.reportId report with
    | error e => exact Or.inr (Or.inr (hnone hr rfl))
    | ok r =>
      cases hc : s.contentOf content with
      | ok c => exact Or.inr (Or.inl ⟨_, _, _, rfl, by constructor <;> assumption⟩)
      | error e =>
        refine Or.inr (Or.inr ⟨e, fun w => ?_⟩)
        have hrw : ({ s with space := w } : Session).reportId report = .ok r := hr
        rw [step, perform, performReport, addOperand, run_ask_bind, hrw]
        simp only
        rw [run_ask_bind, contentOf_space, hc]
  | lines report contents saveAs =>
    cases hr : s.reportId report with
    | error e => exact Or.inr (Or.inr (hnone hr rfl))
    | ok r =>
      cases hcs : contents.mapM s.contentOf with
      | ok cs => exact Or.inr (Or.inl ⟨_, _, _, rfl, .lines hr hcs⟩)
      | error e =>
        refine Or.inr (Or.inr ⟨e, fun w => ?_⟩)
        have hrw : ({ s with space := w } : Session).reportId report = .ok r := hr
        rw [step, perform, performReport, run_ask_bind, hrw]
        simp only
        rw [run_ask_bind, contentOf_space, hcs]

/-! ## A change of the workspace -/

theorem Gives.space {c : Command} {f : Finish} (h : s.Gives c f) (w : Workspace) :
    ({ s with space := w } : Session).Gives c f := by
  cases h with
  | annotate hid => exact .annotate hid
  | color hr => exact .color hr
  | indent hr => exact .indent hr

theorem Asks.space {c : ReportCommand} {r : ReportId} {q : Request} (h : s.Asks c r q)
    (w : Workspace) : ({ s with space := w } : Session).Asks c r q := by
  cases h with
  | jump hr => exact .jump hr
  | note hr hc => exact .note hr (contentOf_space s w ▸ hc)
  | line hr hc => exact .line hr (contentOf_space s w ▸ hc)
  | lines hr hcs => exact .lines hr (contentOf_space s w ▸ hcs)

end Session

end Marginalia
