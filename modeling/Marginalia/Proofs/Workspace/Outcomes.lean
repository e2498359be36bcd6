import Marginalia.Proofs.Traces
import Marginalia.Workspace

/-!
# What edits come to

An edit of a workspace goes step by step, and where it is refused it breaks off. The edits that
append, jump or decorate have made all their checks by then and changed nothing, so each of them
comes either to another workspace or to a fault. That is its outcome.

Results:
* `Edit.traceless_addLine`, `Edit.traceless_jump` and the like: an edit that is refused leaves the
  workspace as it was.
* `Workspace.run_of_traceless`: such an edit is its outcome.
* `Workspace.outcome_blockFor`, `Workspace.outcome_addNote`, `Workspace.outcome_addLine`,
  `Workspace.outcome_jump`, `Workspace.outcome_annotate`: the outcomes.
-/

namespace Marginalia

/-! ## Edits without a trace -/

namespace Edit

open Attempt

theorem traceless_blockFor (r : ReportId) : ∀ c : Content, Traceless (blockFor r c)
  | .text _ => (sure_modifyGet _).traceless
  | .line id => by
    refine Traceless.after_still still_get fun w => ?_
    split
    · exact (sure_modifyGet _).traceless
    · exact (still_pure id).traceless
  | .other _ => (still_throw _).traceless

theorem traceless_addNote (r : ReportId) (c : Content) : Traceless (addNote r c) :=
  (traceless_blockFor r c).before_sure fun _ =>
    (sure_modify _).bind fun _ => (sure_modify _).bind fun _ => sure_pure _

theorem traceless_addLine (r : ReportId) (c : Content) : Traceless (addLine r c) :=
  (traceless_blockFor r c).before_sure fun _ =>
    sure_get.bind fun _ => (sure_modify _).bind fun _ => (sure_modify _).bind fun _ => sure_pure _

/-- **A jump is refused before its notice is made**, if at all. -/
theorem traceless_jump (r : ReportId) (target : Int) (tellSkip : Bool) :
    Traceless (jump r target tellSkip) := by
  have hfollow (j : Jump) : Sure (do modifyReport r (·.follow j); return j.warning) :=
    (sure_modify _).bind fun _ => sure_pure _
  rw [jump]
  split
  · exact (still_throw _).traceless
  · refine .after_still still_get fun w => .after_still (still_lift _) fun _ => ?_
    split
    · refine .after_still (still_lift _) fun _ => Sure.traceless ?_
      exact (sure_modifyGet _).bind fun _ => (sure_modify _).bind fun _ => hfollow _
    · exact (hfollow _).traceless

/-- **A decoration is refused before it is hung on**, if at all. -/
theorem traceless_annotate (id : LineId) : ∀ a : Annotation, Traceless (annotate id a)
  | .tint _ _ _ =>
    .after_still still_get fun _ => .after_still (still_lift _) fun _ => (sure_modify _).traceless
  | .underline _ _ _ => by
    refine .after_still still_get fun w => .after_still (still_lift _) fun s => ?_
    split
    · exact .after_still (still_throw _) fun _ => (sure_modify _).traceless
    · exact (sure_modify _).traceless

end Edit

/-! ## Outcomes -/

namespace Workspace

variable {α β : Type}

/-- What an edit makes of a workspace, unless it is refused. -/
def outcome (w : Workspace) (e : Edit α) : Except Fault (Workspace × α) :=
  match e.run.run w with
  | (.ok a, w') => .ok (w', a)
  | (.error f, _) => .error f

/-- **An edit that leaves no trace** is its outcome. -/
theorem run_of_traceless {e : Edit α} (h : Attempt.Traceless e) (w : Workspace) :
    e.run.run w = match w.outcome e with
      | .ok (w', a) => (.ok a, w')
      | .error f => (.error f, w) := by
  have hw := h w
  rw [outcome]
  generalize e.run.run w = made at hw
  obtain ⟨f | a, w'⟩ := made
  · obtain rfl : w' = w := hw f rfl
    rfl
  · rfl

theorem outcome_bind (w : Workspace) (e : Edit α) (f : α → Edit β) :
    w.outcome (e >>= f) = w.outcome e >>= fun made => made.1.outcome (f made.2) := by
  rw [outcome, outcome, Attempt.run_bind]
  generalize e.run.run w = made
  obtain ⟨e | x, w'⟩ := made <;> rfl

/-- What comes after a look at the workspace. -/
theorem outcome_get (w : Workspace) (f : Workspace → Edit β) :
    w.outcome (get >>= f) = w.outcome (f w) := rfl

theorem outcome_lift (w : Workspace) (made : Except Fault α) :
    w.outcome (liftM made) = made.map (w, ·) := by
  cases made <;> rfl

variable (w : Workspace) (r : ReportId)

/-- The line for a block: a new one for a text, and for a line itself or a copy. -/
theorem outcome_blockFor (c : Content) : w.outcome (.blockFor r c) = match c with
    | .text t => .ok (w.newLine { text := t })
    | .line id => .ok (if id ∈ (w.report r).blocks then w.newLine (w.line id) else (w, id))
    | .other kind => .error (.notContent kind) := by
  cases c with
  | text t => rfl
  | line id =>
    rw [Edit.blockFor, outcome_get]
    by_cases h : id ∈ (w.report r).blocks
    · rw [if_pos h]
      simp only [if_pos h]
      rfl
    · rw [if_neg h]
      simp only [if_neg h]
      rfl
  | other kind => rfl

/-- A block is appended: a line of which something is changed first, and the report takes it in. -/
def append (id : LineId) (f : Line → Line) (take : Report LineId → Report LineId) : Workspace :=
  (w.modifyLine id f).modifyReport r take

theorem outcome_addNote (c : Content) : w.outcome (.addNote r c) =
    (w.outcome (.blockFor r c)).map fun made =>
      (made.1.append r made.2 Line.unnumbered (·.push made.2), made.2) := by
  rw [Edit.addNote, outcome_bind]
  cases w.outcome (.blockFor r c) <;> rfl

/-- The number is that at the cursor, whether it is read before the line is there or after. -/
theorem outcome_addLine (c : Content) : w.outcome (.addLine r c) =
    (w.outcome (.blockFor r c)).map fun made =>
      (made.1.append r made.2 (·.stamped (made.1.report r).numbering.cursor)
        (·.pushNumbered made.2), made.2) := by
  rw [Edit.addLine, outcome_bind]
  cases w.outcome (.blockFor r c) <;> rfl

/-- A notice of skipped lines is appended, if there is one to be given. -/
def note : Option Int → Workspace
  | none => w
  | some count => (w.newLine (Line.skipNotice count)).1.modifyReport r (·.push w.lines.length)

theorem outcome_jump (target : Int) (tellSkip : Bool) : w.outcome (.jump r target tellSkip) =
    ((w.report r).numbering.jump target tellSkip).map fun j =>
      ((w.note r j.skipped).modifyReport r (·.follow j), j.warning) := by
  by_cases htarget : target < 0
  · rw [Edit.jump, if_pos htarget, Numbering.jump_of_neg htarget]
    rfl
  rw [Edit.jump, if_neg htarget, Numbering.jump_of_nonneg (Int.not_lt.mp htarget), Jump.excess?,
    outcome_get]
  generalize (w.report r).numbering.leap target tellSkip = j
  rw [outcome_bind, outcome_lift]
  cases j.warningExcess? with
  | some e => rfl
  | none =>
    obtain ⟨numbering, skipped, warning⟩ := j
    cases skipped with
    | none => rfl
    | some count =>
      show w.outcome (liftM (Fault.check (Text.decimalExcess? count)) >>= fun _ => _) = _
      rw [outcome_bind, outcome_lift]
      show _ = ((Fault.check (Text.decimalExcess? count)).map fun _ => _).map _
      cases Text.decimalExcess? count <;> rfl

/-- To change a line is to put another one in its place. -/
theorem modifyLine_eq_const (id : LineId) (f : Line → Line) :
    w.modifyLine id f = w.modifyLine id fun _ => f (w.line id) := by
  have hlines : w.lines.modify id f = w.lines.modify id fun _ => f (w.line id) := by
    refine List.ext_getElem? fun i => ?_
    rw [List.getElem?_modify, List.getElem?_modify]
    cases hi : w.lines[i]? with
    | none => rfl
    | some l =>
      split
      · subst i
        rw [line, List.getD_eq_getElem?_getD, hi]
        rfl
      · rfl
  rw [modifyLine, hlines]
  rfl

/-- **A decoration is hung on the line of a workspace** as on any line. -/
theorem outcome_annotate (id : LineId) (a : Annotation) : w.outcome (.annotate id a) =
    ((w.line id).annotate a).map fun l => (w.modifyLine id fun _ => l, ()) := by
  cases a with
  | tint place on off =>
    rw [Edit.annotate, outcome_get, outcome_bind, outcome_lift, Line.annotate]
    cases (w.line id).locate place with
    | error e => rfl
    | ok s => exact congrArg (fun w => Except.ok (w, ())) (modifyLine_eq_const w id _)
  | underline place pen hint =>
    rw [Edit.annotate, outcome_get, outcome_bind, outcome_lift, Line.annotate]
    cases (w.line id).locate place with
    | error e => rfl
    | ok s =>
      simp only [Except.map, bind, Except.bind]
      split
      · rfl
      · exact congrArg (fun w => Except.ok (w, ())) (modifyLine_eq_const w id _)

end Workspace

end Marginalia
