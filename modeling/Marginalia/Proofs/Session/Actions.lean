import Marginalia.Proofs.Workspace.Outcomes
import Marginalia.Session.Step

/-!
# What actions come to

An action in a session looks names up, edits the workspace and gives names, one after the other.
Each of these steps comes to one thing, and so do the actions that are made of them.

Results:
* `Session.run_ask`, `Session.run_edit`, `Session.run_nameLines`: the steps.
* `Session.run_makeLine`, `Session.run_addOperand`: a line is made, an operand is appended.
-/

namespace Marginalia.Session

open Workspace

variable {α β : Type} {s : Session}

/-! ## Steps -/

theorem run_ask (f : Session → Except Fault α) (s : Session) : (ask f).run.run s = (f s, s) :=
  Attempt.run_lift (f s) s

/-- What follows upon a look at a session. -/
theorem run_ask_bind (question : Session → Except Fault α) (f : α → Action β) (s : Session) :
    (ask question >>= f).run.run s = match question s with
      | .ok x => (f x).run.run s
      | .error e => (.error e, s) := by
  rw [Attempt.run_bind, run_ask]
  cases question s <;> rfl

/-- Where a look at a session leads, and what follows upon it unless it is refused. -/
theorem leads_ask_bind {R : Session → Prop} {question : Session → Except Fault α}
    {f : α → Action β} (hs : R s) (hf : ∀ x, question s = .ok x → R ((f x).run.run s).2) :
    R ((ask question >>= f).run.run s).2 := by
  rw [run_ask_bind]
  cases hx : question s with
  | error e => exact hs
  | ok x => exact hf x hx

/-- **To edit the workspace of a session** changes nothing else about it. -/
theorem run_edit (e : Edit α) (s : Session) : (edit e).run.run s =
    ((e.run.run s.space).1, { s with space := (e.run.run s.space).2 }) := by
  show (set { s with space := (e.run.run s.space).2 } >>= fun _ =>
    (liftM (e.run.run s.space).1 : Action α)).run.run s = _
  rw [Attempt.run_bind]
  exact Attempt.run_lift _ _

/-- What follows upon an edit that leaves no trace when it is refused. -/
theorem run_edit_bind {e : Edit α} (h : Attempt.Traceless e) (f : α → Action β) (s : Session) :
    (edit e >>= f).run.run s = match s.space.outcome e with
      | .ok (w, x) => (f x).run.run { s with space := w }
      | .error e => (.error e, s) := by
  rw [Attempt.run_bind, run_edit, run_of_traceless h]
  rcases s.space.outcome e with e | ⟨w, x⟩ <;> rfl

/-- Of several names that are given one after the other, the last comes first. -/
theorem run_nameLines : ∀ (pairs : List (String × LineId)) (s : Session),
    (pairs.forM fun (name, id) => nameLine (some name) id).run.run s =
      (.ok (), { s with lines := pairs.reverse ++ s.lines })
  | [], _ => rfl
  | (name, id) :: rest, s => by
    have hrest := run_nameLines rest { s with lines := (name, id) :: s.lines }
    rw [List.forM, Attempt.run_bind]
    refine hrest.trans ?_
    simp

/-! ## Actions made of them -/

/-- A session with one line more, and a name for it if there is one to be given. -/
def withLine (s : Session) (saveAs : Option String) (l : Line) : Session :=
  { s with
    space := (s.space.newLine l).1
    lines := s.lines.bind saveAs s.space.lines.length }

theorem run_makeLine (saveAs : Option String) (l : Line) (s : Session) :
    (makeLine saveAs l).run.run s = (.ok { answer := .line l }, s.withLine saveAs l) := rfl

/-- **An operand is appended** and what it was appended as is named, or nothing is done. -/
theorem run_addOperand {add : ReportId → Content → Edit LineId} {report : String} {r : ReportId}
    {content : Operand} {c : Content} (hadd : Attempt.Traceless (add r c))
    (hr : s.reportId report = .ok r) (hc : s.contentOf content = .ok c) (saveAs : Option String) :
    (addOperand add report content saveAs).run.run s = match s.space.outcome (add r c) with
      | .ok (w, id) =>
        (.ok { answer := .appended (w.line id) (w.report r).status (c = .line id) },
          { s with space := w, lines := s.lines.bind saveAs id })
      | .error e => (.error e, s) := by
  rw [addOperand, run_ask_bind, hr]
  simp only
  rw [run_ask_bind, hc]
  simp only
  rw [run_edit_bind hadd]
  rcases s.space.outcome (add r c) with e | ⟨w, id⟩ <;> rfl

end Marginalia.Session
