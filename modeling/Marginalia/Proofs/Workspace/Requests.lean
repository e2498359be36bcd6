import Marginalia.Proofs.Session.Actions
import Marginalia.Proofs.Workspace.Runs

/-!
# Requests

What a report of a workspace can be asked to do: to jump, and to take in one content or several. A
request that is refused changes nothing, but for one with several contents, which are taken in one
after the other up to the first that is none.

Results:
* `Workspace.carryOut_lines_cons`: several contents are taken in one after the other.
* `Session.step_of_asks`: the commands that are requests do to a session what these do to its
  workspace.
-/

namespace Marginalia

/-- What a report can be asked to do. -/
inductive Request where
  /-- Moves the cursor. -/
  | jump (target : Int) (tellSkip : Bool)
  /-- Appends a content without a number. -/
  | note (c : Content)
  /-- Appends a content with the next number. -/
  | line (c : Content)
  /-- Appends contents with the next numbers. -/
  | lines (cs : List Content)
  deriving DecidableEq, Repr

/-- A content that a report can take in: a text or a line. -/
def Content.isUsable : Content → Bool
  | .other _ => false
  | _ => true

namespace Request

/-- What is handed over with a request. -/
def contents : Request → List Content
  | jump .. => []
  | note c => [c]
  | line c => [c]
  | lines cs => cs

/-- The numbers that a request gives to what is handed over, if the cursor is somewhere. -/
def number (cursor : Int) : Request → Nat → Option Int
  | line _, i => some (cursor + i)
  | lines _, i => some (cursor + i)
  | _, _ => none

/-- The request is to move the cursor and hands nothing over. -/
def isJump : Request → Bool
  | jump .. => true
  | _ => false

/-- What is done to a report that is asked for something. -/
def edit (r : ReportId) : Request → Edit (List LineId)
  | jump target tellSkip => do
    let _ ← Edit.jump r target tellSkip
    return []
  | note c => return [← Edit.addNote r c]
  | line c => return [← Edit.addLine r c]
  | lines cs => Edit.addLines r cs

/-- A request that hands something over is none to move the cursor. -/
theorem isJump_of_mem {q : Request} {c : Content} (hc : c ∈ q.contents) : q.isJump = false := by
  cases q with
  | jump target tellSkip => cases hc
  | note | line | lines => rfl

end Request

namespace Workspace

/-- Carries out a request to a report: the lines that were appended or the fault, and the workspace
after it. -/
def carryOut (w : Workspace) (r : ReportId) (q : Request) :
    Except Fault (List LineId) × Workspace := (q.edit r).run.run w

variable {w : Workspace} {r : ReportId}

theorem carryOut_jump (w : Workspace) (r : ReportId) (target : Int) (tellSkip : Bool) :
    w.carryOut r (.jump target tellSkip) = match w.outcome (.jump r target tellSkip) with
      | .ok (w', _) => (.ok [], w')
      | .error e => (.error e, w) := by
  rw [carryOut, Request.edit, Attempt.run_bind,
    run_of_traceless (Edit.traceless_jump r target tellSkip)]
  rcases w.outcome (.jump r target tellSkip) with e | ⟨w', b⟩ <;> rfl

theorem carryOut_note (w : Workspace) (r : ReportId) (c : Content) :
    w.carryOut r (.note c) = match w.outcome (.addNote r c) with
      | .ok (w', id) => (.ok [id], w')
      | .error e => (.error e, w) := by
  rw [carryOut, Request.edit, Attempt.run_bind, run_of_traceless (Edit.traceless_addNote r c)]
  rcases w.outcome (.addNote r c) with e | ⟨w', id⟩ <;> rfl

theorem carryOut_line (w : Workspace) (r : ReportId) (c : Content) :
    w.carryOut r (.line c) = match w.outcome (.addLine r c) with
      | .ok (w', id) => (.ok [id], w')
      | .error e => (.error e, w) := by
  rw [carryOut, Request.edit, Attempt.run_bind, run_of_traceless (Edit.traceless_addLine r c)]
  rcases w.outcome (.addLine r c) with e | ⟨w', id⟩ <;> rfl

/-- **Several contents are taken in one after the other**, up to the first that is refused. -/
theorem carryOut_lines_cons (w : Workspace) (r : ReportId) (c : Content) (rest : List Content) :
    w.carryOut r (.lines (c :: rest)) = match w.outcome (.addLine r c) with
      | .ok (w₁, id) => ((w₁.carryOut r (.lines rest)).1.map (id :: ·),
          (w₁.carryOut r (.lines rest)).2)
      | .error e => (.error e, w) := addLines_cons w r c rest

theorem carryOut_lines_cons_eq_ok {c : Content} {rest : List Content} {ids : List LineId}
    (h : (w.carryOut r (.lines (c :: rest))).1 = .ok ids) :
    ∃ w₁ id ids', w.outcome (.addLine r c) = .ok (w₁, id) ∧
      (w₁.carryOut r (.lines rest)).1 = .ok ids' ∧ ids = id :: ids' ∧
      (w.carryOut r (.lines (c :: rest))).2 = (w₁.carryOut r (.lines rest)).2 := by
  rw [carryOut_lines_cons] at h ⊢
  cases hmade : w.outcome (.addLine r c) with
  | error e =>
    rw [hmade] at h
    cases h
  | ok made =>
    rw [hmade] at h
    simp only at h
    cases hrest : (made.1.carryOut r (.lines rest)).1 with
    | error e =>
      rw [hrest] at h
      cases h
    | ok ids' =>
      rw [hrest] at h
      exact ⟨made.1, made.2, ids', rfl, hrest, (Except.ok.inj h).symm, rfl⟩

/-! ## What is refused -/

variable {c : Content} {cs : List Content}

theorem exists_blockFor (w : Workspace) (r : ReportId) (hc : c.isUsable) :
    ∃ made, w.outcome (.blockFor r c) = .ok made := by
  rw [outcome_blockFor]
  cases c with
  | text t => exact ⟨_, rfl⟩
  | line id => exact ⟨_, rfl⟩
  | other kind => cases hc

theorem exists_addNote (w : Workspace) (r : ReportId) (hc : c.isUsable) :
    ∃ made, w.outcome (.addNote r c) = .ok made := by
  obtain ⟨made, hmade⟩ := exists_blockFor w r hc
  rw [outcome_addNote, hmade]
  exact ⟨_, rfl⟩

theorem exists_addLine (w : Workspace) (r : ReportId) (hc : c.isUsable) :
    ∃ made, w.outcome (.addLine r c) = .ok made := by
  obtain ⟨made, hmade⟩ := exists_blockFor w r hc
  rw [outcome_addLine, hmade]
  exact ⟨_, rfl⟩

theorem carryOut_lines_ok (r : ReportId) (hcs : ∀ c ∈ cs, c.isUsable) :
    ∀ w : Workspace, ∃ ids, (w.carryOut r (.lines cs)).1 = .ok ids := by
  induction cs with
  | nil => exact fun _ => ⟨[], rfl⟩
  | cons c rest ih =>
    intro w
    obtain ⟨made, hmade⟩ := exists_addLine w r (hcs c List.mem_cons_self)
    obtain ⟨ids, hids⟩ := ih (fun c hmem => hcs c (List.mem_cons_of_mem _ hmem)) made.1
    rw [carryOut_lines_cons, hmade]
    exact ⟨made.2 :: ids, congrArg (Except.map (made.2 :: ·)) hids⟩

/-- **What comes before something that is no content is taken in**, and nothing else is. -/
theorem carryOut_lines_refused (r : ReportId) {before after : List Content} {kind : Kind}
    (hbefore : ∀ c ∈ before, c.isUsable) : ∀ w : Workspace,
    w.carryOut r (.lines (before ++ .other kind :: after)) =
      (.error (.notContent kind), (w.carryOut r (.lines before)).2) := by
  induction before with
  | nil => exact fun w => carryOut_lines_cons w r (.other kind) after
  | cons c rest ih =>
    intro w
    obtain ⟨made, hmade⟩ := exists_addLine w r (hbefore c List.mem_cons_self)
    have hrest := ih (fun c hmem => hbefore c (List.mem_cons_of_mem _ hmem)) made.1
    rw [List.cons_append, carryOut_lines_cons, carryOut_lines_cons, hmade]
    simp only [hrest]
    rfl

/-- Contents are all usable, or there is a first one that is not. -/
theorem usable_or_split : ∀ cs : List Content, (∀ c ∈ cs, c.isUsable) ∨
    ∃ before kind after, cs = before ++ .other kind :: after ∧ ∀ c ∈ before, c.isUsable
  | [] => Or.inl (by simp)
  | c :: rest => by
    cases hc : c.isUsable with
    | false =>
      cases c with
      | text t => cases hc
      | line id => cases hc
      | other kind => exact Or.inr ⟨[], kind, rest, rfl, by simp⟩
    | true =>
      obtain hall | ⟨before, kind, after, rfl, hbefore⟩ := usable_or_split rest
      · exact Or.inl (List.forall_mem_cons.mpr ⟨hc, hall⟩)
      · exact Or.inr ⟨c :: before, kind, after, rfl, List.forall_mem_cons.mpr ⟨hc, hbefore⟩⟩

/-- **A request that hands something over is refused** iff something of it is no content. -/
theorem carryOut_eq_error_iff (w : Workspace) (r : ReportId) {q : Request}
    (hq : q.isJump = false) :
    (∃ e, (w.carryOut r q).1 = .error e) ↔ ∃ kind, .other kind ∈ q.contents := by
  obtain husable | ⟨before, kind, after, hsplit, hbefore⟩ := usable_or_split q.contents
  · have hok : ∃ ids, (w.carryOut r q).1 = .ok ids := by
      cases q with
      | jump target tellSkip => cases hq
      | note c =>
        obtain ⟨made, hmade⟩ := exists_addNote w r (husable c List.mem_cons_self)
        exact ⟨[made.2], by rw [carryOut_note, hmade]⟩
      | line c =>
        obtain ⟨made, hmade⟩ := exists_addLine w r (husable c List.mem_cons_self)
        exact ⟨[made.2], by rw [carryOut_line, hmade]⟩
      | lines cs => exact carryOut_lines_ok r husable w
    obtain ⟨ids, hids⟩ := hok
    constructor
    · rintro ⟨e, he⟩
      cases hids.symm.trans he
    · rintro ⟨kind, hkind⟩
      cases husable _ hkind
  · have hkind : .other kind ∈ q.contents := by simp [hsplit]
    refine ⟨fun _ => ⟨kind, hkind⟩, fun _ => ⟨.notContent kind, ?_⟩⟩
    cases q with
    | jump target tellSkip => cases hq
    | note c =>
      obtain rfl : .other kind = c := List.mem_singleton.mp hkind
      rfl
    | line c =>
      obtain rfl : .other kind = c := List.mem_singleton.mp hkind
      rfl
    | lines cs =>
      obtain rfl : cs = before ++ .other kind :: after := hsplit
      rw [carryOut_lines_refused r hbefore]

end Workspace

namespace Session

open Workspace

/-- A command is a request to a report, as its names are understood in a session. -/
inductive Asks (s : Session) : ReportCommand → ReportId → Request → Prop
  | jump {report : String} {r : ReportId} {target : Int} {tellSkip : Bool}
    (hr : s.reportId report = .ok r) :
    Asks s (.jump report target tellSkip) r (.jump target tellSkip)
  | note {report : String} {r : ReportId} {content : Operand} {c : Content} {saveAs : Option String}
    (hr : s.reportId report = .ok r) (hc : s.contentOf content = .ok c) :
    Asks s (.addNote report content saveAs) r (.note c)
  | line {report : String} {r : ReportId} {content : Operand} {c : Content} {saveAs : Option String}
    (hr : s.reportId report = .ok r) (hc : s.contentOf content = .ok c) :
    Asks s (.addLine report content saveAs) r (.line c)
  | lines {report : String} {r : ReportId} {contents : List Operand} {cs : List Content}
    {saveAs : List String} (hr : s.reportId report = .ok r)
    (hcs : contents.mapM s.contentOf = .ok cs) :
    Asks s (.addLines report contents saveAs) r (.lines cs)

/-- A jump of a named report is a jump of that report, or nothing. -/
theorem step_jump {s : Session} {report : String} {r : ReportId} {target : Int} {tellSkip : Bool}
    (hr : s.reportId report = .ok r) : s.step (.report (.jump report target tellSkip)) =
      match s.space.outcome (.jump r target tellSkip) with
      | .ok (w, b) =>
        (.ok { answer := .status (w.report r).status, warnings := b.toList },
          { s with space := w })
      | .error e => (.error e, s) := by
  rw [step, perform, performReport, run_ask_bind, hr]
  simp only
  rw [run_edit_bind (Edit.traceless_jump r target tellSkip)]
  rcases s.space.outcome (.jump r target tellSkip) with e | ⟨w, b⟩ <;> rfl

/-- Several operands, each of which stands for something, are appended up to the first that is
refused; names are given only if none is. -/
theorem step_addLines {s : Session} {report : String} {r : ReportId} {contents : List Operand}
    {cs : List Content} {saveAs : List String} (hr : s.reportId report = .ok r)
    (hcs : contents.mapM s.contentOf = .ok cs) :
    s.step (.report (.addLines report contents saveAs)) =
      match s.space.carryOut r (.lines cs) with
      | (.error e, w) => (.error e, { s with space := w })
      | (.ok ids, w) =>
        (.ok { answer := .numbered (w.report r).status (ids.map fun id => (w.line id).number) },
          { s with space := w, lines := (saveAs.zip ids).reverse ++ s.lines }) := by
  rw [step, perform, performReport, run_ask_bind, hr]
  simp only
  rw [run_ask_bind, hcs]
  simp only
  rw [Attempt.run_bind, run_edit, carryOut, Request.edit]
  generalize (Edit.addLines r cs).run.run s.space = outcome
  obtain ⟨e | ids, w⟩ := outcome
  · rfl
  · simp only
    rw [Attempt.run_bind, run_nameLines]
    rfl

/-- **The commands that are requests** do to a session what these do to its workspace. -/
theorem step_of_asks {s : Session} {c : ReportCommand} {r : ReportId} {q : Request}
    (h : s.Asks c r q) :
    (s.step (.report c)).1.map (fun _ => ()) = (s.space.carryOut r q).1.map (fun _ => ()) ∧
      (s.step (.report c)).2.space = (s.space.carryOut r q).2 := by
  cases h with
  | @jump report r target tellSkip hr =>
    rw [step_jump hr, carryOut_jump]
    rcases s.space.outcome (.jump r target tellSkip) with e | ⟨w, b⟩ <;> exact ⟨rfl, rfl⟩
  | @note report r content c saveAs hr hc =>
    rw [step, perform, performReport, run_addOperand (Edit.traceless_addNote r c) hr hc,
      carryOut_note]
    rcases s.space.outcome (.addNote r c) with e | ⟨w, id⟩ <;> exact ⟨rfl, rfl⟩
  | @line report r content c saveAs hr hc =>
    rw [step, perform, performReport, run_addOperand (Edit.traceless_addLine r c) hr hc,
      carryOut_line]
    rcases s.space.outcome (.addLine r c) with e | ⟨w, id⟩ <;> exact ⟨rfl, rfl⟩
  | @lines report r contents cs saveAs hr hcs =>
    rw [step_addLines hr hcs]
    rcases s.space.carryOut r (.lines cs) with ⟨e | ids, w⟩ <;> exact ⟨rfl, rfl⟩

end Session

end Marginalia
