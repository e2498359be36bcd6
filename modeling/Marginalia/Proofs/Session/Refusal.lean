import Marginalia.Proofs.Traversal
import Marginalia.Proofs.Workspace.Requests

/-!
# Refusal

A command that is refused leaves the session as it was. The exception is the one that appends
several operands: what comes before the first that is neither a text nor a line has been appended by
then, and stays appended, but no name is given to it.

So a script comes to what its commands come to that are carried out, together with those that append
what was appended before a refusal, and none of these is refused.

Results:
* `Session.traceless_perform`: all commands but one leave nothing behind when they are refused.
* `Session.step_addLines_refused`: what the exception leaves behind.
* `Session.step_refused`: both together.
* `Session.runAll_effective`: a script without the commands that are refused.
-/

namespace Marginalia

/-- An operand that a report can take in: a text or a named line. -/
def Operand.isUsable : Operand → Bool
  | .other _ => false
  | _ => true

theorem Operand.takeWhile_isUsable {before after : List Operand} {kind : Kind}
    (h : ∀ o ∈ before, o.isUsable) :
    (before ++ .other kind :: after).takeWhile Operand.isUsable = before := by
  rw [List.takeWhile_append_of_pos h]
  exact List.append_nil before

/-- Names are refused for not being in use, and for nothing else. -/
theorem Names.find_eq_error {β : Type} {names : Names β} {name : String} {e : Fault}
    (h : names.find name = .error e) : e = .unboundName name := by
  unfold find at h
  split at h
  · cases h
  · cases h
    rfl

/-- The thing of a name is one that was stored under it. -/
theorem Names.mem_of_find {α : Type} {names : Names α} {name : String} {a : α}
    (h : names.find name = .ok a) : (name, a) ∈ names := by
  unfold find at h
  split at h
  · cases h
    obtain ⟨before, after, hnames, -⟩ := List.lookup_eq_some_iff.mp ‹_›
    rw [hnames]
    exact List.mem_append_right _ List.mem_cons_self
  · cases h

/-- A name that is given again to what it stands for already. -/
theorem Names.find_of_same {α : Type} {names : Names α} {name : String} {a : α}
    (h : names.find name = .ok a) : ∀ {new : Names α}, (∀ p ∈ new, p.2 = a) →
    Names.find (new ++ names) name = .ok a
  | [], _ => h
  | p :: rest, hnew => by
    obtain ⟨hp, hrest⟩ := List.forall_mem_cons.mp hnew
    obtain ⟨name', b⟩ := p
    obtain rfl : b = a := hp
    rw [Names.find, List.cons_append, List.lookup_cons]
    cases name == name' with
    | true => rfl
    | false => exact Names.find_of_same h hrest

namespace Command

/-- The command to append one operand to a report, with the next number and without a name. -/
def addOne (name : String) (o : Operand) : Command := .report (.addLine name o none)

/-- What is left of a command that is refused: of several operands to append, those before the first
that is not usable. -/
def remains : Command → Fault → List Command
  | .report (.addLines name contents _), .notContent _ =>
    (contents.takeWhile Operand.isUsable).map (addOne name)
  | _, _ => []

theorem remains_eq_nil {c : Command} {e : Fault}
    (h : ∀ name contents saveAs kind, c = .report (.addLines name contents saveAs) →
      e ≠ .notContent kind) : c.remains e = [] := by
  unfold remains
  split
  · exact absurd rfl (h _ _ _ _ rfl)
  · rfl

end Command

namespace Session

/-- The commands of a script that are carried out, and what is left of those that are refused. -/
def effective (s : Session) : List Command → List Command
  | [] => []
  | c :: rest =>
    let (reply, s') := s.step c
    (match reply with
      | .ok _ => [c]
      | .error e => c.remains e) ++ s'.effective rest

open Attempt Workspace

variable {α : Type} {s : Session} {e : Fault}

/-! ## Actions that leave nothing behind -/

theorem still_ask (question : Session → Except Fault α) : Still (ask question) :=
  fun s => congrArg Prod.snd (run_ask question s)

theorem traceless_edit {e : Edit α} (h : Traceless e) : Traceless (edit e) := by
  intro s f hf
  rw [run_edit] at hf ⊢
  exact congrArg (fun w => { s with space := w }) (h s.space f hf)

theorem sure_edit {e : Edit α} (h : Sure e) : Sure (edit e) := by
  intro s
  rw [run_edit]
  exact h s.space

theorem sure_makeLine (saveAs : Option String) (l : Line) : Sure (makeLine saveAs l) :=
  fun s => ⟨_, congrArg Prod.fst (run_makeLine saveAs l s)⟩

/-- **A command about a line** checks first and then makes or changes the line. -/
theorem traceless_performLine : ∀ c : LineCommand, Traceless (performLine c)
  | .new saveAs v numbered number => by
    cases v with
    | text t => exact (sure_makeLine _ _).traceless
    | _ => exact (still_throw _).traceless
  | .annotate line a =>
    .after_still (still_ask _) fun id =>
      (traceless_edit (Edit.traceless_annotate id a)).before_sure fun _ =>
        sure_get.bind fun _ => sure_pure _
  | .renumber line numbered number =>
    .after_still (still_ask _) fun id => Sure.traceless <|
      (sure_edit (sure_modify _)).bind fun _ => sure_get.bind fun _ => sure_pure _
  | .append left right saveAs | .add left right saveAs =>
    .after_still (still_ask _) fun l => (sure_makeLine saveAs l).traceless
  | .inspect _ | .label _ | .picture _ | .compare _ | .present _ => (still_ask _).traceless

/-- **An operand is appended and named** after all that it may be refused for. -/
theorem traceless_addOperand {add : ReportId → Content → Edit LineId}
    (hadd : ∀ r c, Traceless (add r c)) (report : String) (content : Operand)
    (saveAs : Option String) : Traceless (addOperand add report content saveAs) :=
  .after_still (still_ask _) fun r => .after_still (still_ask _) fun c =>
    (traceless_edit (hadd r c)).before_sure fun _ =>
      (sure_modify _).bind fun _ => sure_get.bind fun _ => sure_pure _

/-- **A command about a report** looks up all its names before it edits anything, and what it edits
is refused before anything is changed, but for the appending of several operands. -/
theorem traceless_performReport {c : ReportCommand}
    (hc : ∀ report contents saveAs, c ≠ .addLines report contents saveAs) :
    Traceless (performReport c) := by
  cases c with
  | new saveAs color indentAll =>
    exact Sure.traceless <| (sure_edit (sure_modifyGet _)).bind fun _ =>
      (sure_modify _).bind fun _ => sure_get.bind fun _ => sure_pure _
  | setColor report flag | setIndent report flag =>
    exact .after_still (still_ask _) fun r => Sure.traceless <|
      (sure_edit (sure_modify _)).bind fun _ => sure_pure _
  | jump report target tellSkip =>
    exact .after_still (still_ask _) fun r =>
      (traceless_edit (Edit.traceless_jump r target tellSkip)).before_sure fun _ =>
        sure_get.bind fun _ => sure_pure _
  | addNote report content saveAs =>
    exact traceless_addOperand Edit.traceless_addNote report content saveAs
  | addLine report content saveAs =>
    exact traceless_addOperand Edit.traceless_addLine report content saveAs
  | addLines report contents saveAs => exact absurd rfl (hc report contents saveAs)
  | block report index saveAs =>
    exact .after_still (still_ask _) fun r => .after_still (still_ask _) fun id =>
      Sure.traceless <| (sure_modify _).bind fun _ => sure_get.bind fun _ => sure_pure _
  | status | blocks | render => exact (still_ask _).traceless

/-- **A command about a source** makes its source or its excerpt before it stores anything. -/
theorem traceless_performSource : ∀ c : SourceCommand, Traceless (performSource c)
  | .new .. =>
    .after_still (still_lift _) fun _ => Sure.traceless <| (sure_modify _).bind fun _ => sure_pure _
  | .excerpt .. =>
    .after_still (still_ask _) fun _ => Sure.traceless <|
      (sure_edit (sure_modifyGet _)).bind fun _ => (sure_modify _).bind fun _ => sure_pure _
  | .lastRow _ | .position .. | .positions _ | .offset .. | .rowText .. | .rowTexts _ |
    .showExcerpt .. | .printExcerpt .. => (still_ask _).traceless

/-- **All commands leave nothing behind when they are refused**, but for the one that appends
several operands. -/
theorem traceless_perform {c : Command}
    (hc : ∀ report contents saveAs, c ≠ .report (.addLines report contents saveAs)) :
    Traceless (perform c) := by
  cases c with
  | line c => exact traceless_performLine c
  | source c => exact traceless_performSource c
  | report c =>
    exact traceless_performReport fun report contents saveAs h =>
      hc report contents saveAs (congrArg Command.report h)

/-! ## Appending several operands -/

/-- What an operand stands for is not there only if it is a line under a name that is not in use. -/
theorem contentOf_eq_error {o : Operand} (h : s.contentOf o = .error e) :
    ∃ name, e = .unboundName name := by
  cases o with
  | line name =>
    simp only [contentOf] at h
    cases hname : s.lineId name with
    | error e' =>
      rw [hname] at h
      cases h
      exact ⟨name, Names.find_eq_error hname⟩
    | ok id =>
      rw [hname] at h
      cases h
  | text t => cases h
  | other kind => cases h

/-- An operand and what it stands for are both usable, or neither is. -/
theorem contentOf_cases {o : Operand} {c : Content} (h : s.contentOf o = .ok c) :
    (o.isUsable ∧ c.isUsable) ∨ ∃ kind, o = .other kind ∧ c = .other kind := by
  cases o with
  | line name =>
    simp only [contentOf] at h
    cases hname : s.lineId name with
    | error e =>
      rw [hname] at h
      cases h
    | ok id =>
      rw [hname] at h
      cases h
      exact Or.inl ⟨rfl, rfl⟩
  | text t =>
    cases h
    exact Or.inl ⟨rfl, rfl⟩
  | other kind =>
    cases h
    exact Or.inr ⟨kind, rfl, rfl⟩

theorem usable_of_contents {os : List Operand} {cs : List Content}
    (h : List.Forall₂ (fun o c => s.contentOf o = .ok c) os cs) (hcs : ∀ c ∈ cs, c.isUsable) :
    ∀ o ∈ os, o.isUsable := by
  induction h with
  | nil => simp
  | cons ho _ ih =>
    rw [List.forall_mem_cons] at hcs ⊢
    refine ⟨?_, ih hcs.2⟩
    obtain ⟨huse, -⟩ | ⟨kind, -, rfl⟩ := contentOf_cases ho
    · exact huse
    · cases hcs.1

/-- **Usable operands are appended one by one as they are together**, without a refusal. -/
theorem runAll_addOne {report : String} {r : ReportId} {os : List Operand} {cs : List Content}
    (hcs : ∀ c ∈ cs, c.isUsable) : ∀ {s : Session}, s.reportId report = .ok r →
    List.Forall₂ (fun o c => s.contentOf o = .ok c) os cs →
    (∀ reply ∈ (s.runAll (os.map (Command.addOne report))).1, ∃ a, reply = .ok a) ∧
      (s.runAll (os.map (Command.addOne report))).2 =
        { s with space := (s.space.carryOut r (.lines cs)).2 } := by
  induction os generalizing cs with
  | nil =>
    intro s _ hos
    cases hos
    exact ⟨by simp [runAll], rfl⟩
  | cons o rest ih =>
    intro s hr hos
    cases hos with
    | @cons _ c _ cs ho hrest =>
      obtain ⟨made, hmade⟩ := exists_addLine s.space r (hcs c List.mem_cons_self)
      -- without a name to be given, only the workspace changes
      have hstep : ∃ reply, s.step (Command.addOne report o) =
          (.ok reply, { s with space := made.1 }) := by
        rw [Command.addOne, step, perform, performReport,
          run_addOperand (Edit.traceless_addLine r c) hr ho, hmade]
        exact ⟨_, rfl⟩
      obtain ⟨reply, hreply⟩ := hstep
      obtain ⟨hreplies, hspace⟩ := ih (fun c hmem => hcs c (List.mem_cons_of_mem _ hmem))
        (s := { s with space := made.1 }) hr hrest
      rw [List.map_cons, runAll, hreply]
      refine ⟨List.forall_mem_cons.mpr ⟨⟨_, rfl⟩, hreplies⟩, ?_⟩
      rw [carryOut_lines_cons, hmade]
      exact hspace

/-- Operands are split where the contents are that they stand for. -/
theorem exists_split_of_contents {contents : List Operand} {before after : List Content}
    {kind : Kind} (h : List.Forall₂ (fun o c => s.contentOf o = .ok c) contents
      (before ++ .other kind :: after)) :
    ∃ front back, contents = front ++ .other kind :: back ∧
      List.Forall₂ (fun o c => s.contentOf o = .ok c) front before := by
  have hback := List.forall₂_drop_append _ _ _ h
  obtain ⟨o, back, ho, -, hdrop⟩ := List.forall₂_cons_right_iff.mp hback
  obtain ⟨-, hc⟩ | ⟨_, rfl, hc⟩ := contentOf_cases ho
  · cases hc
  · cases hc
    refine ⟨contents.take before.length, back, ?_, List.forall₂_take_append _ _ _ h⟩
    rw [← hdrop, List.take_append_drop]

/-- Unless all names are in use, several operands are refused before anything is done. -/
theorem step_addLines_unbound (s : Session) (report : String) (contents : List Operand)
    (saveAs : List String) :
    (∃ name, s.step (.report (.addLines report contents saveAs)) =
      (.error (.unboundName name), s)) ∨
    ∃ r cs, s.reportId report = .ok r ∧ contents.mapM s.contentOf = .ok cs := by
  cases hr : s.reportId report with
  | error e =>
    obtain rfl : e = .unboundName report := Names.find_eq_error hr
    refine Or.inl ⟨report, ?_⟩
    rw [step, perform, performReport, run_ask_bind, hr]
  | ok r =>
    cases hcs : contents.mapM s.contentOf with
    | error e =>
      obtain ⟨o, -, ho⟩ := exists_of_mapM_eq_error hcs
      obtain ⟨name, rfl⟩ := contentOf_eq_error ho
      refine Or.inl ⟨name, ?_⟩
      rw [step, perform, performReport, run_ask_bind, hr]
      simp only
      rw [run_ask_bind, hcs]
    | ok cs => exact Or.inr ⟨r, cs, rfl, rfl⟩

/-- **Several operands are refused** for a name that is not in use, which leaves nothing behind, or
for one that is not usable, and then those before it stay appended. -/
theorem step_addLines_refused {report : String} {contents : List Operand} {saveAs : List String}
    (h : (s.step (.report (.addLines report contents saveAs))).1 = .error e) :
    (∃ name, e = .unboundName name ∧
      (s.step (.report (.addLines report contents saveAs))).2 = s) ∨
    ∃ before kind after, contents = before ++ .other kind :: after ∧ (∀ o ∈ before, o.isUsable) ∧
      e = .notContent kind ∧
      (∀ reply ∈ (s.runAll (before.map (Command.addOne report))).1, ∃ a, reply = .ok a) ∧
      (s.step (.report (.addLines report contents saveAs))).2 =
        (s.runAll (before.map (Command.addOne report))).2 ∧
      ∃ w, (s.step (.report (.addLines report contents saveAs))).2 = { s with space := w } := by
  obtain ⟨name, hstep⟩ | ⟨r, cs, hr, hcs⟩ := s.step_addLines_unbound report contents saveAs
  · rw [hstep] at h ⊢
    cases h
    exact Or.inl ⟨name, rfl, rfl⟩
  rw [step_addLines hr hcs] at h ⊢
  obtain husable | ⟨before, kind, after, rfl, hbefore⟩ := usable_or_split cs
  · -- nothing is left to refuse
    obtain ⟨ids, hids⟩ := carryOut_lines_ok r husable s.space
    generalize s.space.carryOut r (.lines cs) = outcome at h hids
    obtain ⟨_, w⟩ := outcome
    cases hids
    cases h
  · rw [carryOut_lines_refused r hbefore] at h ⊢
    cases h
    obtain ⟨front, back, rfl, hfront⟩ := exists_split_of_contents (forall₂_of_mapM_eq_ok hcs)
    obtain ⟨hreplies, hspace⟩ := runAll_addOne hbefore hr hfront
    exact Or.inr ⟨front, kind, back, rfl, usable_of_contents hfront hbefore, rfl, hreplies,
      hspace.symm, _, rfl⟩

/-! ## Commands and scripts -/

/-- **A command that is refused leaves no trace**, whatever it is refused for. The one that appends
several operands leaves what appending those before the first that is not usable would leave, and
gives no name. -/
theorem step_refused {c : Command} (h : (s.step c).1 = .error e) :
    ((∀ report contents saveAs, c ≠ .report (.addLines report contents saveAs)) →
      (s.step c).2 = s) ∧
    ∀ report contents saveAs, c = .report (.addLines report contents saveAs) →
      (∃ name, e = .unboundName name ∧ (s.step c).2 = s) ∨
      ∃ before kind after, contents = before ++ .other kind :: after ∧
        (∀ o ∈ before, o.isUsable) ∧ e = .notContent kind ∧
        (∀ reply ∈ (s.runAll (before.map (Command.addOne report))).1, ∃ a, reply = .ok a) ∧
        (s.step c).2 = (s.runAll (before.map (Command.addOne report))).2 ∧
        ∃ w, (s.step c).2 = { s with space := w } := by
  refine ⟨fun hc => traceless_perform hc s e h, ?_⟩
  rintro report contents saveAs rfl
  exact step_addLines_refused h

/-- A jump to before the first line changes nothing. Of a text, a line that is a block already and a
number, the text and a copy of the line are taken in. -/
theorem step_refused_number_among_lines :
    let s := (({} : Session).runAll [.report (.new "r" false false),
      .line (.new (some "l") (.text ['l']) false 0), .report (.addLine "r" (.line "l") none)]).2
    let lines := Command.report
      (.addLines "r" [.text ['a'], .line "l", .other .int, .text ['b']] ["x"])
    (s.step (.report (.jump "r" (-1) true))).2 = s ∧
      (s.step lines).1 = .error (.notContent .int) ∧
      (s.step lines).2 = (s.runAll [.addOne "r" (.text ['a']), .addOne "r" (.line "l")]).2 ∧
      ((s.step lines).2.space.view 0).blocks.map (fun l => (l.text, l.number)) =
        [(['l'], 1), (['a'], 2), (['l'], 3)] ∧
      (s.step lines).2.lines = s.lines := by
  intro s lines
  have hjump : (s.step (.report (.jump "r" (-1) true))).1 = .error (.negativeLineNumber (-1)) := by
    decide
  have hlines : (s.step lines).1 = .error (.notContent .int) := by decide
  obtain ⟨name, hname, -⟩ | ⟨before, kind, after, hsplit, husable, -, -, hsame, w, hw⟩ :=
    (step_refused hlines).2 _ _ _ rfl
  · cases hname
  · have hbefore : before = [.text ['a'], .line "l"] := by
      rw [← Operand.takeWhile_isUsable husable, ← hsplit]
      rfl
    subst hbefore
    exact ⟨(step_refused hjump).1 (by simp), hlines, hsame, by decide, by rw [hw]⟩

/-- What is left of a command that is refused is carried out without a refusal, and with the same
effect. -/
theorem runAll_remains {c : Command} (h : (s.step c).1 = .error e) :
    (∀ reply ∈ (s.runAll (c.remains e)).1, ∃ a, reply = .ok a) ∧
      (s.runAll (c.remains e)).2 = (s.step c).2 := by
  by_cases hc : ∃ report contents saveAs, c = .report (.addLines report contents saveAs)
  · obtain ⟨report, contents, saveAs, rfl⟩ := hc
    obtain ⟨name, rfl, hsame⟩ | ⟨before, kind, after, rfl, husable, rfl, hreplies, hsame, -⟩ :=
      step_addLines_refused h
    · rw [Command.remains_eq_nil (by simp), hsame]
      exact ⟨by simp [runAll], rfl⟩
    · rw [Command.remains, Operand.takeWhile_isUsable husable, hsame]
      exact ⟨hreplies, rfl⟩
  · push Not at hc
    have hsame : (s.step c).2 = s := traceless_perform hc s e h
    have hnone : c.remains e = [] :=
      Command.remains_eq_nil fun report contents saveAs _ heq =>
        absurd heq (hc report contents saveAs)
    rw [hnone, hsame]
    exact ⟨by simp [runAll], rfl⟩

theorem runAll_cons (s : Session) (c : Command) (rest : List Command) : s.runAll (c :: rest) =
    ((s.step c).1 :: ((s.step c).2.runAll rest).1, ((s.step c).2.runAll rest).2) := rfl

theorem length_runAll : ∀ (cs : List Command) (s : Session), (s.runAll cs).1.length = cs.length
  | [], _ => rfl
  | c :: rest, s => congrArg (· + 1) (length_runAll rest (s.step c).2)

/-- One script after another. -/
theorem runAll_append (cs ds : List Command) : ∀ s : Session, s.runAll (cs ++ ds) =
    ((s.runAll cs).1 ++ ((s.runAll cs).2.runAll ds).1, ((s.runAll cs).2.runAll ds).2) := by
  induction cs with
  | nil => exact fun _ => rfl
  | cons c rest ih =>
    intro s
    simp only [List.cons_append, runAll, ih]

/-- **A script comes to the same without what is refused**, and then nothing is refused. -/
theorem runAll_effective (cs : List Command) : ∀ s : Session,
    (∀ reply ∈ (s.runAll (s.effective cs)).1, ∃ a, reply = .ok a) ∧
      (s.runAll (s.effective cs)).2 = (s.runAll cs).2 := by
  induction cs with
  | nil => exact fun _ => ⟨by simp [effective, runAll], rfl⟩
  | cons c rest ih =>
    intro s
    obtain ⟨hreplies, hsame⟩ := ih (s.step c).2
    have hfirst : ∃ done, s.effective (c :: rest) = done ++ (s.step c).2.effective rest ∧
        (∀ reply ∈ (s.runAll done).1, ∃ a, reply = .ok a) ∧
        (s.runAll done).2 = (s.step c).2 := by
      cases hreply : (s.step c).1 with
      | ok a => exact ⟨[c], by simp [effective, hreply], by simp [runAll, hreply], rfl⟩
      | error e => exact ⟨c.remains e, by simp [effective, hreply], runAll_remains hreply⟩
    obtain ⟨done, heffective, hdone, hafter⟩ := hfirst
    rw [heffective, runAll_append, hafter]
    refine ⟨?_, hsame⟩
    intro reply hmem
    obtain hmem | hmem := List.mem_append.mp hmem
    · exact hdone reply hmem
    · exact hreplies reply hmem

end Session

end Marginalia
