import Marginalia.Proofs.Annotating
import Marginalia.Proofs.TextCodes
import Marginalia.Proofs.Traversal
import Marginalia.Proofs.Workspace.Requests

/-!
# The lines of a session

Lines come about in few ways: as a text with nothing on it, by handing a decoration to a line, and
by joining two lines; their number fields may be set at any time (`Line.Built`). All that can be
done in a session comes down to these, so what they preserve holds of every line of every session.
In particular no decoration ever begins before its text or ends before it begins.

Results:
* `Line.Built.proper`: the spans of a line are proper however it came about.
* `Session.keepsBuilt_perform`: a command leaves a session with lines that came about like this.
* `Session.proper_of_runAll`: the spans of all lines of a session are proper.
* `Session.showText_of_runAll`: so their coloured texts are read off position by position.
-/

namespace Marginalia

namespace Line

/-- How a line comes about. -/
inductive Built : Line → Prop
  | bare (text : Text) (numbered : Bool) (number : Int) : Built (bare text numbered number)
  | attempt {l : Line} (h : Built l) (a : Annotation) : Built (l.attempt a)
  | append {l r : Line} (hl : Built l) (hr : Built r) : Built (l ++ r)
  | renumber {l : Line} (h : Built l) (numbered : Bool) (number : Int) :
    Built { l with numbered := numbered, number := number }

namespace Built

variable {l l' : Line}

theorem annotate {a : Annotation} (h : l.Built) (hl' : l.annotate a = .ok l') : l'.Built := by
  have hattempt : l.attempt a = l' := by rw [Line.attempt, hl']
  exact hattempt ▸ h.attempt a

/-- **All spans are proper** on a line, however it came about. -/
theorem proper (h : l.Built) : (∀ t ∈ l.tints, t.Proper) ∧ ∀ u ∈ l.underlines, u.Proper := by
  induction h with
  | bare => exact ⟨nofun, nofun⟩
  | @attempt l _ a ih =>
    obtain hl | ⟨t, ht, hl⟩ | ⟨u, hu, hl⟩ := l.attempt_cases a
    · rwa [hl]
    · rw [hl]
      refine ⟨fun s hs => ?_, ih.2⟩
      rcases List.mem_append.mp hs with hs | hs
      · exact ih.1 s hs
      · exact List.mem_singleton.mp hs ▸ ht
    · rw [hl]
      refine ⟨ih.1, fun v hv => ?_⟩
      rcases List.mem_append.mp hv with hv | hv
      · exact ih.2 v hv
      · obtain ⟨pen, hint, hplace, hproper, hfree⟩ := hu
        exact List.mem_singleton.mp hv ▸ hproper
  | @append l r _ _ hl hr =>
    constructor
    · intro t ht
      rcases List.mem_append.mp ht with ht | ht
      · exact hl.1 t ht
      · obtain ⟨s, hs, rfl⟩ := List.mem_map.mp ht
        exact Span.Proper.shift (hr.1 s hs) _
    · intro u hu
      rcases List.mem_append.mp hu with hu | hu
      · exact hl.2 u hu
      · obtain ⟨v, hv, rfl⟩ := List.mem_map.mp hu
        exact Span.Proper.shift (hr.2 v hv) _
  | renumber _ _ _ ih => exact ih

end Built

end Line

namespace Report

/-- All blocks of a report came about as lines do. -/
def Built (r : Report Line) : Prop := ∀ l ∈ r.blocks, l.Built

variable {r r' : Report Line}

theorem built_append {notices : List Line} (h : r.Built) (hnotices : ∀ l ∈ notices, l.Built) :
    ∀ l ∈ r.blocks ++ notices, l.Built :=
  List.forall_mem_append.mpr ⟨h, hnotices⟩

theorem Built.annotateLast (h : r.Built) {a : Annotation} (hr' : r.annotateLast a = .ok r') :
    r'.Built := by
  rcases List.eq_nil_or_concat r.blocks with hnil | ⟨before, l, hblocks⟩
  · rw [Report.annotateLast, hnil] at hr'
    cases hr'
    exact h
  · rw [List.concat_eq_append] at hblocks
    rw [Built, hblocks, List.forall_mem_append] at h
    rw [annotateLast_concat hblocks] at hr'
    cases hmade : l.annotate a with
    | error e =>
      rw [hmade] at hr'
      cases hr'
    | ok l' =>
      rw [hmade] at hr'
      cases hr'
      refine List.forall_mem_append.mpr ⟨h.1, fun x hx => ?_⟩
      rw [List.mem_singleton.mp hx]
      exact (h.2 l (List.mem_singleton.mpr rfl)).annotate hmade

theorem Built.addLine (h : r.Built) {l : Line} (hl : l.Built) : (r.addLine l).Built :=
  built_append h fun _ hx => List.mem_singleton.mp hx ▸ hl.renumber _ _

theorem built_skipNotices (skipped : Option Int) :
    ∀ l ∈ (skipped.map Line.skipNotice).toList, l.Built := by
  intro l hl
  obtain ⟨count, -, rfl⟩ := Option.map_eq_some_iff.mp (Option.mem_toList.mp hl)
  exact .bare _ _ _

theorem Built.jump (h : r.Built) {target : Int} {tellSkip : Bool}
    (hr' : r.jump target tellSkip = .ok r') : r'.Built := by
  obtain ⟨j, -, hr'⟩ := exists_of_bind_eq_ok hr'
  cases hr'
  exact built_append h (built_skipNotices j.skipped)

end Report

/-- The blocks of an excerpt come about as lines do. -/
theorem Source.built_excerpt {s : Source} {m : Remark} {r : Report Line}
    (h : s.excerpt m = .ok r) : r.Built := by
  obtain ⟨here, -, h⟩ := exists_of_bind_eq_ok h
  obtain ⟨-, -, h⟩ := exists_of_bind_eq_ok h
  obtain ⟨start, hstart, h⟩ := exists_of_bind_eq_ok h
  have hheader : (Report.addNote { color := m.color }
      { text := s.header here m.message }).Built :=
    fun l hl => List.mem_singleton.mp hl ▸ .bare _ _ _
  have hblocks := hheader.jump hstart
  -- one row of the window after the other
  revert h
  generalize start = r₀ at hblocks
  induction s.window here.row m.context generalizing r₀ with
  | nil =>
    intro h
    cases h
    exact hblocks
  | cons row rows ih =>
    intro h
    rw [List.foldlM_cons] at h
    obtain ⟨r₁, hrow, h⟩ := exists_of_bind_eq_ok h
    refine ih r₁ ?_ h
    have hline : (r₀.addLine { text := row.2 }).Built := hblocks.addLine (.bare _ _ _)
    rw [showLine] at hrow
    split at hrow
    · exact hline.annotateLast hrow
    · cases hrow
      exact hline

namespace Workspace

/-- All lines of a workspace came about as lines do. -/
def Built (w : Workspace) : Prop := ∀ l ∈ w.lines, l.Built

variable {w w' : Workspace} {r : ReportId} {id : LineId}

namespace Built

theorem line (h : w.Built) (id : LineId) : (w.line id).Built := by
  rw [Workspace.line, List.getD_eq_getElem?_getD]
  cases hl : w.lines[id]? with
  | none => exact .bare _ _ _
  | some l => exact h l (List.mem_of_getElem? hl)

theorem newLine (h : w.Built) {l : Line} (hl : l.Built) : (w.newLine l).1.Built :=
  List.forall_mem_append.mpr ⟨h, fun _ hx => List.mem_singleton.mp hx ▸ hl⟩

theorem modifyLine (h : w.Built) {f : Line → Line} (hf : ∀ l, l.Built → (f l).Built) :
    (w.modifyLine id f).Built := by
  intro l hl
  obtain ⟨i, hi⟩ := List.mem_iff_getElem?.mp hl
  rw [Workspace.modifyLine, List.getElem?_modify] at hi
  obtain ⟨l', hl', rfl⟩ := Option.map_eq_some_iff.mp hi
  have hbuilt := h l' (List.mem_of_getElem? hl')
  split
  · exact hf l' hbuilt
  · exact hbuilt

theorem blockFor (h : w.Built) {c : Content}
    (hw' : w.outcome (.blockFor r c) = .ok (w', id)) : w'.Built := by
  cases c with
  | text t =>
    cases hw'
    exact h.newLine (.bare _ _ _)
  | line i =>
    rw [outcome_blockFor, Except.ok.injEq] at hw'
    split at hw'
    · cases hw'
      exact h.newLine (h.line i)
    · cases hw'
      exact h
  | other kind => cases hw'

theorem addNote (h : w.Built) {c : Content}
    (hw' : w.outcome (.addNote r c) = .ok (w', id)) : w'.Built := by
  obtain ⟨w₁, hmade, rfl⟩ := addNote_eq_ok hw'
  exact (h.blockFor hmade).modifyLine fun l hl => hl.renumber _ l.number

theorem addLine (h : w.Built) {c : Content}
    (hw' : w.outcome (.addLine r c) = .ok (w', id)) : w'.Built := by
  obtain ⟨w₁, hmade, rfl⟩ := addLine_eq_ok hw'
  exact (h.blockFor hmade).modifyLine fun l hl => hl.renumber _ _

theorem jump (h : w.Built) {target : Int} {tellSkip : Bool} {b : Option Backwards}
    (hw' : w.outcome (.jump r target tellSkip) = .ok (w', b)) : w'.Built := by
  obtain ⟨j, -, rfl, -⟩ := jump_eq_ok hw'
  show (w.note r j.skipped).Built
  cases j.skipped with
  | none => exact h
  | some count => exact h.newLine (.bare _ _ _)

theorem annotate (h : w.Built) {a : Annotation}
    (hw' : w.outcome (.annotate id a) = .ok (w', ())) : w'.Built := by
  rw [outcome_annotate] at hw'
  obtain ⟨l, hl, hw'⟩ := exists_of_map_eq_ok hw'
  cases hw'
  exact h.modifyLine fun _ _ => (h.line id).annotate hl

theorem adopt (h : w.Built) {r : Report Line} (hr : r.Built) : (w.adopt r).1.Built :=
  List.forall_mem_append.mpr ⟨h, hr⟩

end Built

end Workspace

namespace Session

variable {α β : Type} {s : Session}

/-- An action leaves a session with lines that came about as lines do. -/
def KeepsBuilt (a : Action α) : Prop :=
  ∀ s : Session, s.space.Built → (a.run.run s).2.space.Built

theorem keepsBuilt_throw (e : Fault) : KeepsBuilt (throw e : Action α) := fun _ h => h

theorem keepsBuilt_ask (question : Session → Except Fault α) : KeepsBuilt (ask question) :=
  fun s h => by rwa [run_ask]

/-- What follows upon a look at a session that is not refused. -/
theorem keepsBuilt_ask_bind {question : Session → Except Fault α} {f : α → Action β}
    (hf : ∀ (s : Session) x, s.space.Built → question s = .ok x →
      ((f x).run.run s).2.space.Built) : KeepsBuilt (ask question >>= f) :=
  fun s h => leads_ask_bind (R := fun s => s.space.Built) h fun x hx => hf s x h hx

/-- What follows upon an edit after which the lines came about as lines do. -/
theorem keepsBuilt_edit_bind {e : Edit α} {f : α → Action β} (htrace : Attempt.Traceless e)
    (he : ∀ (w w' : Workspace) x, w.Built → w.outcome e = .ok (w', x) → w'.Built)
    (hf : ∀ x, KeepsBuilt (f x)) : KeepsBuilt (edit e >>= f) := by
  intro s h
  rw [run_edit_bind htrace]
  cases hmade : s.space.outcome e with
  | error e => exact h
  | ok made => exact hf made.2 _ (he s.space made.1 made.2 h hmade)

/-! ## Commands -/

theorem built_line {name : String} {l : Line} (h : s.space.Built) (hl : s.line name = .ok l) :
    l.Built := by
  obtain ⟨id, -, hl⟩ := exists_of_bind_eq_ok hl
  cases hl
  exact h.line id

theorem built_summandOf {o : Operand} {l : Line} (h : s.space.Built)
    (hl : s.summandOf o = .ok (some (.line l))) : l.Built := by
  cases o with
  | line name =>
    obtain ⟨l', hl', hl⟩ := exists_of_bind_eq_ok hl
    cases hl
    exact built_line h hl'
  | text t => cases hl
  | other kind => cases hl

/-- A sum of which the lines came about as lines do. -/
theorem built_add {a b : Summand} {l : Line} (ha : ∀ x, a = .line x → x.Built)
    (hb : ∀ x, b = .line x → x.Built) (hl : a.add b = .line l) : l.Built := by
  have hbare (t : Text) : Line.Built { text := t } := .bare t false 1
  cases a <;> cases b <;> cases hl
  · exact .append (.bare _ true 1) (hb _ rfl)
  · exact .append (ha _ rfl) (hbare _)
  · exact .append (ha _ rfl) (hb _ rfl)

theorem built_join {left right : Operand} {l : Line} (h : s.space.Built)
    (hl : s.join left right = .ok l) : l.Built := by
  cases left with
  | line name =>
    obtain ⟨l', hl', hl⟩ := exists_of_bind_eq_ok hl
    obtain ⟨summand, hright, hl⟩ := exists_of_bind_eq_ok hl
    rcases summand with - | t | r
    · cases hl
    · cases hl
      exact .append (built_line h hl') (.bare t false 1)
    · cases hl
      exact .append (built_line h hl') (built_summandOf h hright)
  | text t => cases hl
  | other kind => cases hl

theorem built_sum {left right : Operand} {l : Line} (h : s.space.Built)
    (hl : s.sum left right = .ok l) : l.Built := by
  obtain ⟨a, ha, hl⟩ := exists_of_bind_eq_ok hl
  obtain ⟨b, hb, hl⟩ := exists_of_bind_eq_ok hl
  rcases a with - | a
  · cases hl
  · rcases b with - | b
    · cases hl
    · simp only at hl
      split at hl
      · rename_i l' hsum
        cases hl
        exact built_add (fun x hx => built_summandOf h (hx ▸ ha))
          (fun x hx => built_summandOf h (hx ▸ hb)) hsum
      · cases hl

theorem built_makeLine {l : Line} (h : s.space.Built) (hl : l.Built) (saveAs : Option String) :
    ((makeLine saveAs l).run.run s).2.space.Built := by
  rw [run_makeLine]
  exact h.newLine hl

theorem keepsBuilt_performLine : ∀ c : LineCommand, KeepsBuilt (performLine c)
  | .new saveAs v numbered number => by
    cases v with
    | text t => exact fun s h => built_makeLine h (.bare _ _ _) saveAs
    | _ => exact keepsBuilt_throw _
  | .annotate line a => by
    refine keepsBuilt_ask_bind fun s id h _ => ?_
    refine keepsBuilt_edit_bind (Edit.traceless_annotate id a) (fun w w' _ hw hw' => ?_)
      (fun _ _ h => ?_) s h
    · exact hw.annotate hw'
    · exact h
  | .renumber line numbered number =>
    keepsBuilt_ask_bind fun _ _ h _ => h.modifyLine fun _ hl => hl.renumber _ _
  | .append left right saveAs =>
    keepsBuilt_ask_bind fun _ _ h hl => built_makeLine h (built_join h hl) saveAs
  | .add left right saveAs =>
    keepsBuilt_ask_bind fun _ _ h hl => built_makeLine h (built_sum h hl) saveAs
  | .inspect _ | .label _ | .picture _ | .compare _ | .present _ => keepsBuilt_ask _

theorem keepsBuilt_addOperand {add : ReportId → Content → Edit LineId}
    (htrace : ∀ r c, Attempt.Traceless (add r c))
    (hadd : ∀ r c (w w' : Workspace) x, w.Built → w.outcome (add r c) = .ok (w', x) → w'.Built)
    (report : String) (content : Operand) (saveAs : Option String) :
    KeepsBuilt (addOperand add report content saveAs) := by
  refine keepsBuilt_ask_bind fun s r h _ => keepsBuilt_ask_bind (fun s c h _ => ?_) s h
  refine keepsBuilt_edit_bind (htrace r c) (hadd r c) (fun id s h => ?_) s h
  exact h

/-- Many lines that are appended one after the other. -/
theorem built_addLines (r : ReportId) : ∀ (cs : List Content) {w : Workspace}, w.Built →
    ((Edit.addLines r cs).run.run w).2.Built
  | [], _, h => h
  | c :: rest, w, h => by
    rw [Workspace.addLines_cons]
    cases hmade : w.outcome (.addLine r c) with
    | error e => exact h
    | ok made => exact built_addLines r rest (h.addLine hmade)

theorem keepsBuilt_performReport (c : ReportCommand) : KeepsBuilt (performReport c) := by
  cases c with
  | new saveAs color indentAll => exact fun _ h => h
  | setColor report flag | setIndent report flag =>
    refine keepsBuilt_ask_bind fun s r h _ => ?_
    exact h
  | jump report target tellSkip =>
    refine keepsBuilt_ask_bind fun s r h _ => ?_
    refine keepsBuilt_edit_bind (Edit.traceless_jump r target tellSkip) (fun w w' _ hw hw' => ?_)
      (fun _ _ h => ?_) s h
    · exact hw.jump hw'
    · exact h
  | addNote report content saveAs =>
    exact keepsBuilt_addOperand Edit.traceless_addNote (fun _ _ _ _ _ hw hw' => hw.addNote hw')
      report content saveAs
  | addLine report content saveAs =>
    exact keepsBuilt_addOperand Edit.traceless_addLine (fun _ _ _ _ _ hw hw' => hw.addLine hw')
      report content saveAs
  | addLines report contents saveAs =>
    refine keepsBuilt_ask_bind fun s r h _ => keepsBuilt_ask_bind (fun s cs h _ => ?_) s h
    have hbuilt := built_addLines r cs h
    rw [Attempt.run_bind, run_edit]
    generalize (Edit.addLines r cs).run.run s.space = outcome at hbuilt ⊢
    obtain ⟨e | ids, w⟩ := outcome
    · exact hbuilt
    · simp only
      rw [Attempt.run_bind, run_nameLines]
      exact hbuilt
  | block report index saveAs =>
    refine keepsBuilt_ask_bind fun s r h _ => keepsBuilt_ask_bind (fun s id h _ => ?_) s h
    exact h
  | status | blocks | render => exact keepsBuilt_ask _

theorem keepsBuilt_performSource : ∀ c : SourceCommand, KeepsBuilt (performSource c)
  | .new saveAs content breaks filename firstRow => fun s h => by
    rw [performSource, Attempt.run_bind, Attempt.run_lift]
    cases Source.make content breaks filename firstRow <;> exact h
  | .excerpt .. =>
    keepsBuilt_ask_bind fun s r h hr => by
      obtain ⟨source, -, hr⟩ := exists_of_bind_eq_ok hr
      exact h.adopt (Source.built_excerpt hr)
  | .lastRow _ | .position .. | .positions _ | .offset .. | .rowText .. | .rowTexts _ |
    .showExcerpt .. | .printExcerpt .. => keepsBuilt_ask _

/-- **Whatever a command does**, the lines of the session came about as lines do. -/
theorem keepsBuilt_perform : ∀ c : Command, KeepsBuilt (perform c)
  | .line c => keepsBuilt_performLine c
  | .report c => keepsBuilt_performReport c
  | .source c => keepsBuilt_performSource c

theorem built_runAll : ∀ (cs : List Command) {s : Session}, s.space.Built →
    (s.runAll cs).2.space.Built
  | [], _, h => h
  | c :: rest, s, h => built_runAll rest (keepsBuilt_perform c s h)

/-- **No decoration of a session is misplaced**: whatever its commands are, all spans on all of its
lines begin on the text or behind it, and do not end before they begin. -/
theorem proper_of_runAll (cs : List Command) :
    ∀ l ∈ (({} : Session).runAll cs).2.space.lines,
      (∀ t ∈ l.tints, t.Proper) ∧ ∀ u ∈ l.underlines, u.Proper := by
  have hempty : ({} : Session).space.Built := nofun
  exact fun l hl => (built_runAll cs hempty l hl).proper

/-- The coloured text of any line of a session. -/
theorem showText_of_runAll (cs : List Command) :
    ∀ l ∈ (({} : Session).runAll cs).2.space.lines, l.showText true =
      (l.text.zipIdx.flatMap fun p => Tint.codesAt l.showing p.2 ++ [p.1]) ++
        Tint.ending (l.showing.filter fun t => (l.text.length : Int) ≤ t.stop) :=
  fun l hl => Line.showText_eq_codes fun t ht => ((proper_of_runAll cs l hl).1 t ht).1

end Session

end Marginalia
