import Marginalia.Report.Layout
import Marginalia.Session.Basic
import Marginalia.Session.Command

/-!
# Carrying out commands

`Session.step` carries out one command and `Session.runAll` many. A command that is refused leaves
the session as it was, but for `addLines`, which keeps what it appended before it met something that
it cannot append.
-/

namespace Marginalia

/-- The kind of an operand. -/
def Operand.kind : Operand → Kind
  | .line _ => .line
  | .text _ => .text
  | .other kind => kind

namespace Session

/-- The content that an operand stands for. -/
def contentOf (s : Session) : Operand → Except Fault Content
  | .line name => return .line (← s.lineId name)
  | .text t => return .text t
  | .other kind => return .other kind

/-- The summand that an operand stands for, if it can be one. -/
def summandOf (s : Session) : Operand → Except Fault (Option Summand)
  | .line name => return some (.line (← s.line name))
  | .text t => return some (.text t)
  | .other _ => return none

/-- The line on the left with the line or text on the right behind it. -/
def join (s : Session) (left right : Operand) : Except Fault Line := do
  match left with
  | .line name =>
    let l ← s.line name
    match ← s.summandOf right with
    | some (.line r) => return l ++ r
    | some (.text t) => return l ++ { text := t }
    | none => throw (.lacks right.kind .text)
  | left => throw (.lacks left.kind .append)

/-- Why two operands do not add up to a line. Some add up, but to something that bears no number. -/
def unsummable : (left right : Kind) → Fault
  | .text, .text => .lacks .text .numbered
  | .list, .list => .lacks .list .numbered
  | .text, right => .notAlike .text right
  | .list, right => .notAlike .list right
  | left, right =>
    let whole (k : Kind) : Bool := k = .bool ∨ k = .int
    if whole left ∧ whole right then .lacks .int .numbered
    else if (whole left ∨ left = .number) ∧ (whole right ∨ right = .number) then
      .lacks .number .numbered
    else .notCombinable '+' left right

/-- The sum of two operands, one of them a line. -/
def sum (s : Session) (left right : Operand) : Except Fault Line := do
  match ← s.summandOf left, ← s.summandOf right with
  | some l, some r =>
    match l.add r with
    | .line l => return l
    | .text _ => throw (unsummable .text .text)
  | _, _ => throw (unsummable left.kind right.kind)

/-! ## Lines -/

/-- Makes a line and gives it a name. -/
def makeLine (saveAs : Option String) (l : Line) : Action Reply := do
  let id ← edit (Edit.newLine l)
  nameLine saveAs id
  return { answer := .line l }

/-- Carries out a command about lines. -/
def performLine : LineCommand → Action Reply
  | .new saveAs (.text t) numbered number =>
    makeLine saveAs { text := t, numbered := numbered, number := number }
  | .new _ v _ _ => throw (.notAText v.kind)
  | .annotate line a => do
    let id ← ask (·.lineId line)
    edit (Edit.annotate id a)
    return { answer := .sameLine ((← get).space.line id) }
  | .renumber line numbered number => do
    let id ← ask (·.lineId line)
    edit (Edit.modifyLine id fun l =>
      { l with numbered := numbered.getD l.numbered, number := number.getD l.number })
    return { answer := .line ((← get).space.line id) }
  | .append left right saveAs => do makeLine saveAs (← ask (·.join left right))
  | .add left right saveAs => do makeLine saveAs (← ask (·.sum left right))
  | .inspect line => ask fun s => return { answer := .content (← s.line line) }
  | .label line => ask fun s => return { answer := .text (← s.line line).label }
  | .picture line =>
    ask fun s => do
      let l ← s.line line
      Fault.check (l.excess? false)
      return { answer := .text (l.picture false) }
  | .compare line =>
    ask fun s => do
      let l ← s.line line
      Fault.check ((l.rowExcess? false).or ((l.excess? false).or (l.rowExcess? true)))
      return { answer := .views (l.view false) (l.view true) }
  | .present line =>
    ask fun s => do
      let l ← s.line line
      Fault.check ((l.rowExcess? true).or (l.excess? false))
      return { answer := .view l.defaultView }

/-! ## Reports -/

/-- The block of a report at an index, counted from the end when it is negative. -/
def blockAt (r : Report LineId) (index : Int) : Except Fault LineId :=
  let i := if index < 0 then index + r.blocks.length else index
  match if i < 0 then none else r.blocks[i.toNat]? with
  | some id => .ok id
  | none => .error (.noSuchBlock index)

/-- Appends an operand to a report in some way and gives a name to what it was appended as. -/
def addOperand (add : ReportId → Content → Edit LineId) (report : String) (content : Operand)
    (saveAs : Option String) : Action Reply := do
  let r ← ask (·.reportId report)
  let c ← ask (·.contentOf content)
  let id ← edit (add r c)
  nameLine saveAs id
  let w := (← get).space
  return { answer := .appended (w.line id) (w.report r).status (c = .line id) }

/-- Carries out a command about reports. -/
def performReport : ReportCommand → Action Reply
  | .new saveAs color indentAll => do
    let r ← edit (Edit.newReport { color := color, indentAll := indentAll })
    nameReport saveAs r
    return { answer := .status ((← get).space.report r).status }
  | .setColor report flag => do
    let r ← ask (·.reportId report)
    edit (Edit.modifyReport r fun r => { r with color := flag })
    return { answer := .nothing }
  | .setIndent report flag => do
    let r ← ask (·.reportId report)
    edit (Edit.modifyReport r fun r => { r with indentAll := flag })
    return { answer := .nothing }
  | .jump report target tellSkip => do
    let r ← ask (·.reportId report)
    let warning ← edit (Edit.jump r target tellSkip)
    return { answer := .status ((← get).space.report r).status, warnings := warning.toList }
  | .addNote report content saveAs => addOperand Edit.addNote report content saveAs
  | .addLine report content saveAs => addOperand Edit.addLine report content saveAs
  | .addLines report contents saveAs => do
    let r ← ask (·.reportId report)
    let cs ← ask fun s => contents.mapM s.contentOf
    let ids ← edit (Edit.addLines r cs)
    (saveAs.zip ids).forM fun (name, id) => nameLine (some name) id
    let w := (← get).space
    return { answer := .numbered (w.report r).status (ids.map fun id => (w.line id).number) }
  | .status report =>
    ask fun s => return { answer := .status (s.space.report (← s.reportId report)).status }
  | .blocks report =>
    ask fun s => return { answer := .contents (s.space.view (← s.reportId report)).blocks }
  | .block report index saveAs => do
    let r ← ask (·.reportId report)
    let id ← ask fun s => blockAt (s.space.report r) index
    nameLine (some saveAs) id
    return { answer := .line ((← get).space.line id) }
  | .render report =>
    ask fun s => do return { answer := .text (← (s.space.view (← s.reportId report)).render?) }

/-! ## Sources -/

/-- The excerpt of a named source. It is a report of its own until it is taken in. -/
def excerpt (s : Session) (source : String) (remark : Remark) : Except Fault (Report Line) := do
  (← s.source source).excerpt remark

/-- Carries out a command about sources. -/
def performSource : SourceCommand → Action Reply
  | .new saveAs content breaks filename firstRow => do
    let source ← Source.make content breaks filename firstRow
    nameSource saveAs source
    return { answer := .nothing }
  | .lastRow source => ask fun s => return { answer := .number (← s.source source).lastRow }
  | .position source offset =>
    ask fun s => do return { answer := .position (← (← s.source source).position offset) }
  | .positions source =>
    ask fun s => return { answer := .positions (← s.source source).positions }
  | .offset source row column =>
    ask fun s => do return { answer := .number (← (← s.source source).offset row column) }
  | .rowText source row =>
    ask fun s => do return { answer := .text (← (← s.source source).rowText row) }
  | .rowTexts source => ask fun s => return { answer := .texts (← s.source source).rowTexts }
  | .excerpt source remark saveAs => do
    let report ← ask (·.excerpt source remark)
    let r ← edit (Edit.adopt report)
    nameReport saveAs r
    return { answer := .status report.status, warnings := report.warnings }
  | .showExcerpt source remark =>
    ask fun s => do return { answer := .text (← (← s.excerpt source remark).render?) }
  | .printExcerpt source remark =>
    ask fun s => do return { answer := .printed (← (← s.excerpt source remark).render?) }

/-! ## All commands -/

/-- Carries out a command. -/
def perform : Command → Action Reply
  | .line c => performLine c
  | .report c => performReport c
  | .source c => performSource c

/-- Carries out one command: the reply or the fault, and the session after it. -/
def step (s : Session) (c : Command) : Except Fault Reply × Session := (perform c).run.run s

/-- Carries out commands one after the other, whether or not some of them are refused. -/
def runAll (s : Session) : List Command → List (Except Fault Reply) × Session
  | [] => ([], s)
  | c :: rest =>
    let (reply, s) := s.step c
    let (replies, s) := s.runAll rest
    (reply :: replies, s)

/-- Carries out commands up to the first that is refused. -/
def follow (s : Session) : List Command → Except Fault Session
  | [] => .ok s
  | c :: rest =>
    match s.step c with
    | (.ok _, s) => s.follow rest
    | (.error e, _) => .error e

/-- The text of a report that commands build up from nothing, in a session that has only this report
and calls it by `name`. -/
def compose (name : String) (color indentAll : Bool) (commands : List Command) :
    Except Fault Text := do
  let made := ({} : Workspace).newReport { color := color, indentAll := indentAll }
  let s ← ({ space := made.1, reports := [(name, made.2)] } : Session).follow commands
  (s.space.view made.2).render?

end Session

end Marginalia
