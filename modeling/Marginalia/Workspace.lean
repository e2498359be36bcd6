import Marginalia.Report.Basic

/-!
# Workspaces

A workspace holds lines that several reports may share. Lines and reports go by the order in which
they were made, and the blocks of its reports are such references: a change to a line shows in every
report that has it for a block. A report has no line for a block twice; appending one that it
already has appends a copy, so that each block keeps a number of its own.

An `Edit` changes a workspace step by step and may be refused between two steps.
-/

namespace Marginalia

/-- A reference to a line of a workspace. -/
abbrev LineId := Nat

/-- A reference to a report of a workspace. -/
abbrev ReportId := Nat

/-- Lines, and reports whose blocks are references to them. -/
structure Workspace where
  lines : List Line := []
  reports : List (Report LineId) := []
  deriving DecidableEq, Repr

/-- What is handed to a report to be appended. -/
inductive Content where
  | text (t : Text)
  | line (id : LineId)
  | other (kind : Kind)
  deriving DecidableEq, Repr

namespace Workspace

/-- The line of a reference. -/
def line (w : Workspace) (id : LineId) : Line := w.lines.getD id { text := [] }

/-- The report of a reference. -/
def report (w : Workspace) (id : ReportId) : Report LineId := w.reports.getD id {}

/-- The report of a reference with the lines themselves for blocks. -/
def view (w : Workspace) (id : ReportId) : Report Line := (w.report id).map w.line

/-- Makes room for one line more. -/
def newLine (w : Workspace) (l : Line) : Workspace × LineId :=
  ({ w with lines := w.lines ++ [l] }, w.lines.length)

/-- Makes room for one report more. -/
def newReport (w : Workspace) (r : Report LineId) : Workspace × ReportId :=
  ({ w with reports := w.reports ++ [r] }, w.reports.length)

/-- Changes a line. -/
def modifyLine (w : Workspace) (id : LineId) (f : Line → Line) : Workspace :=
  { w with lines := w.lines.modify id f }

/-- Changes a report. -/
def modifyReport (w : Workspace) (id : ReportId) (f : Report LineId → Report LineId) : Workspace :=
  { w with reports := w.reports.modify id f }

/-- Takes in a report of lines: each of its blocks becomes a line of the workspace. -/
def adopt (w : Workspace) (r : Report Line) : Workspace × ReportId :=
  let ids := (List.range r.blocks.length).map (w.lines.length + ·)
  { w with lines := w.lines ++ r.blocks }.newReport
    { color := r.color, indentAll := r.indentAll, numbering := r.numbering,
      blocks := ids, warnings := r.warnings }

end Workspace

/-- Something done to a workspace that may be refused. What was changed before a refusal stays
changed. -/
abbrev Edit := ExceptT Fault (StateM Workspace)

namespace Edit

/-- Makes a line. -/
def newLine (l : Line) : Edit LineId := modifyGet fun w => (w.newLine l).swap

/-- Makes a report. -/
def newReport (r : Report LineId) : Edit ReportId := modifyGet fun w => (w.newReport r).swap

/-- Takes in a report of lines. -/
def adopt (r : Report Line) : Edit ReportId := modifyGet fun w => (w.adopt r).swap

/-- Changes a line. -/
def modifyLine (id : LineId) (f : Line → Line) : Edit Unit := modify (·.modifyLine id f)

/-- Changes a report. -/
def modifyReport (r : ReportId) (f : Report LineId → Report LineId) : Edit Unit :=
  modify (·.modifyReport r f)

/-- Hangs a decoration on a line, unless it has no place there or would collide. -/
def annotate (id : LineId) : Annotation → Edit Unit
  | .tint place on off => do
    let s ← ((← get).line id).locate place
    modifyLine id (·.pushTint { s with on := on, off := off })
  | .underline place pen hint => do
    let l := (← get).line id
    let s ← l.locate place
    if l.underlines.any fun u => s.Collides u.toSpan then
      throw (Fault.overlap s.start s.stop).uttered
    modifyLine id (·.pushUnderline (pen.beneath s hint))

/-- The line that a report is to have for a block: a new one for a text, and a line itself unless
the report has it already, in which case it is a copy. -/
def blockFor (r : ReportId) : Content → Edit LineId
  | .text t => newLine { text := t }
  | .line id => do
    let w ← get
    if id ∈ (w.report r).blocks then newLine (w.line id) else return id
  | .other kind => throw (.notContent kind)

/-- Appends to a report without a number. -/
def addNote (r : ReportId) (c : Content) : Edit LineId := do
  let id ← blockFor r c
  modifyLine id Line.unnumbered
  modifyReport r (·.push id)
  return id

/-- Appends to a report with its next number. -/
def addLine (r : ReportId) (c : Content) : Edit LineId := do
  let id ← blockFor r c
  let number := ((← get).report r).numbering.cursor
  modifyLine id (·.stamped number)
  modifyReport r (·.pushNumbered id)
  return id

/-- Appends to a report one after the other, with its next numbers. -/
def addLines (r : ReportId) : List Content → Edit (List LineId)
  | [] => return []
  | c :: rest => do
    let id ← addLine r c
    return id :: (← addLines r rest)

/-- Moves the cursor of a report to any number that is not negative. Whatever is to be said of it
comes first: the warning that it earns, and a notice of the lines that it leaves out. -/
def jump (r : ReportId) (target : Int) (tellSkip : Bool) : Edit (Option Backwards) := do
  if target < 0 then throw (Fault.negativeLineNumber target).uttered
  let j := ((← get).report r).numbering.leap target tellSkip
  Fault.check j.warningExcess?
  if let some count := j.skipped then
    Fault.check (Text.decimalExcess? count)
    let id ← newLine (Line.skipNotice count)
    modifyReport r (·.push id)
  modifyReport r (·.follow j)
  return j.warning

end Edit

end Marginalia
