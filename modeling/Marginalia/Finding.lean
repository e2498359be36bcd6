import Marginalia.Source.Excerpt

/-!
# Findings

A finding is one problem with evidence in several places, possibly of several sources. Each source
gets a report of its own with the evidence in order of position. Evidence on one line shares the
underline row, unless the marks would collide: then the line is shown once more.
-/

namespace Marginalia

/-- A spot that bears on a finding, with what is to be said of it. -/
structure Evidence where
  spot : Span
  caption : Text := "here".toList
  deriving DecidableEq, Repr

/-- One problem: what was being done when it was found, how bad it is, what it is, and the evidence
for it in each of the sources, which are given by keys. -/
structure Finding (κ : Type) where
  activity : Text
  severity : Severity
  summary : Text
  evidence : List (κ × List Evidence)
  deriving DecidableEq, Repr

/-- A report under construction, with the number of the latest line shown in it. -/
structure Draft where
  report : Report Line
  row : Option Int := none
  deriving DecidableEq, Repr

namespace Draft

/-- Makes sure that the latest line is the one with the number. -/
def turnTo (d : Draft) (s : Source) (row : Int) : Except Fault Draft :=
  if d.row = some row then .ok d
  else do
    let r ← d.report.jump row
    return { report := r.addLine { text := ← s.rowText row }, row := some row }

/-- The latest line. -/
def latest (d : Draft) : Line := d.report.blocks.getLast?.getD { text := [] }

/-- Hangs a mark on the latest line, or if it would collide there, on that line's bare text shown
once more with the same number. -/
def mark (d : Draft) (row : Int) (a : Annotation) : Except Fault Draft :=
  match d.report.annotateLast a with
  | .ok r => .ok { d with report := r }
  | .error (.overlap ..) => do
    let r ← d.report.jump row false
    return { d with report := ← (r.addLine { text := d.latest.text }).annotateLast a }
  | .error e => .error e

/-- Shows a piece of evidence. -/
def add (sev : Severity) (s : Source) (d : Draft) (e : Evidence) : Except Fault Draft := do
  let here ← s.position e.spot.start
  let d ← d.turnTo s here.row
  d.mark here.row (sev.mark (d.latest.reach here.column e.spot.width) e.caption)

end Draft

namespace Source

/-- The row that says which file an excerpt is from; there is none without a file name. -/
def fileNote (s : Source) : Option Line :=
  match s.filename with
  | none | some [] => none
  | some name => some { text := "Excerpt from ".toList ++ name ++ " :".toList }

/-- The report of the evidence in one source. -/
def evidenceReport (s : Source) (sev : Severity) (color : Bool) (pieces : List Evidence) :
    Except Fault (Report Line) := do
  let r : Report Line := { color := color }
  let r := s.fileNote.elim r r.addNote
  let d ← (inOrder (·.spot.start) pieces).foldlM (Draft.add sev s) { report := r }
  return d.report

end Source

namespace Finding

variable {κ : Type}

/-- The first row of a finding's report. -/
def headline (f : Finding κ) : Text :=
  f.severity.title.toList ++ " while ".toList ++ f.activity ++ ": ".toList ++ f.summary

/-- The report of what is known from the source of one key. -/
def report (f : Finding κ) (fetch : κ → Except Fault Source) (color : Bool)
    (known : κ × List Evidence) : Except Fault (Report Line) := do
  (← fetch known.1).evidenceReport f.severity color known.2

/-- The reports of a finding, one for each source, in the order of the keys. -/
def reports (f : Finding κ) (fetch : κ → Except Fault Source) (color : Bool) :
    Except Fault (List (Report Line)) :=
  f.evidence.mapM (f.report fetch color)

/-- The text of a finding: the headline and below it those of its reports that show anything. -/
def assemble (f : Finding κ) (rs : List (Report Line)) : Text :=
  Text.stack (f.headline :: (rs.filter fun r => !r.blocks.isEmpty).map (·.render))

/-- The reports of a finding, each of which can be written. -/
def reports? (f : Finding κ) (fetch : κ → Except Fault Source) (color : Bool) :
    Except Fault (List (Report Line)) :=
  f.evidence.mapM fun known => do
    let r ← f.report fetch color known
    Fault.check r.excess?
    return r

/-- The widths of all pieces of evidence, key by key. -/
def widths (f : Finding κ) : List (List Int) :=
  f.evidence.map fun (_, pieces) => pieces.map (·.spot.width)

end Finding

end Marginalia
