import Marginalia.Report.Layout
import Marginalia.Source.Basic

/-!
# Excerpts

A remark about one spot of a source is laid out as a report: a header with line and column, the line
of the spot with some lines around it, and a mark beneath the spot, which goes no further than the
end of its first line.
-/

namespace Marginalia

/-- Something to be said about a spot in a source, and how it is to be shown: how many lines around
it, in colour or not, and with which caption at the mark. -/
structure Remark where
  spot : Span
  message : Text
  severity : Severity := .error
  context : Int := 0
  color : Bool := false
  caption : Text := []
  deriving DecidableEq, Repr

/-- The part of a line that a mark of some width covers from a column on: at least one cell, and no
more than the line has left. -/
def Line.reach (l : Line) (column width : Int) : Span :=
  ⟨column, column + max 1 (min width (l.text.length - column))⟩

/-- The mark of a severity beneath a part of a line. -/
def Severity.mark (sev : Severity) (s : Span) (caption : Text) : Annotation :=
  .underline (.within (some s.start) (some s.stop)) sev.pen caption

namespace Source

/-- The header of an excerpt. Columns are counted from one. -/
def header (s : Source) (here : Position) (message : Text) : Text :=
  (match s.filename with
    | none => "At".toList
    | some name => name ++ [':']) ++
  " line ".toList ++ Text.decimal here.row ++
  ", column ".toList ++ Text.decimal (here.column + 1) ++ ": ".toList ++ message

/-- The lines with their numbers that are shown with a line of the source: those no more than some
lines away from it. -/
def window (s : Source) (row context : Int) : List (Int × Text) :=
  s.numbered.filter fun (r, _) => row - context ≤ r ∧ r ≤ row + context

/-- Appends a line of the source, with the mark if it is the line of the spot. -/
def showLine (m : Remark) (here : Position) (r : Report Line) (row : Int × Text) :
    Except Fault (Report Line) :=
  let l : Line := { text := row.2 }
  let r := r.addLine l
  if row.1 = here.row then
    r.annotateLast (m.severity.mark (l.reach here.column m.spot.width) m.caption)
  else .ok r

/-- The report of a remark. -/
def excerpt (s : Source) (m : Remark) : Except Fault (Report Line) := do
  let here ← s.position m.spot.start
  Fault.check (Text.decimalsExcess? [here.row, here.column + 1])
  let r : Report Line := { color := m.color }
  let r := r.addNote { text := s.header here m.message }
  let r ← r.jump (max s.firstRow (here.row - m.context))
  (s.window here.row m.context).foldlM (showLine m here) r

end Source

end Marginalia
