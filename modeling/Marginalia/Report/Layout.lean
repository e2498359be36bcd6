import Marginalia.Line.Extent
import Marginalia.Report.Basic

/-!
# The layout of a report

Numbered lines stand to the right of a gutter that the whole report shares. It is as wide as the sum
of the first number and the cursor has digits, and one blank more: an estimate of the largest number
in the report that does not change with what stands in between.
-/

namespace Marginalia

namespace Report

/-- The number of the first numbered block, or one. -/
def firstNumber (r : Report Line) : Int :=
  match r.blocks.find? (·.numbered) with
  | some l => l.number
  | none => 1

/-- The width of the gutter up to its separator. -/
def gutterWidth (r : Report Line) : Int :=
  1 + Text.digitCount (r.firstNumber + r.numbering.cursor)

/-- A number at the left end of the gutter. -/
def gutter (r : Report Line) (number : Text) : Text :=
  number ++ Text.blanks (r.gutterWidth - number.length) ++ Style.separator

/-- The rows of a block: its text behind the gutter, and beneath it underlines and hints as far to
the right. A block without a number is its text alone, behind an empty gutter if so set. -/
def blockRows (r : Report Line) (l : Line) : List Text :=
  let text := l.showText r.color
  if l.numbered then
    let indent := Text.blanks (r.gutterWidth + Style.separator.length)
    (r.gutter (Text.decimal l.number) ++ text) :: (l.beneath r.color).map (indent ++ ·)
  else if r.indentAll then [r.gutter [] ++ text]
  else [text]

/-- The rows of a report, from top to bottom. -/
def rows (r : Report Line) : List Text := r.blocks.flatMap r.blockRows

/-- The text of a report. -/
def render (r : Report Line) : Text := Text.stack r.rows

/-- What is too much about a report: the number that its gutter is measured by, or else one of its
numbered lines. -/
def excess? (r : Report Line) : Option Fault :=
  (Text.decimalExcess? (r.firstNumber + r.numbering.cursor)).or
    ((r.blocks.filter (·.numbered)).findSome? (·.excess? r.color))

/-- The text of a report, if it can be written. -/
def render? (r : Report Line) : Except Fault Text := do
  Fault.check r.excess?
  return r.render

end Report

end Marginalia
