import Marginalia.Line.TextRow
import Marginalia.Line.UnderlineRow
import Marginalia.Text.Decimal

/-!
# The picture of a line

The rows that show one line: its text, the underlines beneath it if there are any to be seen, and a
row for each hint. `Line.picture` is what stands for a line that is shown on its own.
-/

namespace Marginalia

/-- The row of a hint, which begins under the first cell of its underline. -/
def Underline.hintRow (u : Underline) : Row :=
  [Row.gap u.start, .on u.on, .glyphs u.hint, .off u.off]

namespace Line

/-- The hints of a line, a row for each, in order of the underlines they belong to. -/
def hintRows (l : Line) : List Row :=
  ((inOrder (·.start) l.underlines).filter fun u => !u.hint.isEmpty).map (·.hintRow)

/-- The text of the text row. -/
def showText (l : Line) (colored : Bool) : Text := l.textRow.emit colored

/-- The text of the underline row, empty when no underline is drawn. -/
def showUnderline (l : Line) (colored : Bool) : Text := l.underlineRow.emit colored

/-- The texts of the hint rows. -/
def showHints (l : Line) (colored : Bool) : List Text := l.hintRows.map (·.emit colored)

/-- The rows beneath the text: the underlines if any is to be seen, then the hints. -/
def beneath (l : Line) (colored : Bool) : List Text :=
  let underline := l.showUnderline colored
  (if underline.isEmpty then [] else [underline]) ++ l.showHints colored

/-- What stands before the text of a line that is shown on its own. -/
def gutter (l : Line) : Text :=
  if l.numbered then Text.decimal l.number ++ ' ' :: Style.separator else []

/-- A line on its own: the number if it has one, the text, and the rows beneath. -/
def picture (l : Line) (colored : Bool) : Text :=
  let indent := Text.blanks l.gutter.length
  Text.stack ((l.gutter ++ l.showText colored) :: (l.beneath colored).map (indent ++ ·))

/-- What a line is called in a log: its text, quoted, in angle brackets. -/
def label (l : Line) : Text :=
  "<AnnotatedLine ".toList ++ Text.quoted l.text ++ ['>']

end Line

end Marginalia
