import Marginalia.Fault
import Marginalia.Line.Picture

/-!
# What can be written

Spans may lie as far to the right as they like and numbers may be of any size, but rows and numbers
have to be written. Each `excess?` tells, without writing anything, what is too much about something
that cannot be; of several things in a row it tells about the first.

Out of scope: a machine that runs short of room before lengths can no longer be counted, and pieces
each of which can be written but not all of them in one row.
-/

namespace Marginalia

namespace Text

/-- What is too much about a text that is repeated: the times that it is, or the characters. -/
def excess? (t : Text) (times : Int) : Option Fault :=
  if indexLimit < times then some .countBeyondIndex
  else if indexLimit < t.length * times then some .lengthBeyondIndex
  else if t.lengthLimitOf < t.length * times then some .outOfMemory
  else none

end Text

/-- What is too much about a piece. A code divides the gap that it leads in to. -/
def Piece.excess? (colored : Bool) : Piece → Option Fault
  | run t times => t.excess? times
  | leadIn width _ => Text.excess? [' '] (if colored then width - 1 else width)
  | _ => none

/-- What is too much about a row. -/
def Row.excess? (colored : Bool) (row : Row) : Option Fault := row.findSome? (·.excess? colored)

/-- The glyphs of the first `width` cells, if they can be written. -/
def Pen.draw? (p : Pen) (width : Int) : Except Fault Text :=
  match (p.stroke width).excess? false with
  | some fault => .error fault
  | none => .ok (p.draw width)

namespace Line

/-- What is too much about the rows beneath a line. -/
def rowExcess? (l : Line) (colored : Bool) : Option Fault :=
  (l.underlineRow :: l.hintRows).findSome? (·.excess? colored)

/-- What is too much about a line with its number if it has one. -/
def excess? (l : Line) (colored : Bool) : Option Fault :=
  (if l.numbered then Text.decimalExcess? l.number else none).or (l.rowExcess? colored)

end Line

end Marginalia
