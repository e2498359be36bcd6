import Marginalia.Line.Basic
import Marginalia.Line.Row

/-!
# The underline row of a line

All underlines of a line share one row, cell for cell beneath the text. In order of their starts,
each gives way to the next one where that one begins, and those left without a cell are not drawn.
The code of an underline sits before the last blank of the gap in front of it, or right before its
first glyph when it has no gap in front or nothing is drawn before it.
-/

namespace Marginalia

namespace Pen

/-- The pieces that draw the first `width` cells. -/
def stroke (p : Pen) (width : Int) : Row :=
  if width ≤ 0 then [] else [.glyphs p.head, .run p.fill (width - 1)]

/-- The glyphs of the first `width` cells. -/
def draw (p : Pen) (width : Int) : Text := (p.stroke width).emit false

end Pen

namespace UnderlineRow

/-- Underlines, each with the position where it ends or gives way to the next. -/
def giveWay : List Underline → List (Underline × Int)
  | [] => []
  | [u] => [(u, u.stop)]
  | u :: v :: rest => (u, min u.stop v.start) :: giveWay (v :: rest)

/-- The gap in front of an underline and the code that begins it. -/
def lead (u : Underline) (gap : Int) (drawn : Bool) : Row :=
  if drawn ∧ gap ≠ 0 then [.leadIn gap u.on] else [Row.gap gap, .on u.on]

/-- The pieces of the row from `column` on; `drawn` says whether some underline is drawn before. -/
def paint : List (Underline × Int) → (column : Int) → (drawn : Bool) → Row
  | [], _, _ => []
  | (u, stop) :: rest, column, drawn =>
    if stop ≤ u.start then paint rest column drawn
    else
      lead u (u.start - column) drawn ++ u.stroke (stop - u.start) ++
        .off u.off :: paint rest stop true

end UnderlineRow

/-- The row of a line that shows its underlines. -/
def Line.underlineRow (l : Line) : Row :=
  UnderlineRow.paint (UnderlineRow.giveWay (inOrder (·.start) l.underlines)) 0 false

end Marginalia
