import Marginalia.Fault
import Marginalia.Source.Convention

/-!
# Sources

A source is a text (or a section of one) with the convention that cuts it into lines. Its lines are
numbered from `firstRow` on, its offsets from zero, and the columns of a line from zero as well.
`Source.position` goes from an offset to a line and column, `Source.offset` the other way.
-/

namespace Marginalia

/-- A line of a source with the break that ends it; the last line has none. -/
structure SourceLine where
  text : Text := []
  ending : Text := []
  deriving DecidableEq, Repr

/-- A text to be cut into lines, for which there is room as for any text. -/
structure Source where
  content : Text
  convention : Convention := .normal
  filename : Option Text := none
  firstRow : Int := 1
  fits : content.length ≤ Text.lengthLimit := by decide
  deriving DecidableEq, Repr

/-- A line number and a column. -/
structure Position where
  row : Int
  column : Int
  deriving DecidableEq, Repr

namespace SourceLine

/-- How much of the source the line takes up, its ending included. -/
def extent (l : SourceLine) : Nat := l.text.length + l.ending.length

/-- The line with one character more in front. -/
def cons (c : Char) (l : SourceLine) : SourceLine := { l with text := c :: l.text }

end SourceLine

namespace Convention

/-- The lines of a text, of which there is always one at least. -/
def cut (k : Convention) : Text → List SourceLine
  | [] => [{}]
  | [c] => if c ∈ k.singles then [{ ending := [c] }, {}] else [{ text := [c] }]
  | c :: d :: rest =>
    if k.pair ∧ c = '\r' ∧ d = '\n' then { ending := [c, d] } :: cut k rest
    else if c ∈ k.singles then { ending := [c] } :: cut k (d :: rest)
    else (cut k (d :: rest)).modifyHead (.cons c)

end Convention

namespace Source

/-- A source whose convention is given by name. -/
def make (content : Text) (breaks : Value) (filename : Option Text) (firstRow : Int) :
    Except Fault Source := do
  let k ← Convention.ofValue breaks
  if fits : content.length ≤ Text.lengthLimit then
    return { content := content, convention := k, filename := filename, firstRow := firstRow
             fits := fits }
  else throw .outOfMemory

/-- The lines of a source. -/
def lines (s : Source) : List SourceLine := s.convention.cut s.content

/-- The number of the last line. -/
def lastRow (s : Source) : Int := s.firstRow + s.lines.length - 1

/-- The place of an offset among some lines: how many of them end before it, and how far it is from
the end of those. Whatever lies beyond the last line is counted from the start of that line. -/
def seek : List SourceLine → Nat → Nat × Nat
  | l :: next :: rest, offset =>
    if offset < l.extent then (0, offset)
    else
      let (row, column) := seek (next :: rest) (offset - l.extent)
      (row + 1, column)
  | _, offset => (0, offset)

/-- The line and column of an offset, which may be the one just past the end. -/
def position (s : Source) (offset : Int) : Except Fault Position :=
  if 0 ≤ offset ∧ offset ≤ s.content.length then
    let (row, column) := seek s.lines offset.toNat
    .ok ⟨s.firstRow + row, column⟩
  else Fault.refuse (.offsetOutside offset)

/-- How many lines come before the one with a number, if there is such a line. -/
def index? (s : Source) (row : Int) : Option Nat :=
  if s.firstRow ≤ row ∧ row ≤ s.lastRow then some (row - s.firstRow).toNat else none

/-- The text of a line by its number, without its ending. -/
def rowText (s : Source) (row : Int) : Except Fault Text :=
  match s.index? row with
  | some i => .ok (s.lines.getD i {}).text
  | none => Fault.refuse (.noSuchLine row)

/-- The texts of all lines in order. -/
def rowTexts (s : Source) : List Text := s.lines.map (·.text)

/-- All lines in order, with their numbers. -/
def numbered (s : Source) : List (Int × Text) :=
  s.rowTexts.zipIdx.map fun (t, i) => (s.firstRow + i, t)

/-- How much of a source some lines take up. -/
def size (ls : List SourceLine) : Nat := ls.foldr (·.extent + ·) 0

/-- Where the line starts that comes after a number of others. -/
def startOf (s : Source) (i : Nat) : Nat := size (s.lines.take i)

/-- The offset of a line and column. The column may be that just past the end of the line. -/
def offset (s : Source) (row column : Int) : Except Fault Int := do
  let text ← s.rowText row
  if 0 ≤ column ∧ column ≤ text.length then
    return s.startOf (row - s.firstRow).toNat + column
  else Fault.refuse (.noSuchColumn row column)

/-- The first columns of a line, so many of them. -/
def columns (row : Int) (count : Nat) : List Position :=
  (List.range count).map fun column : Nat => ⟨row, column⟩

/-- The lines and columns of all offsets among some lines, the first of which has the number `row`;
that past the end is the last. -/
def positionsFrom (row : Int) : List SourceLine → List Position
  | [] => []
  | [l] => columns row (l.extent + 1)
  | l :: rest => columns row l.extent ++ positionsFrom (row + 1) rest

/-- The lines and columns of all offsets in order, that past the end included. -/
def positions (s : Source) : List Position := positionsFrom s.firstRow s.lines

end Source

end Marginalia
