import Marginalia.Line.Basic
import Marginalia.Line.Row

/-!
# The text row of a line

The text with the codes of its tints. Ending any tint may reset the terminal altogether, so after
some tints have ended the codes of those still open are given again. `TextRow.scan` walks along the
text with the tints that are open and those still to come.
-/

namespace Marginalia

namespace TextRow

/-- The tints that show on a text of the given length: those that are not empty and begin on it, in
order of their starts. -/
def visible (tints : List Tint) (length : Nat) : List Tint :=
  (inOrder (·.start) tints).filter fun t => t.start < t.stop ∧ t.start < length

/-- The codes that begin some tints. -/
def opening (tints : List Tint) : Row := tints.map fun t => .on t.on

/-- The codes that end some tints. -/
def closing (tints : List Tint) : Row := Row.closing (tints.map (·.off))

/-- The pieces of a text from position `i` on. At each position the tints that stop there are ended,
and if there were any the `opened` ones that go on are begun again; then the next of the `coming`
ones begin; then stands the character. All that are still open are ended behind the last one. -/
def scan : Text → Int → (opened coming : List Tint) → Row
  | [], _, opened, _ => closing opened
  | c :: rest, i, opened, coming =>
    let ended := opened.filter (·.stop = i)
    let kept := opened.filter (·.stop ≠ i)
    let begun := coming.takeWhile (·.start = i)
    closing ended ++ (if ended.isEmpty then [] else opening kept) ++ opening begun ++
      .glyphs [c] :: scan rest (i + 1) (kept ++ begun) (coming.dropWhile (·.start = i))

end TextRow

/-- The row of a line that shows its text. -/
def Line.textRow (l : Line) : Row :=
  TextRow.scan l.text 0 [] (TextRow.visible l.tints l.text.length)

end Marginalia
