import Marginalia.Span
import Marginalia.Style

/-!
# Tints and underlines

The two sorts of decoration that a line carries. A tint puts one code before the first of its
characters and another after the last. An underline draws glyphs beneath its characters with a
`Pen`, and may carry a hint that stands on a row of its own.
-/

namespace Marginalia

/-- A stretch of text between two codes. -/
structure Tint extends Span where
  on : Text
  off : Text := Style.reset
  deriving DecidableEq, Repr

/-- How underlines are drawn: the glyph of each cell, that of the first cell if it is another one,
and the codes before and after. -/
structure Pen where
  fill : Text := Style.plainFill
  tip : Option Text := none
  on : Text := []
  off : Text := Style.reset
  deriving DecidableEq, Repr

/-- A stretch of text drawn beneath, with the hint that explains it. -/
structure Underline extends Span, Pen where
  hint : Text := []
  deriving DecidableEq, Repr

namespace Pen

/-- The glyph of the first cell. -/
def head (p : Pen) : Text := p.tip.getD p.fill

/-- The underline that the pen draws beneath a span. -/
def beneath (p : Pen) (s : Span) (hint : Text := []) : Underline :=
  { s, p with hint := hint }

end Pen

namespace Tint

/-- The tint moved to the right. -/
def shift (t : Tint) (offset : Int) : Tint := { t with toSpan := t.toSpan.shift offset }

end Tint

namespace Underline

/-- The underline moved to the right. -/
def shift (u : Underline) (offset : Int) : Underline := { u with toSpan := u.toSpan.shift offset }

end Underline

section Order

variable {α : Type} (start : α → Int)

/-- Puts an item in front of the first that does not start before it. -/
def insertInOrder (a : α) : List α → List α
  | [] => [a]
  | b :: rest => if start a ≤ start b then a :: b :: rest else b :: insertInOrder a rest

/-- Items in the order of their starts; those that start together keep their order. -/
def inOrder (items : List α) : List α := items.foldr (insertInOrder start) []

end Order

end Marginalia
