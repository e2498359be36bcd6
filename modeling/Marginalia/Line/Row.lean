import Marginalia.Line.Mark

/-!
# Rows

A row of a picture, as pieces: glyphs that take up cells, once or many times over, and codes that do
not. The pieces of a row are the same with colour and without; `Row.emit` leaves the codes out when
there is to be none.
-/

namespace Marginalia

/-- A part of a row: glyphs, the same glyphs many times over, a gap with a code before the last of
its blanks, a code that switches a style on, or a code that switches it off. -/
inductive Piece where
  | glyphs (t : Text)
  | run (t : Text) (times : Int)
  | leadIn (width : Int) (code : Text)
  | on (code : Text)
  | off (code : Text)
  deriving DecidableEq, Repr

/-- A row of a picture, from left to right. -/
abbrev Row := List Piece

namespace Piece

/-- What a piece contributes to the text of its row. -/
def emit (colored : Bool) : Piece → Text
  | glyphs t => t
  | run t times => t.repeated times
  | leadIn width code =>
    if colored then Text.blanks (width - 1) ++ code ++ [' '] else Text.blanks width
  | on code => if colored then code else []
  | off code => if colored then code else []

end Piece

namespace Row

/-- A run of blanks. -/
def gap (width : Int) : Piece := .run [' '] width

/-- The text of a row, with its codes or without. -/
def emit (colored : Bool) (row : Row) : Text := row.flatMap (·.emit colored)

/-- The codes that end some styles: one is enough for neighbours that end alike. -/
def closing (codes : List Text) : Row := codes.eraseReps.map .off

end Row

end Marginalia
