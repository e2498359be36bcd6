import Marginalia.Line.Row

/-!
# Rows as tokens, and the terminal that shows them

A row that is written with its codes is a stream of tokens: cells, each with the glyph in it, and
between them the codes. Without its codes the same row is its cells alone. A `Terminal` shows a
stream: a code that switches a style on adds to those in force, and a code that switches one off
resets them all.

Results:
* `Row.emit_true`, `Row.emit_false`: the text of a row is the text of its tokens, or of its cells.
* `Terminal.play_append`: a stream is shown part by part.
-/

namespace Marginalia

/-- A part of a row as it is written: the glyph of a cell, or a code that takes up no cell. -/
inductive Token where
  | cell (glyph : Text)
  | on (code : Text)
  | off (code : Text)
  deriving DecidableEq, Repr

namespace Token

/-- The text of a token. -/
def text : Token → Text
  | cell glyph => glyph
  | on code => code
  | off code => code

/-- The glyph of a cell; a code has none. -/
def glyph? : Token → Option Text
  | cell glyph => some glyph
  | _ => none

end Token

/-- The tokens of a piece. A gap with a code has it before the last of its blanks. -/
def Piece.tokens : Piece → List Token
  | glyphs t => [.cell t]
  | run t times => List.replicate times.toNat (.cell t)
  | leadIn width code => List.replicate (width - 1).toNat (.cell [' ']) ++ [.on code, .cell [' ']]
  | on code => [.on code]
  | off code => [.off code]

/-- The glyphs of a piece, cell by cell. -/
def Piece.cells (p : Piece) : List Text := p.tokens.filterMap Token.glyph?

namespace Row

/-- The tokens of a row, from left to right. -/
def tokens (row : Row) : List Token := row.flatMap Piece.tokens

/-- The glyphs of a row, cell by cell. -/
def cells (row : Row) : List Text := (tokens row).filterMap Token.glyph?

theorem emit_cons (colored : Bool) (p : Piece) (row : Row) :
    emit colored (p :: row) = p.emit colored ++ emit colored row := List.flatMap_cons

theorem emit_append (colored : Bool) (row rest : Row) :
    emit colored (row ++ rest) = emit colored row ++ emit colored rest := List.flatMap_append

theorem tokens_cons (p : Piece) (row : Row) : tokens (p :: row) = p.tokens ++ tokens row :=
  List.flatMap_cons

theorem tokens_append (row rest : Row) : tokens (row ++ rest) = tokens row ++ tokens rest :=
  List.flatMap_append

@[simp] theorem cells_nil : cells [] = [] := rfl

@[simp] theorem cells_cons (p : Piece) (row : Row) : cells (p :: row) = p.cells ++ cells row := by
  rw [cells, tokens_cons, List.filterMap_append]
  rfl

@[simp] theorem cells_append (row rest : Row) : cells (row ++ rest) = cells row ++ cells rest := by
  rw [cells, tokens_append, List.filterMap_append]
  rfl

end Row

theorem blanks_eq_flatten (n : Int) :
    Text.blanks n = (List.replicate n.toNat [' ']).flatten := by
  rw [Text.blanks, List.flatten_replicate_singleton]

/-- A gap is one blank and as many before it as are left. -/
theorem blanks_eq_append {n : Int} (h : 0 < n) : Text.blanks n = Text.blanks (n - 1) ++ [' '] := by
  rw [Text.blanks, Text.blanks, show n.toNat = (n - 1).toNat + 1 by omega, List.replicate_succ']

namespace Piece

/-- If the piece is a gap with a code in it, there is a blank that the code stands before. -/
def HasSeat : Piece → Prop
  | leadIn width _ => 0 < width
  | _ => True

/-! The cells of each sort of piece. -/

@[simp] theorem cells_glyphs (t : Text) : (glyphs t).cells = [t] := rfl

@[simp] theorem cells_run (t : Text) (times : Int) :
    (run t times).cells = List.replicate times.toNat t :=
  List.filterMap_replicate_of_some rfl

@[simp] theorem cells_leadIn (width : Int) (code : Text) :
    (leadIn width code).cells = List.replicate (width - 1).toNat [' '] ++ [[' ']] := by
  rw [cells, tokens, List.filterMap_append]
  exact congrArg (· ++ [[' ']]) (cells_run [' '] (width - 1))

@[simp] theorem cells_on (code : Text) : (on code).cells = [] := rfl

@[simp] theorem cells_off (code : Text) : (off code).cells = [] := rfl

/-- A gap is a run of blanks, with colour and without. -/
theorem emit_gap (colored : Bool) (width : Int) :
    (Row.gap width).emit colored = Text.blanks width := by
  rw [Row.gap, emit, Text.repeated_eq_flatten, ← blanks_eq_flatten]

theorem emit_true (p : Piece) : p.emit true = p.tokens.flatMap Token.text := by
  cases p with
  | glyphs t => simp [emit, tokens, Token.text]
  | run t times =>
    simp [emit, tokens, Token.text, Text.repeated_eq_flatten, List.flatMap_def]
  | leadIn width code =>
    simp [emit, tokens, Token.text, blanks_eq_flatten, List.flatMap_def]
  | on code => simp [emit, tokens, Token.text]
  | off code => simp [emit, tokens, Token.text]

theorem emit_false {p : Piece} (h : p.HasSeat) : p.emit false = p.cells.flatten := by
  cases p with
  | glyphs t => simp [emit]
  | run t times => simp [emit, Text.repeated_eq_flatten]
  | leadIn width code => simp [emit, blanks_eq_append h, blanks_eq_flatten]
  | on code => simp [emit]
  | off code => simp [emit]

end Piece

namespace Row

/-- **A coloured row is its tokens, one after the other.** -/
theorem emit_true (row : Row) : row.emit true = row.tokens.flatMap Token.text := by
  induction row with
  | nil => rfl
  | cons p row ih =>
    rw [tokens_cons, List.flatMap_append, ← ih, ← Piece.emit_true]
    rfl

/-- **A plain row is its cells, one after the other.** -/
theorem emit_false {row : Row} (h : ∀ p ∈ row, p.HasSeat) :
    row.emit false = row.cells.flatten := by
  induction row with
  | nil => rfl
  | cons p row ih =>
    rw [List.forall_mem_cons] at h
    rw [cells_cons, List.flatten_append, ← ih h.2, ← Piece.emit_false h.1]
    rfl

end Row

/-- A terminal: the glyphs it has shown, each with the codes that were in force, and the codes that
are in force now. -/
structure Terminal where
  shown : List (Text × List Text) := []
  active : List Text := []
  deriving DecidableEq, Repr

namespace Terminal

/-- What a token does to a terminal. Closing any style resets all of them. -/
def feed (t : Terminal) : Token → Terminal
  | .cell glyph => { t with shown := t.shown ++ [(glyph, t.active)] }
  | .on code => { t with active := t.active ++ [code] }
  | .off _ => { t with active := [] }

/-- Shows a stream of tokens. -/
def play (t : Terminal) (tokens : List Token) : Terminal := tokens.foldl feed t

theorem play_append (t : Terminal) (tokens rest : List Token) :
    t.play (tokens ++ rest) = (t.play tokens).play rest :=
  List.foldl_append

end Terminal

end Marginalia
