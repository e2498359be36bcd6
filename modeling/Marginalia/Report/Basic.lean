import Marginalia.Line.Basic
import Marginalia.Report.Numbering

/-!
# Reports

A report is a sequence of blocks, some with a line number and some without, together with the
numbering and the settings for its display. The blocks are lines, or references to lines that
several reports may share; what appends to a report of lines is `Report.addNote`, `Report.addLine`
and `Report.jump`.
-/

namespace Marginalia

/-- A report with blocks of some kind, and the warnings given while it was built. -/
structure Report (β : Type) where
  color : Bool := false
  indentAll : Bool := false
  numbering : Numbering := {}
  blocks : List β := []
  warnings : List Backwards := []
  deriving DecidableEq, Repr

namespace Line

/-- The line as a block without a number. -/
def unnumbered (l : Line) : Line := { l with numbered := false }

/-- The line as a block with a number. -/
def stamped (l : Line) (number : Int) : Line := { l with numbered := true, number := number }

/-- The block that tells of skipped lines. -/
def skipNotice (count : Int) : Line := { text := Style.skipNotice count }

end Line

namespace Report

variable {β : Type}

/-- Puts a block at the end. -/
def push (r : Report β) (b : β) : Report β := { r with blocks := r.blocks ++ [b] }

/-- Puts a block at the end that takes the next number. -/
def pushNumbered (r : Report β) (b : β) : Report β :=
  { r with blocks := r.blocks ++ [b], numbering := r.numbering.advance }

/-- Takes over what a jump leads to, its notice aside. -/
def follow (r : Report β) (j : Jump) : Report β :=
  { r with numbering := j.numbering, warnings := r.warnings ++ j.warning.toList }

/-- The same report with other blocks in the place of its own. -/
def map {γ : Type} (f : β → γ) (r : Report β) : Report γ := { r with blocks := r.blocks.map f }

/-- Appends a line without a number. -/
def addNote (r : Report Line) (l : Line) : Report Line := r.push l.unnumbered

/-- Appends a line with the next number. -/
def addLine (r : Report Line) (l : Line) : Report Line :=
  r.pushNumbered (l.stamped r.numbering.cursor)

/-- Moves the cursor, after a notice of the lines that this leaves out. -/
def jump (r : Report Line) (target : Int) (tellSkip : Bool := true) :
    Except Fault (Report Line) := do
  let j ← r.numbering.jump target tellSkip
  return { r with blocks := r.blocks ++ (j.skipped.map Line.skipNotice).toList }.follow j

/-- Hangs a decoration on the last block. -/
def annotateLast (r : Report Line) (a : Annotation) : Except Fault (Report Line) :=
  match r.blocks.getLast? with
  | none => .ok r
  | some l => do return { r with blocks := r.blocks.dropLast ++ [← l.annotate a] }

end Report

end Marginalia
