import Marginalia.Line.Picture
import Marginalia.Source.Excerpt

/-!
# Commands and answers

What a session can be told to do with lines, reports and sources, and what it answers. All three go
by name; an operand is a named line, a text, or something of another kind.
-/

namespace Marginalia

/-- Something to be appended or added up. -/
inductive Operand where
  | line (name : String)
  | text (t : Text)
  | other (kind : Kind)
  deriving DecidableEq, Repr

/-- Something to be done with lines. -/
inductive LineCommand where
  /-- Makes a line with a text. -/
  | new (saveAs : Option String) (text : Value) (numbered : Bool) (number : Int)
  /-- Hangs a decoration on a line. -/
  | annotate (line : String) (a : Annotation)
  /-- Sets the number fields of a line, or one of them. -/
  | renumber (line : String) (numbered : Option Bool) (number : Option Int)
  /-- Makes a line that is an operand with another behind it. -/
  | append (left right : Operand) (saveAs : Option String)
  /-- Makes a line that is the sum of two operands. -/
  | add (left right : Operand) (saveAs : Option String)
  /-- Tells all that a line holds. -/
  | inspect (line : String)
  /-- Tells what a line is called. -/
  | label (line : String)
  /-- Shows a line on its own. -/
  | picture (line : String)
  /-- Shows the rows of a line without colour and with it. -/
  | compare (line : String)
  /-- Shows the rows of a line as they are unless told otherwise. -/
  | present (line : String)
  deriving Repr

/-- Something to be done with reports. -/
inductive ReportCommand where
  /-- Makes a report. -/
  | new (saveAs : String) (color indentAll : Bool)
  /-- Turns the colour of a report on or off. -/
  | setColor (report : String) (flag : Bool)
  /-- Turns the indentation of unnumbered blocks on or off. -/
  | setIndent (report : String) (flag : Bool)
  /-- Moves the cursor of a report. -/
  | jump (report : String) (target : Int) (tellSkip : Bool)
  /-- Appends an operand without a number. -/
  | addNote (report : String) (content : Operand) (saveAs : Option String)
  /-- Appends an operand with the next number. -/
  | addLine (report : String) (content : Operand) (saveAs : Option String)
  /-- Appends several operands with the next numbers. -/
  | addLines (report : String) (contents : List Operand) (saveAs : List String)
  /-- Tells where a report stands. -/
  | status (report : String)
  /-- Tells all that the blocks of a report hold. -/
  | blocks (report : String)
  /-- Names a block of a report, counted from the end when the index is negative. -/
  | block (report : String) (index : Int) (saveAs : String)
  /-- Shows a report. -/
  | render (report : String)
  deriving DecidableEq, Repr

/-- Something to be done with sources. -/
inductive SourceCommand where
  /-- Makes a source. -/
  | new (saveAs : String) (content : Text) (breaks : Value) (filename : Option Text)
    (firstRow : Int)
  /-- Tells the number of the last line. -/
  | lastRow (source : String)
  /-- Tells the line and column of an offset. -/
  | position (source : String) (offset : Int)
  /-- Tells the lines and columns of all offsets. -/
  | positions (source : String)
  /-- Tells the offset of a line and column. -/
  | offset (source : String) (row column : Int)
  /-- Tells the text of a line. -/
  | rowText (source : String) (row : Int)
  /-- Tells the texts of all lines. -/
  | rowTexts (source : String)
  /-- Makes a report that is an excerpt. -/
  | excerpt (source : String) (remark : Remark) (saveAs : String)
  /-- Shows an excerpt. -/
  | showExcerpt (source : String) (remark : Remark)
  /-- Prints an excerpt. -/
  | printExcerpt (source : String) (remark : Remark)
  deriving Repr

/-- One thing to be done. -/
inductive Command where
  | line (c : LineCommand)
  | report (c : ReportCommand)
  | source (c : SourceCommand)
  deriving Repr

/-- The rows of a line, and its picture. -/
structure View where
  text : Text
  underline : Text
  hints : List Text
  picture : Text
  deriving DecidableEq, Repr

/-- Where a report stands: its cursor and the number of its blocks. -/
structure Status where
  cursor : Int
  blocks : Nat
  deriving DecidableEq, Repr

/-- What a session answers to a command. -/
inductive Answer where
  | nothing
  /-- A new line, or one with new number fields. -/
  | line (l : Line)
  /-- The very line that was given, decorated. -/
  | sameLine (l : Line)
  /-- All that a line holds. -/
  | content (l : Line)
  /-- All that some lines hold. -/
  | contents (ls : List Line)
  /-- A line without colour and with it. -/
  | views (plain colored : View)
  /-- A line. -/
  | view (v : View)
  /-- Where a report stands. -/
  | status (s : Status)
  /-- What was appended, and whether it is the very line that was given. -/
  | appended (l : Line) (s : Status) (same : Bool)
  /-- The numbers of what was appended. -/
  | numbered (s : Status) (numbers : List Int)
  | text (t : Text)
  | texts (ts : List Text)
  | number (n : Int)
  | position (p : Position)
  | positions (ps : List Position)
  /-- A text that was printed, without the line feed at its end. -/
  | printed (t : Text)
  deriving DecidableEq, Repr

/-- An answer with the warnings that were given on the way. -/
structure Reply where
  answer : Answer
  warnings : List Backwards := []
  deriving DecidableEq, Repr

namespace Line

/-- The rows of a line, with codes or without. -/
def view (l : Line) (colored : Bool) : View :=
  { text := l.showText colored
    underline := l.showUnderline colored
    hints := l.showHints colored
    picture := l.picture colored }

/-- Rows are coloured unless told otherwise, and pictures are not. -/
def defaultView (l : Line) : View := { l.view true with picture := l.picture false }

end Line

/-- Where a report stands. -/
def Report.status {β : Type} (r : Report β) : Status := ⟨r.numbering.cursor, r.blocks.length⟩

end Marginalia
