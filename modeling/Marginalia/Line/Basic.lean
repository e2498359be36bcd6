import Marginalia.Fault
import Marginalia.Severity

/-!
# Annotated lines

A `Line` is one text that never changes, the decorations hung on it, and the number it bears in a
report. `Line.annotate` hangs on one decoration more or refuses it; `Line.append` joins two lines.
-/

namespace Marginalia

/-- A text with its decorations, each sort in the order in which they came, and its number in a
report. The number shows only if the line is `numbered`. -/
structure Line where
  text : Text
  numbered : Bool := false
  number : Int := 1
  tints : List Tint := []
  underlines : List Underline := []
  deriving DecidableEq, Repr

/-- Where on a line a decoration belongs: the whole line, from one position to another (each may be
left open), from one to another in steps, or something that is no place at all. Steps may be of any
length and either direction, which makes no difference, but there has to be one. -/
inductive Place where
  | whole
  | within (start stop : Option Int)
  | stepping (start stop step : Option Int)
  | stray (got : Value)
  deriving Repr

/-- One decoration to be hung on a line. -/
inductive Annotation where
  | tint (place : Place) (on : Text) (off : Text)
  | underline (place : Place) (pen : Pen) (hint : Text)
  deriving Repr

namespace Line

/-- A span that may stand on a line: one that neither is reversed nor begins before the text. -/
def accept (l : Line) (s : Span) : Except Fault Span :=
  if s.start < 0 ∨ s.stop < s.start then Fault.refuse (.badSpan s.start s.stop l.text.length)
  else .ok s

/-- The span that a place stands for on a line. It may reach past the end of the text. -/
def locate (l : Line) : Place → Except Fault Span
  | .whole => .ok ⟨0, l.text.length⟩
  | .within start stop => l.accept ⟨start.getD 0, stop.getD l.text.length⟩
  | .stepping (some start) (some stop) (some step) =>
    if step = 0 then .error .zeroStep else l.accept ⟨start, stop⟩
  | .stepping .. => .error (.notAWhole .null)
  | .stray got => Fault.refuse (.notASpan got.written got.numbers)

/-- The line with one tint more. -/
def pushTint (l : Line) (t : Tint) : Line := { l with tints := l.tints ++ [t] }

/-- The line with one underline more. -/
def pushUnderline (l : Line) (u : Underline) : Line :=
  { l with underlines := l.underlines ++ [u] }

/-- The line with one decoration more. An underline is refused if it would collide with another. -/
def annotate (l : Line) : Annotation → Except Fault Line
  | .tint place on off => do
    let s ← l.locate place
    return l.pushTint { s with on := on, off := off }
  | .underline place pen hint => do
    let s ← l.locate place
    if l.underlines.any fun u => s.Collides u.toSpan then
      Fault.refuse (.overlap s.start s.stop)
    else return l.pushUnderline (pen.beneath s hint)

/-- Two lines joined: the marks of the right one move along with its text, and the number is that of
the left one. Collisions between the two are not looked for. -/
def append (l r : Line) : Line :=
  { l with
    text := l.text ++ r.text
    tints := l.tints ++ r.tints.map (·.shift l.text.length)
    underlines := l.underlines ++ r.underlines.map (·.shift l.text.length) }

instance : Append Line := ⟨append⟩

/-- A numbered line with a text and nothing else. -/
def ofText (t : Text) : Line := { text := t, numbered := true }

/-- Some decoration is an underline. -/
def isUnderlined (l : Line) : Bool := !l.underlines.isEmpty

/-- Some underline has a hint. -/
def hasHints (l : Line) : Bool := l.underlines.any fun u => !u.hint.isEmpty

end Line

/-- Something that can be added up: a text or a line. -/
inductive Summand where
  | text (t : Text)
  | line (l : Line)
  deriving DecidableEq, Repr

namespace Summand

/-- The sum of two summands: texts make a text, and a line makes a line of whatever it is added to.
A text in front of a line becomes a numbered line first. -/
def add : Summand → Summand → Summand
  | text t, text u => text (t ++ u)
  | line l, text t => line (l ++ { text := t })
  | text t, line l => line (Line.ofText t ++ l)
  | line l, line r => line (l ++ r)

end Summand

end Marginalia
