import Marginalia.Fault

/-!
# Line-break conventions

What ends a line: certain single characters, and under some conventions a carriage return together
with the line feed after it. Where such a pair is a break, it is one break and never two.
-/

namespace Marginalia

/-- What ends a line. -/
structure Convention where
  /-- A carriage return with a line feed after it is one break. -/
  pair : Bool
  /-- The single characters that are breaks. -/
  singles : List Char
  deriving DecidableEq, Repr

namespace Convention

/-- The breaks of every common system. -/
def normal : Convention := ⟨true, ['\r', '\n']⟩

/-- All mandatory breaks of Unicode, and the separators of ASCII that act as such. -/
def unicode : Convention :=
  ⟨true, ['\n', '\x0b', '\x0c', '\r', '\x1c', '\x1d', '\x1e', '\u0085', '\u2028', '\u2029']⟩

/-- Line feeds alone. -/
def unix : Convention := ⟨false, ['\n']⟩

/-- Carriage returns alone. -/
def apple : Convention := ⟨false, ['\r']⟩

/-- Carriage returns with a line feed after them, and nothing else. -/
def dos : Convention := ⟨true, []⟩

/-- The conventions by name. -/
def byName : List (String × Convention) :=
  [("normal", normal), ("unicode", unicode), ("unix", unix), ("apple", apple), ("dos", dos)]

/-- The convention of a name. -/
def named? (name : Text) : Option Convention := byName.lookup (String.ofList name)

/-- The convention that a value names. Lists and records cannot even be looked up. -/
def ofValue : Value → Except Fault Convention
  | .text name => (named? name).elim (Fault.refuse (.unknownConvention (Text.quoted name) [])) .ok
  | .list _ => .error (.notAName .list)
  | .record _ => .error (.notAName .record)
  | v => Fault.refuse (.unknownConvention v.written v.numbers)

end Convention

end Marginalia
