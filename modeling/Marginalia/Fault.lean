import Marginalia.Value

/-!
# Faults

Every way in which an operation refuses its arguments, by cause, and the one place where a cause is
put into words. Numbers of more than `digitLimit` digits are never written: `Text.decimalsExcess?`
tells of them wherever numbers are to be put into words, and a cause in whose words one would stand
is met as `numberTooLong`.
-/

namespace Marginalia

/-- What things of some kinds have and others lack. -/
inductive Feature where
  | text
  | append
  | upperCase
  | numbered
  deriving DecidableEq, Repr

/-- The name of a feature in messages. -/
def Feature.name : Feature → String
  | text => "_text"
  | append => "concat"
  | upperCase => "upper"
  | numbered => "numbered"

/-- Why an operation was refused. -/
inductive Fault where
  /-- An underline that would collide with one already on the line. -/
  | overlap (start stop : Int)
  /-- A span that is reversed or begins before the text. -/
  | badSpan (start stop : Int) (length : Nat)
  /-- Something that is no span where one belongs, as it is written, with the numbers in it. -/
  | notASpan (written : Text) (numbers : List Int)
  /-- A range that goes nowhere. -/
  | zeroStep
  /-- Something that is no whole number where a range needs one. -/
  | notAWhole (got : Kind)
  /-- A line number below zero. -/
  | negativeLineNumber (number : Int)
  /-- Something that is no text where a new line needs one. -/
  | notAText (got : Kind)
  /-- Something that is neither text nor line where a report needs content. -/
  | notContent (got : Kind)
  /-- A sum or difference of things that have none. -/
  | notCombinable (sign : Char) (left right : Kind)
  /-- Something appended to a text or list that is of another kind. -/
  | notAlike (kind got : Kind)
  /-- Something that lacks a feature that is asked of it. -/
  | lacks (got : Kind) (feature : Feature)
  /-- Something that cannot be looked up where a name belongs. -/
  | notAName (got : Kind)
  /-- A line-break convention that there is not, as it is written, with the numbers in it. -/
  | unknownConvention (written : Text) (numbers : List Int)
  /-- An offset that is not within the text. -/
  | offsetOutside (offset : Int)
  /-- A line number that no line of the text has. -/
  | noSuchLine (row : Int)
  /-- A column past the end of its line; columns are counted from one in messages. -/
  | noSuchColumn (row column : Int)
  /-- A character encoding that there is not. -/
  | unknownEncoding (name : Text)
  /-- Something that is no text where an encoding is named. -/
  | notAnEncoding (got : Kind)
  /-- A path with a NUL in it. -/
  | nulInPath
  /-- The name of an encoding with a NUL in it. -/
  | nulInEncoding
  /-- A name that nothing is stored under. -/
  | unboundName (name : String)
  /-- A position beyond the blocks of a report. -/
  | noSuchBlock (index : Int)
  /-- Something to be written more often than can be counted. -/
  | countBeyondIndex
  /-- A text with more characters than can be counted. -/
  | lengthBeyondIndex
  /-- A text that there is no room for. -/
  | outOfMemory
  /-- A number with more digits than are ever written. -/
  | numberTooLong
  deriving DecidableEq, Repr

namespace Fault

private def shown (n : Int) : Text := Text.decimal n

private def kindShown (k : Kind) : Text := "<class '".toList ++ k.name.toList ++ "'>".toList

private def beyondIndex : Text := "cannot fit 'int' into an index-sized integer".toList

/-- A fault in words. -/
def message : Fault → Text
  | overlap start stop =>
    "Overlapping underlines are not supported: [".toList ++ shown start ++ ", ".toList ++
      shown stop ++ [')']
  | badSpan start stop length =>
    "Bad span [".toList ++ shown start ++ ", ".toList ++ shown stop ++
      ") for text of length ".toList ++ shown length
  | notASpan written _ => "Expected a slice or range, got ".toList ++ written
  | zeroStep => "range() arg 3 must not be zero".toList
  | notAWhole got =>
    '\'' :: got.name.toList ++ "' object cannot be interpreted as an integer".toList
  | negativeLineNumber number =>
    "Line number should not be negative: ".toList ++ shown number
  | notAText got => "AnnotatedLine wants a str, not ".toList ++ kindShown got
  | notContent got => "Expected a str or AnnotatedLine, got ".toList ++ kindShown got
  | notCombinable sign left right =>
    "unsupported operand type(s) for ".toList ++ sign :: ": '".toList ++ left.name.toList ++
      "' and '".toList ++ right.name.toList ++ ['\'']
  | notAlike kind got =>
    "can only concatenate ".toList ++ kind.name.toList ++ " (not \"".toList ++ got.name.toList ++
      "\") to ".toList ++ kind.name.toList
  | lacks got feature =>
    '\'' :: got.name.toList ++ "' object has no attribute '".toList ++ feature.name.toList ++ ['\'']
  | notAName got => "unhashable type: '".toList ++ got.name.toList ++ ['\'']
  | unknownConvention written _ => "Unknown line-break mode ".toList ++ written
  | offsetOutside offset => "Offset ".toList ++ shown offset ++ " is outside the text.".toList
  | noSuchLine row => "There is no line ".toList ++ shown row ++ ['.']
  | noSuchColumn row column =>
    "Line ".toList ++ shown row ++ " has no column ".toList ++ shown (column + 1) ++ ['.']
  | unknownEncoding name => "unknown encoding: ".toList ++ name
  | notAnEncoding got =>
    "open() argument 'encoding' must be str or None, not ".toList ++ got.name.toList
  | nulInPath => "embedded null byte".toList
  | nulInEncoding => "embedded null character".toList
  | unboundName name => Text.quoted name.toList
  | noSuchBlock index =>
    if -Text.indexLimit - 1 ≤ index ∧ index ≤ Text.indexLimit then "tuple index out of range".toList
    else beyondIndex
  | countBeyondIndex => beyondIndex
  | lengthBeyondIndex => "repeated string is too long".toList
  | outOfMemory => []
  | numberTooLong =>
    "Exceeds the limit (".toList ++ Text.digits Text.digitLimit ++
      " digits) for integer string conversion; ".toList ++
      "use sys.set_int_max_str_digits() to increase the limit".toList

/-- The numbers that stand in the words of a fault. -/
def numbers : Fault → List Int
  | overlap start stop => [start, stop]
  | badSpan start stop length => [start, stop, length]
  | notASpan _ numbers => numbers
  | negativeLineNumber number => [number]
  | unknownConvention _ numbers => numbers
  | offsetOutside offset => [offset]
  | noSuchLine row => [row]
  | noSuchColumn row column => [row, column + 1]
  | _ => []

end Fault

/-- What is too much about a number that is to be written. -/
def Text.decimalExcess? (n : Int) : Option Fault :=
  if digitLimit < digitCount n then some .numberTooLong else none

/-- What is too much about some numbers that are to be written. -/
def Text.decimalsExcess? (ns : List Int) : Option Fault := ns.findSome? decimalExcess?

namespace Fault

/-- The fault that is met where one is to be put into words: itself, unless a number in its words is
too long. -/
def uttered (fault : Fault) : Fault := (Text.decimalsExcess? fault.numbers).getD fault

/-- Refuses something for a fault. -/
def refuse {α : Type} (fault : Fault) : Except Fault α := .error fault.uttered

/-- Something that is refused if there is a fault. -/
def check : Option Fault → Except Fault Unit
  | some fault => .error fault
  | none => .ok ()

/-- The fault lies in the value of an argument. That is worth telling to whoever chose the value;
all other faults are mistakes in the call itself. -/
def isOfValue : Fault → Bool
  | overlap .. | badSpan .. | notASpan .. | negativeLineNumber _ | unknownConvention ..
  | offsetOutside _ | noSuchLine _ | noSuchColumn .. => true
  | _ => false

end Fault

end Marginalia
