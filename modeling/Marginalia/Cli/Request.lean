import Marginalia.Fault
import Marginalia.Severity

/-!
# Requests

What the command line asks for, the switches that say so, and the ways in which a command line can
be refused.
-/

namespace Marginalia.Cli

/-- What a switch is set to. The setting is blank if all that stands for its value is the mark `--`
that ends the switches; then it counts as an empty list, which is of use only as a message. -/
inductive Setting (α : Type) where
  | value (a : α)
  | blank
  deriving DecidableEq, Repr

namespace Setting

variable {α : Type}

/-- The value of a setting, or the fault of using it when it is blank. -/
def get (s : Setting α) (fault : Fault) : Except Fault α :=
  match s with
  | value a => .ok a
  | blank => .error fault

/-- The text of a setting that is only shown. -/
def shown : Setting Text → Text
  | value t => t
  | blank => ['[', ']']

end Setting

/-- What is asked for: a spot in a file, and how it is to be shown. Without a width the mark goes to
the end of the line. -/
structure Request where
  path : Text
  line : Setting Int
  column : Setting Int := .value 1
  width : Option (Setting Int) := none
  message : Setting Text := .value "here".toList
  severity : Setting Severity := .value .error
  context : Setting Int := .value 0
  color : Bool := false
  indentAll : Bool := false
  encoding : Setting Text := .value "utf-8".toList
  deriving DecidableEq, Repr

/-- A switch of the command line. -/
inductive Switch where
  | help
  | line
  | column
  | width
  | message
  | severity
  | context
  | color
  | indentAll
  | encoding
  deriving DecidableEq, Repr

namespace Switch

/-- All switches, in the order in which messages list them. -/
def all : List Switch :=
  [help, line, column, width, message, severity, context, color, indentAll, encoding]

/-- The long form of a switch. -/
def long : Switch → Text
  | help => "--help".toList
  | line => "--line".toList
  | column => "--column".toList
  | width => "--width".toList
  | message => "--message".toList
  | severity => "--severity".toList
  | context => "--context".toList
  | color => "--color".toList
  | indentAll => "--indent-all".toList
  | encoding => "--encoding".toList

/-- The short form of a switch, if it has one. -/
def short? : Switch → Option Text
  | help => some ['-', 'h']
  | line => some ['-', 'l']
  | column => some ['-', 'c']
  | width => some ['-', 'w']
  | message => some ['-', 'm']
  | severity => some ['-', 's']
  | context => some ['-', 'x']
  | color => none
  | indentAll => none
  | encoding => some ['-', 'e']

/-- The switch needs a value. -/
def takesValue : Switch → Bool
  | help | color | indentAll => false
  | _ => true

/-- All forms of a switch, as messages name it. -/
def name (s : Switch) : Text :=
  match s.short? with
  | some short => short ++ '/' :: s.long
  | none => s.long

/-- The switch that a word is a form of. -/
def ofForm? (word : Text) : Option Switch :=
  all.find? fun s => s.long = word ∨ s.short? = some word

/-- The switches whose long form begins with a word. -/
def candidates (word : Text) : List Switch := all.filter fun s => word.isPrefixOf s.long

end Switch

/-- Why a command line is refused. -/
inductive Refusal where
  /-- The user wants to be told what there is. -/
  | helpWanted
  /-- A shortened switch that could be several. -/
  | ambiguous (word : Text) (candidates : List Switch)
  /-- A switch without the value it needs. -/
  | valueMissing (s : Switch)
  /-- A switch with a value that it has no use for. -/
  | valueIgnored (s : Switch) (value : Text)
  /-- A value that is no whole number. -/
  | notANumber (s : Switch) (value : Text)
  /-- A value that is no severity. -/
  | notASeverity (s : Switch) (value : Text)
  /-- No path, or no line number, or neither. -/
  | required (path line : Bool)
  /-- Words that nothing was made of. -/
  | unrecognized (words : List Text)
  deriving DecidableEq, Repr

namespace Refusal

private def commaSeparated (words : List Text) : Text := List.intercalate [',', ' '] words

private def about (s : Switch) (what : Text) : Text :=
  "argument ".toList ++ s.name ++ ": ".toList ++ what

/-- A refusal in words. -/
def reason : Refusal → Text
  | helpWanted => []
  | ambiguous word candidates =>
    "ambiguous option: ".toList ++ word ++ " could match ".toList ++
      commaSeparated (candidates.map (·.long))
  | valueMissing s => about s "expected one argument".toList
  | valueIgnored s value => about s ("ignored explicit argument ".toList ++ Text.quoted value)
  | notANumber s value => about s ("invalid int value: ".toList ++ Text.quoted value)
  | notASeverity s value =>
    about s ("invalid choice: ".toList ++ Text.quoted value ++ " (choose from ".toList ++
      commaSeparated (Severity.all.map fun v => Text.quoted v.word.toList) ++ [')'])
  | required path line =>
    "the following arguments are required: ".toList ++
      commaSeparated ((if path then ["source_path".toList] else []) ++
        (if line then [Switch.line.name] else []))
  | unrecognized words => "unrecognized arguments: ".toList ++ List.intercalate [' '] words

/-- A refusal as it is printed. -/
def message (r : Refusal) : Text := "py -m complaint: error: ".toList ++ r.reason

end Refusal

end Marginalia.Cli
