import Marginalia.Cli.Request
import Marginalia.Text.Numeral

/-!
# Command-line arguments

Arguments are first sorted into switches and values (`Token.ofWord`) and then gone through from left
to right. A switch takes the value joined to it, or else the next argument, which must be a value;
a joined value that is `--` leaves the switch blank. What is joined to the short switch for help is
more short switches.
The first value that no switch takes is the path. A bare `--` makes values of all that follow; it is
passed over where the path is being waited for or has just been met, and not recognized elsewhere.
Faults of single arguments come first, then missing arguments, then unrecognized ones.
-/

namespace Marginalia.Cli

/-- What an argument is: a value, a switch with the value joined to it if there is one, the short
switch for help with others behind it, something that looks like a switch and is none, or the end of
all switches. -/
inductive Token where
  | value (word : Text)
  | switch (s : Switch) (joined : Option Text)
  | cluster (others : Text)
  | stranger (word : Text)
  | terminator
  deriving DecidableEq, Repr

namespace Token

/-- A word cut at its first equals sign. -/
def cutAtEquals (word : Text) : Text × Option Text :=
  match word.dropWhile (· ≠ '=') with
  | [] => (word, none)
  | _ :: behind => (word.takeWhile (· ≠ '='), some behind)

/-- Digits, at least one of them. -/
def isDigits (t : Text) : Bool := !t.isEmpty && t.all fun c => (Text.digitValue? c).isSome

/-- What follows a minus sign makes a negative number: digits, or a point with digits behind it and
perhaps in front. A line feed at the end does not count. -/
def isMagnitude (t : Text) : Bool :=
  let t := if t.getLast? = some '\n' then t.dropLast else t
  let fraction := (t.dropWhile (· ≠ '.')).drop 1
  let whole := t.takeWhile (· ≠ '.')
  isDigits t || (isDigits fraction && (whole.isEmpty || isDigits whole))

/-- A word that begins like a switch and is none: negative numbers and words with a blank in them
are values after all. -/
def ofStranger (word : Text) : Token :=
  if isMagnitude (word.drop 1) || word.contains ' ' then .value word else .stranger word

/-- A word that begins with two hyphens: a long switch may be shortened as far as it stays the only
one, with a value after an equals sign. -/
def ofLong (word : Text) : Except Refusal Token :=
  let (front, joined) := cutAtEquals word
  match Switch.candidates front with
  | [] => .ok (ofStranger word)
  | [s] => .ok (.switch s joined)
  | several => .error (.ambiguous word several)

/-- A switch in one of its forms with something joined to it. -/
def ofJoined (s : Switch) (form joined : Text) : Token :=
  if s = .help ∧ s.short? = some form ∧ joined ≠ [] then .cluster joined
  else .switch s (some joined)

/-- A word that begins with one hyphen: a short switch may have its value joined to it. -/
def ofShort (word : Text) : Token :=
  match Switch.ofForm? (word.take 2) with
  | some s => ofJoined s (word.take 2) (word.drop 2)
  | none => ofStranger word

/-- Sorts an argument. -/
def ofWord (word : Text) : Except Refusal Token :=
  match word with
  | '-' :: c :: _ =>
    match Switch.ofForm? word, cutAtEquals word with
    | some s, _ => .ok (.switch s none)
    | none, (front, some joined) =>
      match Switch.ofForm? front with
      | some s => .ok (ofJoined s front joined)
      | none => if c = '-' then ofLong word else .ok (ofShort word)
    | none, (_, none) => if c = '-' then ofLong word else .ok (ofShort word)
  | _ => .ok (.value word)

/-- Sorts all arguments up to the terminator; those behind it are values. -/
def ofWords : List Text → Except Refusal (List Token)
  | [] => .ok []
  | word :: rest =>
    if word = ['-', '-'] then .ok (.terminator :: rest.map .value)
    else do
      let token ← ofWord word
      return token :: (← ofWords rest)

end Token

/-- What has been gathered from the arguments so far. -/
structure Gathered where
  path : Option Text := none
  line : Option (Setting Int) := none
  rest : Request := { path := [], line := .blank }
  strangers : List Text := []
  deriving DecidableEq, Repr

namespace Gathered

/-- Reads a setting that is a number. -/
def number (s : Switch) (value : Text) : Except Refusal (Setting Int) :=
  if value = ['-', '-'] then .ok .blank
  else
    match Text.readInt? value with
    | some n => .ok (.value n)
    | none => .error (.notANumber s value)

/-- Reads a setting that is a severity. -/
def severity (s : Switch) (value : Text) : Except Refusal (Setting Severity) :=
  if value = ['-', '-'] then .ok .blank
  else
    match Severity.all.find? fun v => v.word.toList = value with
    | some v => .ok (.value v)
    | none => .error (.notASeverity s value)

/-- Reads a setting that is any text. -/
def text (value : Text) : Setting Text := if value = ['-', '-'] then .blank else .value value

/-- Takes in a switch with its value. -/
def setValue (g : Gathered) (s : Switch) (value : Text) : Except Refusal Gathered :=
  match s with
  | .line => do return { g with line := some (← number s value) }
  | .column => do return { g with rest := { g.rest with column := ← number s value } }
  | .width => do return { g with rest := { g.rest with width := some (← number s value) } }
  | .message => .ok { g with rest := { g.rest with message := text value } }
  | .severity => do return { g with rest := { g.rest with severity := ← severity s value } }
  | .context => do return { g with rest := { g.rest with context := ← number s value } }
  | .encoding => .ok { g with rest := { g.rest with encoding := text value } }
  | .help | .color | .indentAll => .error (.valueIgnored s value)

/-- Takes in a switch that needs no value. -/
def setFlag (g : Gathered) (s : Switch) : Except Refusal Gathered :=
  match s with
  | .help => .error .helpWanted
  | .color => .ok { g with rest := { g.rest with color := true } }
  | .indentAll => .ok { g with rest := { g.rest with indentAll := true } }
  | s => .error (.valueMissing s)

/-- Why short switches behind that for help lead nowhere. The first of them that is none, or that
lacks a value, counts; `valueNext` says whether a value follows. If there is no such switch, help is
what was wanted. -/
def refuseCluster (valueNext : Bool) : Text → Refusal
  | [] => .helpWanted
  | c :: rest =>
    match Switch.ofForm? ['-', c] with
    | none => .valueIgnored .help (c :: rest)
    | some s =>
      if s.takesValue then if rest.isEmpty && !valueNext then .valueMissing s else .helpWanted
      else refuseCluster valueNext rest

/-- Takes in something that cannot be made anything of. -/
def setAside (g : Gathered) (word : Text) : Gathered :=
  { g with strangers := g.strangers ++ [word] }

/-- Goes through all arguments. -/
def take : List Token → Gathered → Except Refusal Gathered
  | [], g => .ok g
  | .value word :: .terminator :: rest, g =>
    if g.path.isNone then take rest { g with path := some word }
    else take rest ((g.setAside word).setAside ['-', '-'])
  | .value word :: rest, g =>
    if g.path.isNone then take rest { g with path := some word } else take rest (g.setAside word)
  | .terminator :: .value word :: rest, g =>
    if g.path.isNone then take rest { g with path := some word }
    else take rest ((g.setAside ['-', '-']).setAside word)
  | .terminator :: rest, g => take rest (g.setAside ['-', '-'])
  | .stranger word :: rest, g => take rest (g.setAside word)
  | .cluster others :: rest, _ =>
    let valueNext := match rest with
      | .value _ :: _ => true
      | _ => false
    .error (refuseCluster valueNext others)
  | .switch s (some value) :: rest, g => do take rest (← g.setValue s value)
  | .switch s none :: rest, g =>
    if s.takesValue then
      match rest with
      | .value word :: rest => do take rest (← g.setValue s word)
      | _ => .error (.valueMissing s)
    else do take rest (← g.setFlag s)

/-- The request that all arguments make, if nothing is missing and nothing is left over. -/
def finish (g : Gathered) : Except Refusal Request :=
  match g.path, g.line with
  | some path, some line =>
    if g.strangers.isEmpty then .ok { g.rest with path := path, line := line }
    else .error (.unrecognized g.strangers)
  | path, line => .error (.required path.isNone line.isNone)

end Gathered

/-- Reads a command line. -/
def Request.ofArguments (words : List Text) : Except Refusal Request := do
  let tokens ← Token.ofWords words
  let g ← Gathered.take tokens {}
  g.finish

end Marginalia.Cli
