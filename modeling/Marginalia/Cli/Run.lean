import Marginalia.Cli.Arguments
import Marginalia.Cli.Entry
import Marginalia.Source.Excerpt
import Marginalia.Text.Encoding

/-!
# Carrying out a request

The file is looked up and decoded, its line breaks are made all alike, and the excerpt is printed.
Where paths lead and which codecs there are is given by the system.
Whatever goes wrong on the way is one message on standard error, and nothing is printed. Only a
mistake in the call itself, such as an encoding that there is not or a blank setting that has to be
used, and a number too long to be written end the run as a fault.

Out of scope: in which encoding the output is written and what may go wrong there, the text that
tells of the usage, and any fault of a codec but that the bytes are no text, which is passed on as
it is.
-/

namespace Marginalia.Cli

/-- What a run leaves behind: its exit status and what it printed. -/
structure Outcome where
  status : Nat
  output : Text := []
  errors : Text := []
  deriving DecidableEq, Repr

namespace Outcome

/-- A run that printed a text. -/
def success (t : Text) : Outcome := { status := 0, output := t ++ ['\n'] }

/-- A run that failed for a reason. -/
def failure (reason : Text) : Outcome := { status := 1, errors := reason ++ ['\n'] }

/-- A run that was refused for the way it was called. -/
def refused (r : Refusal) : Outcome :=
  match r with
  | .helpWanted => { status := 0 }
  | r => { status := 2, errors := r.message }

end Outcome

/-- The message about a path that cannot be read. -/
def unreadable (path : Text) (code : Nat) (reason : Text) : Text :=
  "[Errno ".toList ++ Text.digits code ++ "] ".toList ++ reason ++ ": ".toList ++ Text.quoted path

namespace Request

/-- The source that a decoded file makes. -/
def source (r : Request) (decoded : Stored) : Source :=
  { content := decoded.1.unifyBreaks, filename := some r.path
    fits := Nat.le_trans (Text.length_unifyBreaks_le decoded.1) decoded.2 }

/-- The remark that a request makes about a source. The spot is looked for before any setting is
used that does not help to find it. -/
def remark (r : Request) (s : Source) : Except Fault Remark := do
  let column ← r.column.get (.notCombinable '-' .list .int)
  let line ← r.line.get (.notCombinable '-' .list .int)
  let start ← s.offset line (column - 1)
  let text ← s.rowText line
  let remaining : Int := text.length - (column - 1)
  let width ← (r.width.getD (.value remaining)).get (.notCombinable '+' .int .list)
  let severity ← r.severity.get (.lacks .list .upperCase)
  let context ← r.context.get (.notCombinable '-' .int .list)
  return { spot := ⟨start, start + width⟩, message := r.message.shown, severity := severity,
           context := context, color := r.color }

/-- The report that a request asks for. -/
def report (r : Request) (s : Source) : Except Fault (Report Line) := do
  let report ← s.excerpt (← r.remark s)
  return { report with indentAll := r.indentAll }

/-- What comes of a request for a file with a given content. A report that cannot be written is no
fault in the value of an argument, nor is a number that is too long, and both end the run as
well. -/
def display (r : Request) (decoded : Stored) : Except Fault Outcome :=
  match r.report (r.source decoded) with
  | .ok report => return .success (← report.render?)
  | .error fault =>
    if fault.isOfValue then .ok (.failure fault.message) else .error fault

/-- Carries out a request for something that has been found. -/
def runOn (r : Request) (codecs : Text → Option Codec) (encoding : Text) :
    Entry → Except Fault Outcome
  | .unreadable code reason => .ok (.failure (unreadable r.path code reason))
  | .file bytes =>
    match codecs encoding with
    | none => .error (.unknownEncoding encoding)
    | some codec =>
      match codec bytes with
      | .text decoded => r.display decoded
      | .garbled reason => .ok (.failure reason)
      | .fault fault => .error fault

/-- Carries out a request, given the codecs by name and what paths lead to. -/
def run (r : Request) (codecs : Text → Option Codec) (find : Text → Entry) :
    Except Fault Outcome := do
  let encoding ← r.encoding.get (.notAnEncoding .list)
  if encoding.contains '\x00' then throw .nulInEncoding
  if r.path.contains '\x00' then throw .nulInPath
  r.runOn codecs encoding (find r.path)

end Request

/-- Carries out a command line, given the codecs by name and what paths lead to. -/
def run (codecs : Text → Option Codec) (find : Text → Entry) (words : List Text) :
    Except Fault Outcome :=
  match Request.ofArguments words with
  | .error refusal => .ok (.refused refusal)
  | .ok r => r.run codecs find

end Marginalia.Cli
