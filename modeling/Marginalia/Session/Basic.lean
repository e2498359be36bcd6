import Marginalia.Source.Basic
import Marginalia.Workspace

/-!
# Sessions

A session is a workspace with names for its lines and reports, and for sources. An `Action` is
something done to a session step by step that may be refused between two steps: it looks things up,
edits the workspace, and gives names to what was made.
-/

namespace Marginalia

/-- Names for things of one sort; of several things under one name the latest counts. -/
abbrev Names (α : Type) := List (String × α)

namespace Names

variable {α : Type}

/-- Stores a thing under a name, if there is a name to store it under. -/
def bind (names : Names α) (name : Option String) (a : α) : Names α :=
  match name with
  | some name => (name, a) :: names
  | none => names

/-- The thing of a name. -/
def find (names : Names α) (name : String) : Except Fault α :=
  match names.lookup name with
  | some a => .ok a
  | none => .error (.unboundName name)

end Names

/-- A workspace and the names in use. -/
structure Session where
  space : Workspace := {}
  lines : Names LineId := []
  reports : Names ReportId := []
  sources : Names Source := []
  deriving DecidableEq, Repr

/-- Something done to a session that may be refused. What was changed before a refusal stays
changed. -/
abbrev Action := ExceptT Fault (StateM Session)

namespace Session

/-- The reference of a named line. -/
def lineId (s : Session) (name : String) : Except Fault LineId := s.lines.find name

/-- The reference of a named report. -/
def reportId (s : Session) (name : String) : Except Fault ReportId := s.reports.find name

/-- A named line. -/
def line (s : Session) (name : String) : Except Fault Line := return s.space.line (← s.lineId name)

/-- A named source. -/
def source (s : Session) (name : String) : Except Fault Source := s.sources.find name

/-- Looks at a session. -/
def ask {α : Type} (question : Session → Except Fault α) : Action α := do question (← get)

/-- Edits the workspace of a session. -/
def edit {α : Type} (e : Edit α) : Action α := do
  let s ← get
  let (a, w) := e.run.run s.space
  set { s with space := w }
  a

/-- Gives a name to a line, if there is a name to give. -/
def nameLine (name : Option String) (id : LineId) : Action Unit :=
  modify fun s => { s with lines := s.lines.bind name id }

/-- Gives a name to a report. -/
def nameReport (name : String) (id : ReportId) : Action Unit :=
  modify fun s => { s with reports := s.reports.bind (some name) id }

/-- Gives a name to a source. -/
def nameSource (name : String) (source : Source) : Action Unit :=
  modify fun s => { s with sources := s.sources.bind (some name) source }

end Session

end Marginalia
