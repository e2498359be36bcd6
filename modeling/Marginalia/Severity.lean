import Marginalia.Line.Mark

/-!
# Severities

How bad a finding is, which decides how its evidence is underlined.
-/

namespace Marginalia

/-- How bad a finding is. -/
inductive Severity where
  | notice
  | warning
  | error
  deriving DecidableEq, Repr

namespace Severity

/-- All severities, from the mildest on. -/
def all : List Severity := [notice, warning, error]

/-- The word that opens a report. -/
def title : Severity → String
  | notice => "Notice"
  | warning => "Warning"
  | error => "Error"

/-- The symbol under which a severity is published. -/
def symbol : Severity → String
  | notice => "NOTICE"
  | warning => "WARNING"
  | error => "ERROR"

/-- The word for a severity on a command line. -/
def word : Severity → String
  | notice => "notice"
  | warning => "warning"
  | error => "error"

/-- A plain line for notices, a yellow wave with a tip for warnings, a sharp red line for errors. -/
def pen : Severity → Pen
  | notice => {}
  | warning => { fill := Style.warningFill, tip := some Style.warningTip, on := Style.warning }
  | error => { fill := Style.errorFill, on := Style.error }

end Severity

end Marginalia
