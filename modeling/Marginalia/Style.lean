import Marginalia.Text.Basic

/-!
# Terminal styles

The escape codes that switch a terminal to a colour and back, and the fixed glyphs of a report.
Everything else treats a code as an opaque text, so any other convention works as well.
-/

namespace Marginalia.Style

/-- The escape code that sets one display attribute, given by its decimal number. -/
def code (number : Text) : Text := ['\x1b', '['] ++ number ++ ['m']

/-- Ends every attribute. -/
def reset : Text := code ['0']
/-- Thick strokes. -/
def bold : Text := code ['1']
/-- A line beneath each character, drawn by the terminal itself. -/
def underscore : Text := code ['4']

/-- Black. -/
def black : Text := code ['3', '0']
/-- Red. -/
def red : Text := code ['3', '1']
/-- Green. -/
def green : Text := code ['3', '2']
/-- Yellow. -/
def yellow : Text := code ['3', '3']
/-- Blue. -/
def blue : Text := code ['3', '4']
/-- Magenta. -/
def magenta : Text := code ['3', '5']
/-- Cyan. -/
def cyan : Text := code ['3', '6']
/-- White. -/
def white : Text := code ['3', '7']

/-- Light red. -/
def lightRed : Text := code ['9', '1']
/-- Light green. -/
def lightGreen : Text := code ['9', '2']
/-- Light yellow. -/
def lightYellow : Text := code ['9', '3']
/-- Light blue. -/
def lightBlue : Text := code ['9', '4']
/-- Light magenta. -/
def lightMagenta : Text := code ['9', '5']
/-- Light cyan. -/
def lightCyan : Text := code ['9', '6']

/-- The colour of errors. -/
def error : Text := red
/-- The colour of warnings. -/
def warning : Text := lightYellow

/-- Every style under its published name. -/
def palette : List (String × Text) := [
  ("RESET", reset), ("BOLD", bold), ("UNDERLINE", underscore),
  ("BLACK", black), ("RED", red), ("GREEN", green), ("YELLOW", yellow), ("BLUE", blue),
  ("MAGENTA", magenta), ("CYAN", cyan), ("WHITE", white),
  ("LIGHT_RED", lightRed), ("LIGHT_GREEN", lightGreen), ("LIGHT_YELLOW", lightYellow),
  ("LIGHT_BLUE", lightBlue), ("LIGHT_MAGENTA", lightMagenta), ("LIGHT_CYAN", lightCyan),
  ("ERROR", error), ("WARNING", warning)]

/-- Stands between the gutter and the text of a line. -/
def separator : Text := ['|', ' ']

/-- The glyph of plain underlines. -/
def plainFill : Text := ['-']
/-- The glyph of errors. -/
def errorFill : Text := ['^']
/-- The glyph of warnings. -/
def warningFill : Text := ['~']
/-- The first glyph of warnings. -/
def warningTip : Text := ['^']

/-- What stands before the count in a notice of lines left out. -/
def noticeOpening : Text := "... (".toList
/-- What stands after the count in a notice of lines left out. -/
def noticeClosing : Text := " lines not shown)".toList

/-- The notice that lines were left out, with their number written as `count`. -/
def notice (count : Text) : Text := noticeOpening ++ count ++ noticeClosing

/-- The fixed texts under their published names; the notice has `%d` in the place of its count. -/
def constants : List (String × Text) := [
  ("SKIP_NOTICE", notice ['%', 'd']),
  ("GUTTER_SEPARATOR", separator),
  ("DEFAULT_FILL", plainFill),
  ("ERROR_FILL", errorFill),
  ("WARNING_FILL", warningFill),
  ("WARNING_TIP", warningTip)]

end Marginalia.Style
