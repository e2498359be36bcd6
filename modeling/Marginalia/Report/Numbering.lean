import Marginalia.Fault
import Marginalia.Style
import Marginalia.Text.Decimal

/-!
# The numbering of a report

A report numbers its lines with a cursor that goes up by one with each of them and can be made to
jump. A jump ahead that leaves lines out is worth a notice that counts them, once the numbering has
begun; a jump to before the latest number is worth a warning.
-/

namespace Marginalia

/-- The cursor of a report: the number of the next numbered line, whether it has been set or used
yet, and the latest number given. -/
structure Numbering where
  cursor : Int := 1
  started : Bool := false
  last : Option Int := none
  deriving DecidableEq, Repr

/-- A jump to before the latest number of a report. -/
structure Backwards where
  target : Int
  last : Int
  deriving DecidableEq, Repr

namespace Backwards

/-- The numbers that stand in the words of the warning. -/
def numbers (b : Backwards) : List Int := [b.target, b.last]

/-- The warning in words. -/
def message (b : Backwards) : Text :=
  "Line numbers should not go backwards: ".toList ++ Text.decimal b.target ++
    " after ".toList ++ Text.decimal b.last

end Backwards

/-- A jump: where the numbering stands after it, how many lines it leaves out if that is to be told,
and the warning that it earns. -/
structure Jump where
  numbering : Numbering
  skipped : Option Int
  warning : Option Backwards
  deriving DecidableEq, Repr

namespace Jump

/-- What is too much about the warning of a jump. -/
def warningExcess? (j : Jump) : Option Fault :=
  j.warning.bind fun b => Text.decimalsExcess? b.numbers

/-- What is too much about what is said of a jump: its warning, or else its notice. -/
def excess? (j : Jump) : Option Fault :=
  j.warningExcess?.or (j.skipped.bind Text.decimalExcess?)

end Jump

namespace Numbering

/-- The warning that a jump earns. -/
def backwards? (n : Numbering) (target : Int) : Option Backwards :=
  match n.last with
  | none => none
  | some last => if target < last then some ⟨target, last⟩ else none

/-- How many lines a jump leaves out, if they are two or more and the numbering has begun. -/
def skipped? (n : Numbering) (target : Int) : Option Int :=
  if n.started ∧ n.cursor + 1 < target then some (target - n.cursor) else none

/-- The jump to a number. Skipped lines are told of on demand. -/
def leap (n : Numbering) (target : Int) (tellSkip : Bool) : Jump :=
  { numbering := { n with cursor := target, started := true }
    skipped := if tellSkip then n.skipped? target else none
    warning := n.backwards? target }

/-- Moves the cursor to any number that is not negative, unless what there is to be said of it
cannot be written. -/
def jump (n : Numbering) (target : Int) (tellSkip : Bool) : Except Fault Jump :=
  if target < 0 then Fault.refuse (.negativeLineNumber target)
  else do
    let j := n.leap target tellSkip
    Fault.check j.excess?
    return j

theorem jump_of_neg {n : Numbering} {target : Int} (h : target < 0) (tellSkip : Bool) :
    n.jump target tellSkip = Fault.refuse (.negativeLineNumber target) := if_pos h

/-- Ahead of zero a jump is refused only for what is to be said of it. -/
theorem jump_of_nonneg {n : Numbering} {target : Int} (h : 0 ≤ target) (tellSkip : Bool) :
    n.jump target tellSkip =
      (Fault.check (n.leap target tellSkip).excess?).map fun _ => n.leap target tellSkip := by
  rw [jump, if_neg (Int.not_lt.mpr h)]
  rfl

/-- **A jump is accepted** if its target is not negative and all that is to be said of it can be
written. -/
theorem jump_eq_ok_iff {n : Numbering} {target : Int} {tellSkip : Bool} {j : Jump} :
    n.jump target tellSkip = .ok j ↔
      0 ≤ target ∧ (n.leap target tellSkip).excess? = none ∧ n.leap target tellSkip = j := by
  by_cases h : 0 ≤ target
  · rw [jump_of_nonneg h]
    cases (n.leap target tellSkip).excess? <;> simp [h, Fault.check, Except.map]
  · rw [jump_of_neg (by omega)]
    simp [Fault.refuse, h]

/-- The numbering after one line more. -/
def advance (n : Numbering) : Numbering :=
  { cursor := n.cursor + 1, started := true, last := some n.cursor }

end Numbering

/-- The text that tells of skipped lines. -/
def Style.skipNotice (count : Int) : Text := notice (Text.decimal count)

end Marginalia
