import Marginalia.Text.Basic

/-!
# Decimal numbers

How whole numbers are written: decimal digits without leading zeros, after a minus sign when the
number is negative. Numbers have no size limit here; `digitLimit` is for whatever reads or shows
them.
-/

namespace Marginalia.Text

/-- The decimal digits of a natural number, without leading zeros. -/
def digits (n : Nat) : Text := Nat.toDigits 10 n

/-- The most digits that a number may have to be read or written. -/
def digitLimit : Nat := 4300

/-- A whole number in decimal. -/
def decimal (n : Int) : Text :=
  if n < 0 then '-' :: digits n.natAbs else digits n.natAbs

/-- The number of decimal digits of a whole number, its sign aside. -/
def digitCount (n : Int) : Nat := (digits n.natAbs).length

theorem decimal_of_nonneg {n : Int} (h : 0 ≤ n) : decimal n = digits n.natAbs :=
  if_neg (Int.not_lt.mpr h)

example : decimal (-120) = ['-', '1', '2', '0'] := by decide

end Marginalia.Text
