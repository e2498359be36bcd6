import Marginalia.Text.Decimal

/-!
# Fractional numbers

How numbers that need not be whole are written: the digits as they were given, positional for
magnitudes near one and with an exponent for all others. Zero keeps its sign, and there are words
for what is no number at all.
-/

namespace Marginalia

/-- A number that need not be whole: a sign with `mantissa · 10 ^ (-scale)` behind it or with an
infinite magnitude, or the outcome of an operation that has none. -/
inductive Fractional where
  | finite (negative : Bool) (mantissa : Nat) (scale : Int)
  | infinite (negative : Bool)
  | undefined
  deriving DecidableEq, Repr

namespace Fractional

/-- The significant digits of a decimal fraction and the place of its point: it is
`0.d₁d₂… · 10 ^ point`, without zeros at the end of the digits. -/
def significant (mantissa : Nat) (scale : Int) : Text × Int :=
  let ds := Text.digits mantissa
  ((ds.reverse.dropWhile (· == '0')).reverse, ds.length - scale)

/-- As many zeros as `n` says. -/
def zeros (n : Int) : Text := List.replicate n.toNat '0'

/-- Digits with a point among them, and with at least one digit on either side of it. -/
def positional (ds : Text) (point : Int) : Text :=
  if point ≤ 0 then ['0', '.'] ++ zeros (-point) ++ ds
  else
    let whole := ds.take point.toNat
    let rest := ds.drop point.toNat
    whole ++ zeros (point - whole.length) ++ ['.'] ++ (if rest.isEmpty then ['0'] else rest)

/-- One digit before the point, which is left out if nothing is behind it, and an exponent of at
least two digits. -/
def exponential (ds : Text) (power : Int) : Text :=
  let powerDigits := Text.digits power.natAbs
  ds.take 1 ++ (if ds.length ≤ 1 then [] else '.' :: ds.drop 1) ++
    ['e', if power < 0 then '-' else '+'] ++ zeros (2 - powerDigits.length) ++ powerDigits

/-- A magnitude: positional from `0.0001` up to sixteen digits before the point. -/
def magnitude (mantissa : Nat) (scale : Int) : Text :=
  let (ds, point) := significant mantissa scale
  if mantissa = 0 then ['0', '.', '0']
  else if -4 < point ∧ point ≤ 16 then positional ds point
  else exponential ds (point - 1)

/-- The sign of a number: nothing unless it is negative. -/
def sign (negative : Bool) : Text := if negative then ['-'] else []

/-- A number written out. -/
def written : Fractional → Text
  | finite negative mantissa scale => sign negative ++ magnitude mantissa scale
  | infinite negative => sign negative ++ ['i', 'n', 'f']
  | undefined => ['n', 'a', 'n']

example : (finite true 0 1).written = ['-', '0', '.', '0'] := by decide

example : (finite false 125 12).written = "1.25e-10".toList := by decide

end Fractional

end Marginalia
