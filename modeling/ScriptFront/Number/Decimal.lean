import ScriptFront.Text.Numeral
import ScriptFront.Number.Double

set_option autoImplicit false

/-! # Decimals

A decimal is a natural number of units of a power of ten. `Decimal.toDouble` gives the
double-precision number nearest to it; `Decimal.shortest` goes the other way and finds the decimal
with the fewest digits that is read back as a given number. -/

namespace ScriptFront

/-- The number `digits * 10 ^ exponent`. -/
structure Decimal where
  digits : Nat
  exponent : Int
  deriving DecidableEq, Repr

namespace Decimal

/-! ## From decimals to doubles -/

/-- The exact quotient of double-precision units that a decimal stands for. -/
def quotient (decimal : Decimal) : Nat × Nat :=
  (decimal.digits * Double.unitsPerOne * Nat.pow 10 decimal.exponent.toNat,
    Nat.pow 10 (-decimal.exponent).toNat)

/-- The double-precision number nearest to a decimal, with a sign. A decimal of `10 ^ 310` or more
    is infinite and one below `10 ^ -330` is zero, and this is decided from the number of digits
    alone, so that a huge exponent costs nothing. -/
def toDouble (negative : Bool) (decimal : Decimal) : Double :=
  let length : Int := (Numeral.ofNat decimal.digits).length
  if decimal.digits = 0 then .zero negative
  else if length + decimal.exponent > 310 then .infinite negative
  else if length + decimal.exponent < -330 then .zero negative
  else .ofQuotient negative decimal.quotient.1 decimal.quotient.2

/-! ## From doubles to decimals

Two to the power -1074 is five to the power 1074 times ten to the power -1074, so every finite
double is a whole number of steps of the decimal grid at place -1074, and the search for a decimal
that is read back ends there at the latest. -/

/-- The number of steps of the grid at place -1074 that so many double-precision units make. -/
def finestSteps (units : Nat) : Nat := units * Nat.pow 5 1074

/-- The decimal of a number of steps at a grid that is the given number of places above the
    finest. -/
def atGrid (steps grid : Nat) : Decimal := ⟨steps, (grid : Int) - 1074⟩

/-- The better of two neighbours on a grid, of which each may be eligible or not: of two eligible
    ones the nearer, and the even one in a tie. -/
def choose (floor remainder width : Nat) (floorFits ceilingFits : Bool) : Option Nat :=
  match floorFits, ceilingFits with
  | false, false => none
  | true, false => some floor
  | false, true => some (floor + 1)
  | true, true =>
    if 2 * remainder < width then some floor
    else if width < 2 * remainder then some (floor + 1)
    else some (floor + floor % 2)

/-- The neighbour on a grid of a number of finest steps that is read back as it is meant to be, if
    there is one. -/
def onGrid? (readsBack : Decimal → Bool) (steps grid : Nat) : Option Decimal :=
  let width := Nat.pow 10 grid
  let floor := steps / width
  (choose floor (steps % width) width (readsBack (atGrid floor grid))
    (readsBack (atGrid (floor + 1) grid))).map (atGrid · grid)

/-- The first grid, from the given one down to the finest, with a neighbour that is read back. -/
def search (readsBack : Decimal → Bool) (steps : Nat) : Nat → Decimal
  | 0 => atGrid steps 0
  | grid + 1 =>
    match onGrid? readsBack steps (grid + 1) with
    | some decimal => decimal
    | none => search readsBack steps grid

/-- The decimal with the fewest digits that is read back as a finite number, without its sign. -/
def shortest (mantissa scale : Nat) (canonical : Double.Canonical mantissa scale) : Decimal :=
  let steps := finestSteps (Double.units mantissa scale)
  let readsBack decimal := decide (toDouble false decimal = .finite false mantissa scale canonical)
  search readsBack steps ((Numeral.ofNat steps).length - 1)

end Decimal

end ScriptFront
