set_option autoImplicit false

/-! # Double-precision numbers

The numbers of the IEEE 754 binary64 format, as values. Every finite one is a whole multiple of the
least positive one, `2 ^ -1074`, which is the unit here: a mantissa of at most 53 bits, shifted left
by a scale. The mantissa uses all 53 bits unless the scale is zero, so that each number has one
form. Arithmetic computes the exact result as a quotient of natural numbers of units, and rounds it
once, to the nearest number and to the even mantissa in a tie; what would need a larger scale than
there is becomes infinite. -/

namespace ScriptFront

/-! ## Values -/

/-- The form in which a finite number is written: `mantissa * 2 ^ scale` units. -/
abbrev Double.Canonical (mantissa scale : Nat) : Prop :=
  mantissa < Nat.pow 2 53 ∧ scale ≤ 2045 ∧ (scale = 0 ∨ Nat.pow 2 52 ≤ mantissa)

/-- A double-precision number. Zero has two signs; all not-a-numbers are one. -/
inductive Double where
  | nan
  | infinite (negative : Bool)
  | finite (negative : Bool) (mantissa scale : Nat) (canonical : Double.Canonical mantissa scale)
  deriving DecidableEq, Repr

namespace Double

/-- Zero with a sign. -/
def zero (negative : Bool) : Double := finite negative 0 0 (by decide)

/-- One. -/
def one : Double := finite false (Nat.pow 2 52) 1022 (by decide)

/-- Whether the sign bit is set; a not-a-number counts as positive. -/
def isNegative : Double → Bool
  | nan => false
  | infinite negative => negative
  | finite negative _ _ _ => negative

/-- Whether it is no number. -/
def isNaN : Double → Bool
  | nan => true
  | _ => false

/-- Whether it is an infinity of either sign. -/
def isInfinite : Double → Bool
  | infinite _ => true
  | _ => false

/-- Whether it is a zero of either sign. -/
def isZero : Double → Bool
  | finite _ mantissa _ _ => mantissa = 0
  | _ => false

/-- The number with the sign, mantissa and scale given, or infinity where that is no form of a
    number, which for what rounding gives means that the scale is too large. -/
def ofParts (negative : Bool) (mantissa scale : Nat) : Double :=
  if canonical : Canonical mantissa scale then finite negative mantissa scale canonical
  else infinite negative

/-! ## Bit patterns -/

/-- The 64 bits of a number: the sign, eleven bits of exponent and 52 of fraction. Scale and
    mantissa give exponent and fraction together, because the leading bit of a full mantissa is
    worth one step of the exponent. -/
def toBits : Double → Nat
  | nan => 0x7FF8000000000000
  | infinite negative => (if negative then Nat.pow 2 63 else 0) + 0x7FF0000000000000
  | finite negative mantissa scale _ =>
    (if negative then Nat.pow 2 63 else 0) + scale * Nat.pow 2 52 + mantissa

/-- The number of a pattern of 64 bits. -/
def ofBits (bits : Nat) : Double :=
  let negative := bits.testBit 63
  let exponent := bits / Nat.pow 2 52 % Nat.pow 2 11
  let fraction := bits % Nat.pow 2 52
  if exponent = 2047 then (if fraction = 0 then infinite negative else nan)
  else if exponent = 0 then ofParts negative fraction 0
  else ofParts negative (Nat.pow 2 52 + fraction) (exponent - 1)

/-! ## Rounding -/

/-- The natural number nearest to a quotient, the even one of two. -/
def nearest (num den : Nat) : Nat :=
  let floor := num / den
  let twice := 2 * (num % den)
  if twice < den then floor
  else if den < twice then floor + 1
  else floor + floor % 2

/-- The number nearest to a quotient of units. The scale is the least one at which the whole part
    of the quotient has at most 53 bits; rounding may carry into a 54th, which then is the only
    one. -/
def ofQuotient (negative : Bool) (num den : Nat) : Double :=
  let scale := (num / den).log2 - 52
  let mantissa := nearest num (den * Nat.pow 2 scale)
  if mantissa = Nat.pow 2 53 then ofParts negative (Nat.pow 2 52) (scale + 1)
  else ofParts negative mantissa scale

/-- How many units make one. -/
def unitsPerOne : Nat := Nat.pow 2 1074

/-- The number of an integer. -/
def ofInt (n : Int) : Double := ofQuotient (decide (n < 0)) (n.natAbs * unitsPerOne) 1

/-! ## Arithmetic -/

/-- How many units a finite number has, without its sign. -/
def units (mantissa scale : Nat) : Nat := mantissa * Nat.pow 2 scale

/-- How many units a finite number has, with its sign. -/
def signedUnits (negative : Bool) (mantissa scale : Nat) : Int :=
  if negative then -(units mantissa scale : Int) else units mantissa scale

/-- The opposite number. -/
def neg : Double → Double
  | nan => nan
  | infinite negative => infinite !negative
  | finite negative mantissa scale canonical => finite (!negative) mantissa scale canonical

/-- The difference of two numbers. A difference of zero is positive, unless negative zero loses a
    positive one. -/
def sub : Double → Double → Double
  | nan, _ => nan
  | _, nan => nan
  | infinite a, infinite b => if a = b then nan else infinite a
  | infinite a, finite .. => infinite a
  | finite .., infinite b => infinite !b
  | finite a ma sa _, finite b mb sb _ =>
    let difference := signedUnits a ma sa - signedUnits b mb sb
    if difference = 0 then zero (a && !b)
    else ofQuotient (decide (difference < 0)) difference.natAbs 1

/-- The product of two numbers. -/
def mul : Double → Double → Double
  | nan, _ => nan
  | _, nan => nan
  | infinite a, infinite b => infinite (a ^^ b)
  | infinite a, finite b mb _ _ => if mb = 0 then nan else infinite (a ^^ b)
  | finite a ma _ _, infinite b => if ma = 0 then nan else infinite (a ^^ b)
  | finite a ma sa _, finite b mb sb _ =>
    ofQuotient (a ^^ b) (units ma sa * units mb sb) unitsPerOne

/-- The quotient of two numbers. A number other than zero divided by zero is infinite. -/
def div : Double → Double → Double
  | nan, _ => nan
  | _, nan => nan
  | infinite _, infinite _ => nan
  | infinite a, finite b _ _ _ => infinite (a ^^ b)
  | finite a _ _ _, infinite b => zero (a ^^ b)
  | finite a ma sa _, finite b mb sb _ =>
    if mb = 0 then (if ma = 0 then nan else infinite (a ^^ b))
    else ofQuotient (a ^^ b) (units ma sa * unitsPerOne) (units mb sb)

/-! ## Order -/

/-- Where infinity stands, beyond all finite numbers. -/
def infinityUnits : Nat := Nat.pow 2 2098

/-- Where a number stands on the line of all numbers: its units, with the infinities beyond all
    finite ones. A not-a-number stands nowhere, and the two zeros stand in one place. -/
def place? : Double → Option Int
  | nan => none
  | infinite negative => some (if negative then -(infinityUnits : Int) else infinityUnits)
  | finite negative mantissa scale _ => some (signedUnits negative mantissa scale)

/-- Whether two numbers have places that are in a relation. -/
def related (relation : Int → Int → Bool) (x y : Double) : Bool :=
  match x.place?, y.place? with
  | some a, some b => relation a b
  | _, _ => false

/-- Less than; false for a not-a-number. -/
def lt (x y : Double) : Bool := related (· < ·) x y

/-- Less than or equal; false for a not-a-number. -/
def le (x y : Double) : Bool := related (· ≤ ·) x y

/-- Equal as numbers: a not-a-number equals nothing, and the two zeros are equal. -/
def same (x y : Double) : Bool := related (· = ·) x y

/-- The order of two numbers, unless one of them is none. -/
def compare? (x y : Double) : Option Ordering :=
  match x.place?, y.place? with
  | some a, some b => some (compare a b)
  | _, _ => none

/-! ## Division where zero is refused

A machine that refuses to divide by zero can still divide as the standard for doubles asks: zero
divisors are caught before, and the quotient is put together from an infinity and the product of the
signs of the operands. -/

/-- A number with the sign of another one. -/
def copySign : Double → Double → Double
  | nan, _ => nan
  | infinite _, sign => infinite sign.isNegative
  | finite _ mantissa scale canonical, sign => finite sign.isNegative mantissa scale canonical

/-- The quotient of two numbers, unless the divisor is zero. -/
def div? (x y : Double) : Option Double :=
  if y.same (zero false) then none else some (x.div y)

/-- The quotient of two numbers, where the machine is only asked for it if the divisor is not
    zero. -/
def divGuarded (x y : Double) : Option Double :=
  if !y.same (zero false) then x.div? y
  else if x.same (zero false) || x.isNaN then some nan
  else some ((infinite false).copySign ((one.copySign x).mul (one.copySign y)))

end Double

end ScriptFront
