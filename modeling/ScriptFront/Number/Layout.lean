import ScriptFront.Number.Decimal

set_option autoImplicit false

/-! # Writing numbers

How a double-precision number is laid out as text: the digits are those of the shortest decimal that
is read back, without zeros at their end, and a layout says where the point goes, whether a whole
number keeps a zero after it, from which size on an exponent is written, and what stands for the
values that have no digits. -/

namespace ScriptFront

/-- The decisions of a number format. -/
structure NumberLayout where
  /-- The text of a not-a-number. -/
  nan : Text
  /-- The text of infinity, without its sign. -/
  infinite : Text
  /-- Whether a whole number has a point and a zero after it. -/
  pointZero : Bool
  /-- The least and the greatest decimal exponent that are written without an exponent, if there
      are bounds. -/
  positional : Option (Int × Int)
  deriving DecidableEq, Repr

namespace NumberLayout

/-- Plain decimals: whole numbers have no point and nothing is ever written with an exponent. -/
def plain : NumberLayout := ⟨"NaN".toList, "inf".toList, false, none⟩

/-- The layout of diagnostics: a number always shows that it is no integer, and what is below
    `10 ^ -4` or from `10 ^ 16` on has an exponent. -/
def diagnostic : NumberLayout := ⟨"nan".toList, "inf".toList, true, some (-4, 15)⟩

/-! ## Digits -/

/-- The digits of a decimal without the zeros at their end; a single zero for zero. -/
def significant (decimal : Decimal) : Text :=
  if decimal.digits = 0 then ['0']
  else ((Numeral.ofNat decimal.digits).reverse.dropWhile (· = '0')).reverse

/-- The place of the point, counted from the first digit: a decimal is nought point its digits,
    times ten to this power. -/
def pointPlace (decimal : Decimal) : Int :=
  if decimal.digits = 0 then 1 else (Numeral.ofNat decimal.digits).length + decimal.exponent

/-- Digits with a point at the given place, and zeros where it lies outside of them. -/
def positionalForm (pointZero : Bool) (digits : Text) (point : Int) : Text :=
  if point ≤ 0 then "0.".toList ++ List.replicate (-point).toNat '0' ++ digits
  else if digits.length ≤ point.toNat then
    digits ++ List.replicate (point.toNat - digits.length) '0' ++
      (if pointZero then ".0".toList else [])
  else digits.take point.toNat ++ ['.'] ++ digits.drop point.toNat

/-- Digits with a point behind the first of them, if there are more, and an exponent of at least
    two digits with its sign. -/
def exponentForm (digits : Text) (exponent : Int) : Text :=
  let size := Numeral.ofNat exponent.natAbs
  digits.take 1 ++ (if digits.length ≤ 1 then [] else '.' :: digits.drop 1) ++ ['e'] ++
    (if exponent < 0 then ['-'] else ['+']) ++ List.replicate (2 - size.length) '0' ++ size

/-- A decimal in a layout. -/
def writeDecimal (layout : NumberLayout) (decimal : Decimal) : Text :=
  let digits := significant decimal
  let point := pointPlace decimal
  match layout.positional with
  | some (least, greatest) =>
    if least ≤ point - 1 ∧ point - 1 ≤ greatest then
      positionalForm layout.pointZero digits point
    else exponentForm digits (point - 1)
  | none => positionalForm layout.pointZero digits point

/-- The sign of a negative number. -/
def sign (negative : Bool) : Text := if negative then ['-'] else []

/-- A number in a layout. -/
def write (layout : NumberLayout) : Double → Text
  | .nan => layout.nan
  | .infinite negative => sign negative ++ layout.infinite
  | .finite negative mantissa scale canonical =>
    sign negative ++
      layout.writeDecimal
        (if mantissa = 0 then ⟨0, 0⟩ else Decimal.shortest mantissa scale canonical)

end NumberLayout

/-- The plain decimal text of a number. -/
def formatDouble (x : Double) : Text := NumberLayout.plain.write x

end ScriptFront
