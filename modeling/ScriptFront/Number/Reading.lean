import ScriptFront.Number.Decimal

set_option autoImplicit false

/-! # Reading numbers

A numeral is an optional sign and then either digits, with at most one point among or beside them
and an optional exponent, or one of two words for infinity in any case. Nothing else is one: no
blanks, no separators, no digits other than `0` to `9`, no other base. What is no numeral reads as
not-a-number.

A machine reads numbers with less rigour, as it does integers, and `nan` is a word to it like those
for infinity. The strict reading is the one of the machine behind a guard that lets no leniency
through: what is empty, not ASCII, surrounded by blanks or contains an underscore is not read at
all. -/

namespace ScriptFront

namespace Numeral

/-- The exponent that a text consists of, with the letter that announces it; no text at all is an
    exponent of zero. -/
def exponent? : Text → Option Int
  | [] => some 0
  | c :: rest =>
    if c = 'e' ∨ c = 'E' then
      let (negative, digits) := splitSign rest
      if digits ≠ [] ∧ digits.all isDigit then
        some (if negative then -(value digits : Int) else value digits)
      else none
    else none

/-- The fraction digits after a point, if there is one, and the rest of the text. -/
def splitFraction : Text → Text × Text
  | [] => ([], [])
  | c :: rest => if c = '.' then rest.span isDigit else ([], c :: rest)

/-- The decimal that an unsigned text without a word for infinity stands for. -/
def decimal? (text : Text) : Option Decimal :=
  let (whole, rest) := text.span isDigit
  let (fraction, rest) := splitFraction rest
  if whole ++ fraction = [] then none
  else (exponent? rest).map fun exponent =>
    ⟨value (whole ++ fraction), exponent - fraction.length⟩

/-- Whether a text is a word for infinity. -/
def isInfinity (text : Text) : Bool :=
  let word := text.map Char.toLower
  word = "inf".toList || word = "infinity".toList

/-- The number that a text stands for. -/
def toDouble (text : Text) : Double :=
  let (negative, text) := splitSign text
  if isInfinity text then .infinite negative
  else
    match decimal? text with
    | some decimal => decimal.toDouble negative
    | none => .nan

end Numeral

namespace Lenient

/-- The number that a text without blanks and underscores stands for. -/
def number? (text : Text) : Option Double :=
  let (negative, text) := Numeral.splitSign text
  if text.map Char.toLower = "nan".toList then some .nan
  else if Numeral.isInfinity text then some (.infinite negative)
  else (Numeral.decimal? text).map (·.toDouble negative)

/-- The number that a text stands for, if it stands for one. -/
def read? (alphabet : Alphabet) (text : Text) : Option Double :=
  (normal? alphabet text).bind number?

/-- The number that a text stands for if nothing in it calls for leniency, and otherwise
    not-a-number. -/
def guarded (alphabet : Alphabet) (text : Text) : Double :=
  if text = [] ∨ ¬ text.all isAscii ∨ text ≠ strip alphabet.blank text ∨ '_' ∈ text then .nan
  else (read? alphabet text).getD .nan

end Lenient

end ScriptFront
