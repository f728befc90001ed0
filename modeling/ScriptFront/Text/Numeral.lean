import ScriptFront.Text.Utf8

set_option autoImplicit false

/-! # Decimal numerals

Whole numbers as text: no leading zeros, a minus sign before a negative number. In the other
direction, a run of digits stands for its positional value, whatever its leading zeros. A machine
reads numerals with less rigour: blanks around them do not count, the digits of every script are
digits, and there may be an underscore between two digits. The integers of the language are read by
such a machine, but only from texts that are short enough for the range of the language. -/

namespace ScriptFront

namespace Numeral

/-! ## Digits -/

/-- Whether a character is one of the ten digits `0` to `9`. -/
def isDigit (c : Char) : Bool := '0' ≤ c && c ≤ '9'

theorem isDigit_iff {c : Char} : isDigit c ↔ 48 ≤ c.toNat ∧ c.toNat ≤ 57 := by
  simp only [isDigit, Bool.and_eq_true, decide_eq_true_eq]
  exact Iff.rfl

/-- The numeral of a natural number. -/
def ofNat (n : Nat) : Text := Nat.toDigits 10 n

/-- The numeral of an integer. -/
def ofInt : Int → Text
  | .ofNat n => ofNat n
  | .negSucc n => '-' :: ofNat (n + 1)

/-- The value of a run of digits; the empty run stands for zero. -/
def value (digits : Text) : Nat := Nat.ofDigitChars 10 digits 0

@[simp] theorem value_ofNat (n : Nat) : value (ofNat n) = n :=
  Nat.ofDigitChars_toDigits (by decide) (by decide)

theorem isDigit_of_mem_ofNat {n : Nat} {c : Char} (h : c ∈ ofNat n) : isDigit c := by
  have hdigit := Nat.isDigit_of_mem_toDigits (by decide) (by decide) h
  rw [isDigit_iff]
  simp only [Char.isDigit, Bool.and_eq_true, decide_eq_true_eq] at hdigit
  exact hdigit

/-- A sign, if the text begins with one, and the rest of the text. -/
def splitSign : Text → Bool × Text
  | [] => (false, [])
  | c :: rest =>
    if c = '-' then (true, rest) else if c = '+' then (false, rest) else (false, c :: rest)

/-- A text without its leading zeros, of which the last stays if there is nothing else. -/
def significantDigits (text : Text) : Text :=
  if text.dropWhile (· = '0') = [] then ['0'] else text.dropWhile (· = '0')

end Numeral

/-! ## Lenient reading -/

namespace Lenient

/-- What is known about the characters beyond ASCII: which of them are blanks, and which of them are
    digits and of what value, as a digit of ASCII. -/
structure Alphabet where
  isBlank : Char → Bool
  digit? : Char → Option Char

/-- Whether a character is one of ASCII. -/
def isAscii (c : Char) : Bool := c.toNat < 128

/-- The blanks that stand around numbers. -/
def isSpace (c : Char) : Bool := c = ' ' || (9 ≤ c.toNat && c.toNat ≤ 13)

namespace Alphabet

variable (alphabet : Alphabet)

/-- Whether a character is a blank. Apart from those that stand around numbers, the separators of
    files, groups, records and units are. -/
def blank (c : Char) : Bool :=
  if isAscii c then isSpace c || (28 ≤ c.toNat && c.toNat ≤ 31) else alphabet.isBlank c

/-- A character in ASCII; a question mark for what is neither a blank nor a digit there. -/
def toAscii (c : Char) : Char :=
  if isAscii c then c
  else if alphabet.isBlank c then ' '
  else (alphabet.digit? c).getD '?'

end Alphabet

/-- The blanks of Unicode beyond ASCII. -/
def unicodeBlanks : List Nat :=
  [0x85, 0xA0, 0x1680, 0x2000, 0x2001, 0x2002, 0x2003, 0x2004, 0x2005, 0x2006, 0x2007, 0x2008,
    0x2009, 0x200A, 0x2028, 0x2029, 0x202F, 0x205F, 0x3000]

/-- The zeros of Unicode beyond ASCII. The other nine digits of a script follow its zero. -/
def unicodeZeros : List Nat :=
  [0x660, 0x6F0, 0x7C0, 0x966, 0x9E6, 0xA66, 0xAE6, 0xB66, 0xBE6, 0xC66, 0xCE6, 0xD66, 0xDE6,
    0xE50, 0xED0, 0xF20, 0x1040, 0x1090, 0x17E0, 0x1810, 0x1946, 0x19D0, 0x1A80, 0x1A90, 0x1B50,
    0x1BB0, 0x1C40, 0x1C50, 0xA620, 0xA8D0, 0xA900, 0xA9D0, 0xA9F0, 0xAA50, 0xABF0, 0xFF10,
    0x104A0, 0x10D30, 0x11066, 0x110F0, 0x11136, 0x111D0, 0x112F0, 0x11450, 0x114D0, 0x11650,
    0x116C0, 0x11730, 0x118E0, 0x11950, 0x11C50, 0x11D50, 0x11DA0, 0x16A60, 0x16AC0, 0x16B50,
    0x1D7CE, 0x1D7D8, 0x1D7E2, 0x1D7EC, 0x1D7F6, 0x1E140, 0x1E2F0, 0x1E950, 0x1FBF0]

/-- The blanks and digits of Unicode, in its version 14.0. -/
def Alphabet.unicode : Alphabet where
  isBlank c := unicodeBlanks.contains c.toNat
  digit? c := (unicodeZeros.find? fun first => first ≤ c.toNat && c.toNat ≤ first + 9).map
    fun first => Char.ofNat (c.toNat - first + '0'.toNat)

/-- A text without the given characters at its ends. -/
def strip (blank : Char → Bool) (text : Text) : Text :=
  ((text.dropWhile blank).reverse.dropWhile blank).reverse

/-- A text without its underscores, of which each has to stand between two digits. The character
    before the text is given. -/
def unseparated? (previous : Char) : Text → Option Text
  | [] => some []
  | c :: rest =>
    if c = '_' then
      if Numeral.isDigit previous && rest.head?.any Numeral.isDigit then unseparated? c rest
      else none
    else (unseparated? c rest).map (c :: ·)

/-- A text in ASCII, without the blanks around it and the underscores between its digits. -/
def normal? (alphabet : Alphabet) (text : Text) : Option Text :=
  unseparated? ' ' (strip isSpace (text.map alphabet.toAscii))

/-- The integer that a text stands for, if it stands for one. A machine refuses texts with more
    digits than some limit. -/
def integer? (alphabet : Alphabet) (limit : Nat) (text : Text) : Option Int := do
  let (negative, digits) := Numeral.splitSign (← normal? alphabet text)
  if digits ≠ [] ∧ digits.all Numeral.isDigit ∧ digits.length ≤ limit then
    some (if negative then -(Numeral.value digits : Int) else Numeral.value digits)
  else none

end Lenient

/-! ## The integers of the language -/

/-- The least integer of the language. -/
def intMin : Int := -2147483648

/-- The greatest integer of the language. -/
def intMax : Int := 2147483647

/-- Why a text stands for no integer of the language. -/
inductive IntegerFault where
  | outOfRange
  | notANumeral
  deriving DecidableEq, Repr

/-- The integer of the language that a text stands for, on a machine that refuses texts with more
    digits than some limit. With more characters than the greatest integer has digits, leading zeros
    aside, the text is out of range and the machine is not asked. -/
def readInteger (limit : Nat) (text : Text) : Except IntegerFault Int :=
  let digits := Numeral.significantDigits text
  if digits.length > (Numeral.ofInt intMax).length then .error .outOfRange
  else
    match Lenient.integer? .unicode limit digits with
    | none => .error .notANumeral
    | some n => if n > intMax then .error .outOfRange else .ok n

end ScriptFront
