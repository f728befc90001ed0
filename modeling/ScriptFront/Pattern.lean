import ScriptFront.Text.Numeral

set_option autoImplicit false

/-! # Lexical patterns

The shapes a lexeme can have. `Pattern.Matches` says which texts a pattern describes;
`Pattern.reach` computes, for a given input, the length of the longest prefix that the pattern
describes. No pattern describes the empty text, so a reach of zero means that none does. -/

namespace ScriptFront

/-! ## Character classes -/

/-- Space, tab, carriage return or line feed. -/
def isBlank (c : Char) : Bool := c = ' ' || c = '\t' || c = '\r' || c = '\n'

/-- The characters that an identifier may start with: ASCII letters and the underscore. -/
def isNameStart (c : Char) : Bool :=
  'a' ≤ c && c ≤ 'z' || 'A' ≤ c && c ≤ 'Z' || c = '_'

/-- The characters that an identifier may go on with: those and the digits. -/
def isNamePart (c : Char) : Bool := isNameStart c || Numeral.isDigit c

/-- The double quote, which opens and closes a string. -/
def doubleQuote : Char := '\x22'

/-- The two characters that open a block comment. -/
def blockOpen : Text := "/*".toList

/-- The two characters that close a block comment. -/
def blockClose : Text := "*/".toList

/-- The two characters that open a line comment. -/
def lineOpen : Text := "//".toList

/-! ## Patterns -/

/-- The shape of a lexeme. -/
inductive Pattern where
  /-- A run of blanks. -/
  | blanks
  /-- A comment from its opening to the first closing after it. -/
  | blockComment
  /-- A comment up to the end of its line. -/
  | lineComment
  /-- One fixed text. -/
  | word (text : Text)
  /-- A run of digits. -/
  | digits
  /-- From a double quote to the last double quote on the same line. -/
  | quoted
  /-- A letter or underscore, then letters, digits and underscores. -/
  | name
  deriving DecidableEq, Repr

namespace Pattern

/-- The texts that a pattern describes. -/
def Matches : Pattern → Text → Prop
  | blanks, text => text ≠ [] ∧ ∀ c ∈ text, isBlank c
  | blockComment, text => ∃ body, text = blockOpen ++ body ++ blockClose ∧
      ∀ before after, body ++ blockClose = before ++ blockClose ++ after → after = []
  | lineComment, text => ∃ body, text = lineOpen ++ body ∧ '\n' ∉ body
  | word text, other => other = text ∧ text ≠ []
  | digits, text => text ≠ [] ∧ ∀ c ∈ text, Numeral.isDigit c
  | quoted, text => ∃ body, text = doubleQuote :: (body ++ [doubleQuote]) ∧ '\n' ∉ body
  | name, text => ∃ first others, text = first :: others ∧ isNameStart first ∧
      ∀ c ∈ others, isNamePart c

/-- The length of the text up to and with the first closing of a block comment. -/
def closing? : Text → Option Nat
  | [] => none
  | c :: rest => if blockClose.isPrefixOf (c :: rest) then some 2 else (closing? rest).map (· + 1)

/-- The length of the text up to and with its last double quote. -/
def lastQuote? : Text → Option Nat
  | [] => none
  | c :: rest =>
    match lastQuote? rest with
    | some n => some (n + 1)
    | none => if c = doubleQuote then some 1 else none

/-- The number of leading characters in a class. -/
def runLength (inClass : Char → Bool) (text : Text) : Nat := (text.takeWhile inClass).length

/-- The length of the longest prefix of the input that a pattern describes, zero if there is
    none. -/
def reach : Pattern → Text → Nat
  | blanks, input => runLength isBlank input
  | blockComment, input =>
    if blockOpen.isPrefixOf input then ((closing? (input.drop 2)).map (· + 2)).getD 0 else 0
  | lineComment, input =>
    if lineOpen.isPrefixOf input then 2 + runLength (· ≠ '\n') (input.drop 2) else 0
  | word text, input => if text.isPrefixOf input then text.length else 0
  | digits, input => runLength Numeral.isDigit input
  | quoted, c :: rest =>
    if c = doubleQuote then
      ((lastQuote? (rest.takeWhile (· ≠ '\n'))).map (· + 1)).getD 0
    else 0
  | name, c :: rest => if isNameStart c then 1 + runLength isNamePart rest else 0
  | quoted, [] => 0
  | name, [] => 0

end Pattern

end ScriptFront
