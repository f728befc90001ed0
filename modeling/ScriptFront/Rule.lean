import ScriptFront.Pattern
import ScriptFront.Token

set_option autoImplicit false

/-! # The rule table

Every lexeme of the language, in one ordered table: blanks and the two kinds of comments, the
keywords, integers, punctuation, strings and identifiers. At a given place the rule with the longest
match decides; among rules that match equally far the earliest one does. So a keyword wins over the
identifier of the same spelling, a longer identifier over the keyword it starts with, and an
operator of two characters over its first character. -/

namespace ScriptFront

/-! ## Spellings -/

/-- The keywords with their kinds. -/
def keywords : List (Text × TokenKind) :=
  [("print".toList, .print), ("typeof".toList, .typeOf), ("env".toList, .env),
    ("true".toList, .trueWord), ("false".toList, .falseWord)]

/-- The punctuation symbols with their kinds. -/
def punctuation : List (Text × TokenKind) :=
  [(">=".toList, .greaterEqual), ("<=".toList, .lessEqual), ("==".toList, .equalEqual),
    ("!=".toList, .bangEqual), (['['], .leftBracket), ([']'], .rightBracket),
    (['\x7b'], .leftBrace), (['\x7d'], .rightBrace), ([','], .comma), (['='], .equals),
    (['+'], .plus), (['-'], .minus), (['*'], .star), (['/'], .slash), (['('], .leftParen),
    ([')'], .rightParen), ([';'], .semicolon), (['!'], .bang), (['>'], .greater), (['<'], .less),
    (['.'], .dot)]

/-! ## Rules -/

/-- What a lexeme counts as: blank space or a comment, both of which are skipped, or a token. -/
inductive LexemeKind where
  | whitespace
  | comment
  | token (kind : TokenKind)
  deriving DecidableEq, Repr

namespace LexemeKind

/-- The name of a lexeme kind in answers. -/
def name : LexemeKind → Text
  | whitespace => "WHITESPACE".toList
  | comment => "COMMENT".toList
  | token kind => kind.name

/-- The lexeme kinds that give no token, in the alphabetical order of their names. -/
def skipped : List LexemeKind := [comment, whitespace]

end LexemeKind

/-- One row of the table: the pattern of a lexeme and what it counts as. -/
structure Rule where
  kind : LexemeKind
  pattern : Pattern
  deriving DecidableEq, Repr

namespace Rule

/-- The rule of one fixed spelling. -/
def ofWord (entry : Text × TokenKind) : Rule := ⟨.token entry.2, .word entry.1⟩

/-- All rules in the order of their priority. -/
def table : List Rule :=
  [⟨.whitespace, .blanks⟩, ⟨.comment, .blockComment⟩, ⟨.comment, .lineComment⟩] ++
    keywords.map ofWord ++ [⟨.token .integer, .digits⟩] ++ punctuation.map ofWord ++
    [⟨.token .string, .quoted⟩, ⟨.token .identifier, .name⟩]

/-- The rule that matches furthest and how far it does; the earliest of equals. Nothing, if no
    rule matches. -/
def furthest (input : Text) : List Rule → Option (Rule × Nat)
  | [] => none
  | rule :: rules =>
    let here := rule.pattern.reach input
    match furthest input rules with
    | some (other, far) => if here < far then some (other, far) else some (rule, here)
    | none => if here = 0 then none else some (rule, here)

/-- The rule of the table that decides for an input, and the length of the lexeme. -/
def select (input : Text) : Option (Rule × Nat) := furthest input table

end Rule

end ScriptFront
