import ScriptFront.Text.Quoted
import ScriptFront.Span

set_option autoImplicit false

/-! # Tokens

A token has a kind, one of a closed set of twenty-nine, and a payload: the value of an integer, the
text of an identifier or string, nothing for a bare marker. Which payload goes with which kind is
the lexer's affair; a token built elsewhere may carry any. -/

namespace ScriptFront

/-! ## Kinds -/

/-- What a token is. -/
inductive TokenKind where
  | print | typeOf | env | trueWord | falseWord
  | leftBracket | rightBracket | leftBrace | rightBrace | comma
  | equals | plus | minus | star | slash
  | leftParen | rightParen | semicolon | bang
  | greater | less | greaterEqual | lessEqual | equalEqual | bangEqual | dot
  | integer | identifier | string
  deriving DecidableEq, Repr

namespace TokenKind

/-- The name of a kind in diagnostics and answers. -/
def name : TokenKind → Text
  | print => "PRINT".toList
  | typeOf => "TYPEOF".toList
  | env => "ENV".toList
  | trueWord => "TRUE".toList
  | falseWord => "FALSE".toList
  | leftBracket => "LBRACK".toList
  | rightBracket => "RBRACK".toList
  | leftBrace => "LBRACE".toList
  | rightBrace => "RBRACE".toList
  | comma => "COMMA".toList
  | equals => "EQUALS".toList
  | plus => "PLUS".toList
  | minus => "MINUS".toList
  | star => "STAR".toList
  | slash => "SLASH".toList
  | leftParen => "LPAREN".toList
  | rightParen => "RPAREN".toList
  | semicolon => "SEMI".toList
  | bang => "BANG".toList
  | greater => "GT".toList
  | less => "LT".toList
  | greaterEqual => "GE".toList
  | lessEqual => "LE".toList
  | equalEqual => "EQ".toList
  | bangEqual => "NE".toList
  | dot => "DOT".toList
  | integer => "INTEGER".toList
  | identifier => "IDENT".toList
  | string => "STRING".toList

/-- Every kind, in the alphabetical order of the names. -/
def all : List TokenKind :=
  [bang, comma, dot, env, equalEqual, equals, falseWord, greaterEqual, greater, identifier,
    integer, leftBrace, leftBracket, lessEqual, leftParen, less, minus, bangEqual, plus, print,
    rightBrace, rightBracket, rightParen, semicolon, slash, star, string, trueWord, typeOf]

theorem mem_all (kind : TokenKind) : kind ∈ all := by cases kind <;> decide

/-- The kind with a given name. -/
def ofName? (text : Text) : Option TokenKind := all.find? (·.name = text)

theorem ofName?_name (kind : TokenKind) : ofName? kind.name = some kind := by
  cases kind <;> decide

end TokenKind

/-! ## Payloads -/

/-- What a token carries beside its kind. -/
inductive Payload where
  | none
  | integer (value : Int)
  | text (value : Text)
  deriving DecidableEq, Repr

/-- A payload as diagnostics show it: integers plain, text in quotes. -/
def Payload.display : Payload → Text
  | none => "None".toList
  | integer value => Numeral.ofInt value
  | text value => Quoted.quote value

/-- A payload as it stands in the compact form of a tree: integers and text plain. -/
def Payload.plain : Payload → Text
  | none => "None".toList
  | integer value => Numeral.ofInt value
  | text value => value

/-! ## Tokens -/

/-- A token: its kind and what it carries. -/
structure Token where
  kind : TokenKind
  payload : Payload := .none
  deriving DecidableEq, Repr

/-- A token as diagnostics show it. -/
def Token.display (token : Token) : Text :=
  "Token(".toList ++ token.kind.name ++
    (match token.payload with
      | .none => []
      | payload => ", ".toList ++ payload.display) ++ [')']

/-! ## Tokens in place -/

/-- What a lexer gives and a parser reads: a token together with where it stands. -/
structure Item where
  token : Token
  span : Span
  deriving DecidableEq, Repr

/-- The kind of an item's token. -/
def Item.kind (item : Item) : TokenKind := item.token.kind

end ScriptFront
