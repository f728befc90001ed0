import ScriptFront.Token

set_option autoImplicit false

/-! # Failures

A source can be malformed in two ways that never mix: a lexical error, where no lexeme can be read,
and a syntax error, where the grammar cannot take the next token or the input ends early. Apart from
these, a value may be refused before any work starts, and a reader may be asked for more than there
is. -/

namespace ScriptFront

/-! ## Lexical errors -/

/-- Why no lexeme could be read. -/
inductive LexicalFault where
  | integerOverflow
  | unexpectedCharacter
  | unterminatedComment
  deriving DecidableEq, Repr

namespace LexicalFault

/-- The name of a fault in diagnostics and answers. -/
def name : LexicalFault → Text
  | integerOverflow => "INTEGER_OVERFLOW".toList
  | unexpectedCharacter => "UNEXPECTED_CHARACTER".toList
  | unterminatedComment => "UNTERMINATED_COMMENT".toList

/-- The fault with a given name. -/
def ofName? (text : Text) : Option LexicalFault :=
  [integerOverflow, unexpectedCharacter, unterminatedComment].find? (·.name = text)

theorem ofName?_name (fault : LexicalFault) : ofName? fault.name = some fault := by
  cases fault <;> decide

end LexicalFault

/-- A lexical error: the fault, the text it is about and, if it is known, where that text stands. -/
structure LexError where
  fault : LexicalFault
  lexeme : Text
  span : Option Span
  deriving DecidableEq, Repr

namespace LexError

/-- The message of a lexical error. -/
def message (error : LexError) : Text :=
  match error.fault with
  | .integerOverflow => "integer ".toList ++ error.lexeme ++ " is out of range".toList
  | .unexpectedCharacter => "unexpected character: ".toList ++ error.lexeme
  | .unterminatedComment => "unterminated block comment".toList

/-- A lexical error with all its parts, on one line. -/
def display (error : LexError) : Text :=
  "LexError(".toList ++ error.fault.name ++ ", ".toList ++ Quoted.quote error.lexeme ++
    ", ".toList ++ Span.displayOptional error.span ++ [')']

end LexError

/-! ## Syntax errors -/

/-- What a syntax error complains of. -/
inductive Complaint where
  | unexpectedToken
  | unexpectedEnd
  | expectedSemicolon
  | expectedParen
  | badTarget
  | tooDeep
  /-- A complaint in the words of the caller. -/
  | other (text : Text)
  deriving DecidableEq, Repr

/-- The wording of a complaint. -/
def Complaint.text : Complaint → Text
  | unexpectedToken => "unexpected token".toList
  | unexpectedEnd => "unexpected end of input".toList
  | expectedSemicolon => "expected ';' after statement".toList
  | expectedParen => "expected ')'".toList
  | badTarget => "assignment target must be an identifier".toList
  | tooDeep => "expression nested too deeply".toList
  | other text => text

/-- A syntax error: the token it blames and where that token stands; neither when the input has
    ended. -/
structure SyntaxError where
  token : Option Token
  span : Option Span
  complaint : Complaint
  deriving DecidableEq, Repr

namespace SyntaxError

/-- The error of an input that ends too early. -/
def atEnd : SyntaxError := ⟨none, none, .unexpectedEnd⟩

/-- The error that blames an item. A missing item means that the input has ended, which is then the
    complaint, whatever else was to be said. -/
def blaming (item : Option Item) (complaint : Complaint) : SyntaxError :=
  match item with
  | none => atEnd
  | some item => ⟨some item.token, some item.span, complaint⟩

/-- The message of a syntax error: the complaint, and what it is about if that is known. -/
def message (error : SyntaxError) : Text :=
  match error.token, error.span with
  | some token, some span =>
    error.complaint.text ++ ": ".toList ++ token.display ++ " at ".toList ++
      Numeral.ofInt span.lo ++ "..".toList ++ Numeral.ofInt span.hi
  | _, _ => error.complaint.text

/-- A syntax error with all its parts, on one line. -/
def display (error : SyntaxError) : Text :=
  "ParseError(".toList ++ (error.token.map Token.display).getD "None".toList ++ ", ".toList ++
    Span.displayOptional error.span ++ ", ".toList ++
    Quoted.quote error.complaint.text ++ [')']

end SyntaxError

/-! ## Malformed sources -/

/-- Why a source is malformed. -/
inductive SourceError where
  | lexical (error : LexError)
  | syntactic (error : SyntaxError)
  deriving DecidableEq, Repr

namespace SourceError

/-- The message of the error. -/
def message : SourceError → Text
  | lexical error => error.message
  | syntactic error => error.message

/-- Where the error is, if that is known; it is not at the end of the input. -/
def span? : SourceError → Option Span
  | lexical error => error.span
  | syntactic error => error.span

/-- The two classes of errors, as diagnostics name them. -/
def label : SourceError → Text
  | lexical _ => "lexical error".toList
  | syntactic _ => "syntax error".toList

end SourceError

/-! ## Refusals and other failures -/

/-- What a value is that was given where an integer was wanted. -/
inductive ValueShape where
  | boolean | nothing | text | fraction | sequence | mapping
  deriving DecidableEq, Repr

/-- The name of a shape in messages. -/
def ValueShape.name : ValueShape → Text
  | boolean => "bool".toList
  | nothing => "NoneType".toList
  | text => "str".toList
  | fraction => "float".toList
  | sequence => "list".toList
  | mapping => "dict".toList

/-- Why a value is refused before any work starts. -/
inductive Refusal where
  | unknownTokenType (name : Text)
  | unknownErrorKind (name : Text)
  | unknownLiteralKind (name : Text)
  | sourceTooLong (size : Nat) (limit : Int)
  | integerOutOfRange (value : Int)
  | notAnInteger (found : ValueShape)
  | notANumeral (text : Text)
  deriving DecidableEq, Repr

/-- The message of a refusal. -/
def Refusal.message : Refusal → Text
  | unknownTokenType name => "unknown token type: ".toList ++ Quoted.quote name
  | unknownErrorKind name => "unknown lexical error kind: ".toList ++ Quoted.quote name
  | unknownLiteralKind name => "unknown literal kind: ".toList ++ Quoted.quote name
  | sourceTooLong size limit =>
    "source is ".toList ++ Numeral.ofNat size ++ " bytes, limit is ".toList ++ Numeral.ofInt limit
  | integerOutOfRange value =>
    "integer ".toList ++ Numeral.ofInt value ++ " is out of range".toList
  | notAnInteger found => "integer literal needs an int, got ".toList ++ found.name
  | notANumeral text =>
    "invalid literal for int() with base 10: ".toList ++ Quoted.quote text

/-- Everything that can make an operation fail. -/
inductive Failure where
  | source (error : SourceError)
  | refused (reason : Refusal)
  /-- An item was asked for and the input has ended. -/
  | exhausted
  /-- A position outside the buffer was asked for. -/
  | outOfRange
  /-- Something was asked for by a name that nothing has. -/
  | unknownName (name : Text)
  deriving DecidableEq, Repr

/-! ## Named values -/

/-- The token of a named kind, if the name is that of a kind. -/
def Token.build (name : Text) (payload : Payload) : Except Refusal Token :=
  match TokenKind.ofName? name with
  | some kind => .ok ⟨kind, payload⟩
  | none => .error (.unknownTokenType name)

/-- The lexical error of a named kind, if the name is that of a fault. -/
def LexError.build (name lexeme : Text) (span : Option Span) : Except Refusal LexError :=
  match LexicalFault.ofName? name with
  | some fault => .ok ⟨fault, lexeme, span⟩
  | none => .error (.unknownErrorKind name)

end ScriptFront
