import ScriptFront.Rule
import ScriptFront.Failure
import ScriptFront.Cursor

set_option autoImplicit false

/-! # The lexer

A lexer walks a cursor through a source and gives one token at a time, each with its span. Blanks
and comments are skipped. It stops for good at the end of the source or at the first lexical error:
a block comment that is never closed, a character that starts no lexeme, or an integer outside the
range of the language. Operations that fail keep the state they have reached. -/

namespace ScriptFront

/-! ## Limits -/

/-- The limits in force when nothing else is asked for: how long a source may be and how deeply
    expressions may nest. They may be set while the library is in use. A limit is read when a lexer
    or a parser is built and may be overridden there. -/
structure Limits where
  /-- The most UTF-8 bytes a source may have, if there is a limit. -/
  maxBytes : Option Int := none
  /-- The most `print`, `=` and parenthesis levels that may be open at once. -/
  maxDepth : Int := 100
  deriving DecidableEq, Repr

/-- The most digits that the machine converts to an integer. -/
def conversionLimit : Nat := 4300

/-! ## Lexers -/

/-- The state of a lexer. -/
structure Lexer where
  cursor : Cursor
  /-- Whether the source has ended or an error has been reported. -/
  done : Bool := false
  /-- How many tokens have been given. -/
  emitted : Nat := 0
  deriving DecidableEq, Repr

/-- An operation of a lexer: it may report a lexical error, and the state is kept either way. -/
abbrev Lexing (α : Type) := EStateM LexError Lexer α

namespace Lexer

/-- A lexer at the start of a source, without a limit on its size. -/
def start (source : Text) : Lexer := { cursor := Cursor.start source }

/-- A lexer for a source, unless the source is longer than the limit. A limit that is given takes
    the place of the one in force. -/
def build (limits : Limits) (maxBytes : Option Int) (source : Text) : Except Refusal Lexer :=
  match maxBytes <|> limits.maxBytes with
  | none => .ok (start source)
  | some limit =>
    if (Utf8.size source : Int) > limit then .error (.sourceTooLong (Utf8.size source) limit)
    else .ok (start source)

theorem build_eq_ok {limits : Limits} {maxBytes : Option Int} {source : Text} {lexer : Lexer}
    (h : build limits maxBytes source = .ok lexer) : lexer = start source := by
  unfold build at h
  split at h
  · exact (Except.ok.inj h).symm
  · split at h
    · exact absurd h (by simp)
    · exact (Except.ok.inj h).symm

/-! ## One lexeme -/

/-- The lexeme at a cursor: the longest one that any rule matches, by the earliest such rule. An
    opening of a block comment that starts no comment is an error even though its first character
    is a symbol. -/
def lexemeAt (cursor : Cursor) : Except LexError (LexemeKind × Text) :=
  let found := Rule.select cursor.rest
  if cursor.startsWith blockOpen ∧ found.map (·.1.kind) ≠ some .comment then
    .error ⟨.unterminatedComment, blockOpen, some cursor.remainingSpan⟩
  else
    match found with
    | some (rule, length) => .ok (rule.kind, cursor.rest.take length)
    | none =>
      let lexeme := cursor.current?.toList
      .error ⟨.unexpectedCharacter, lexeme, some (cursor.spanOf lexeme)⟩

/-- Stop for good and report an error. -/
def fail {α : Type} (error : LexError) : Lexing α := do
  modify ({ · with done := true })
  throw error

/-- The lexeme under the cursor, which stays where it is. -/
def matchRule : Lexing (LexemeKind × Text) := do
  match lexemeAt (← get).cursor with
  | .ok lexeme => pure lexeme
  | .error error => fail error

/-! ## One token -/

/-- The token of a lexeme: integers carry their value, identifiers their text, strings the text
    between their outer quotes. The span is what an error reports. A text that is no lexeme need not
    stand for an integer; then it is refused, which is no error of the source. -/
def makeToken (kind : TokenKind) (text : Text) (span : Option Span) :
    Lexing (Except Refusal Token) := do
  match kind with
  | .integer =>
    match readInteger conversionLimit text with
    | .ok n => pure (.ok ⟨.integer, .integer n⟩)
    | .error .outOfRange => fail ⟨.integerOverflow, text, span⟩
    | .error .notANumeral => pure (.error (.notANumeral (Numeral.significantDigits text)))
  | .identifier => pure (.ok ⟨.identifier, .text text⟩)
  | .string => pure (.ok ⟨.string, .text text.tail.dropLast⟩)
  | kind => pure (.ok ⟨kind, .none⟩)

/-- Move the cursor behind a lexeme and give its span. -/
def consume (text : Text) : Lexing Span := do
  let lexer ← get
  set { lexer with cursor := lexer.cursor.advance text }
  pure (lexer.cursor.spanOf text)

/-- The next token, looking at no more than the given number of lexemes. -/
def nextWithin : Nat → Lexing (Option Item)
  | 0 => pure none
  | fuel + 1 => do
    let lexer ← get
    if lexer.done then
      pure none
    else if lexer.cursor.atEnd then
      set { lexer with done := true }
      pure none
    else
      let (kind, text) ← matchRule
      let span ← consume text
      match kind with
      | .token kind =>
        match ← makeToken kind text (some span) with
        | .ok token =>
          modify fun lexer => { lexer with emitted := lexer.emitted + 1 }
          pure (some ⟨token, span⟩)
        -- a text that a rule has taken is not refused
        | .error _ => pure none
      | _ => nextWithin fuel

/-- The next token, or nothing when there are no more. Each lexeme takes at least one character, so
    there are no more lexemes than unread characters. -/
def nextToken : Lexing (Option Item) := do
  nextWithin ((← get).cursor.rest.length + 1)

/-! ## All tokens -/

/-- The next tokens, at most the given number of them, and the error that ended them, if one did;
    with the lexer after that. -/
def drainWithin : Nat → Lexer → (List Item × Option LexError) × Lexer
  | 0, lexer => (([], none), lexer)
  | fuel + 1, lexer =>
    match nextToken lexer with
    | .error error lexer => (([], some error), lexer)
    | .ok none lexer => (([], none), lexer)
    | .ok (some item) lexer =>
      let ((items, ending), lexer) := drainWithin fuel lexer
      ((item :: items, ending), lexer)

/-- All tokens that are left, and the error that ended them, if one did. -/
def drain (lexer : Lexer) : (List Item × Option LexError) × Lexer :=
  drainWithin (lexer.cursor.rest.length + 1) lexer

end Lexer

/-- The tokens of a source, or the error that ends them. -/
def lexSource (source : Text) : Except LexError (List Item) :=
  match (Lexer.start source).drain with
  | ((items, none), _) => .ok items
  | ((_, some error), _) => .error error

/-- The tokens of a source within a limit on its size. -/
def tokenize (limits : Limits) (maxBytes : Option Int) (source : Text) :
    Except Failure (List Item) :=
  match Lexer.build limits maxBytes source with
  | .error reason => .error (.refused reason)
  | .ok _ =>
    match lexSource source with
    | .error error => .error (.source (.lexical error))
    | .ok items => .ok items

/-! ## Runs of lexer operations -/

/-- One operation on a lexer. -/
inductive LexerStep where
  /-- The next token, where the end is a failure. -/
  | next
  /-- The next token, where the end is an answer. -/
  | nextToken
  | matchRule
  | makeToken (kind : Text) (text : Text) (span : Option Span)
  | fail (kind : Text) (lexeme : Text) (span : Option Span)
  /-- All tokens that are left. -/
  | drain
  deriving DecidableEq, Repr

/-- What an operation on a lexer answers. -/
inductive LexerAnswer where
  | item (item : Option Item)
  | lexeme (kind : LexemeKind) (text : Text)
  | token (token : Token)
  | items (items : List Item)
  deriving DecidableEq, Repr

namespace Lexer

/-- The outcome of an operation as an answer or a failure, with the lexer after it. -/
def answer {α : Type} (wrap : α → Except Failure LexerAnswer) :
    EStateM.Result LexError Lexer α → Except Failure LexerAnswer × Lexer
  | .ok value lexer => (wrap value, lexer)
  | .error error lexer => (.error (.source (.lexical error)), lexer)

/-- The answer of one operation and the lexer after it. -/
def step (lexer : Lexer) : LexerStep → Except Failure LexerAnswer × Lexer
  | .next => answer (fun
      | some item => .ok (.item (some item))
      | none => .error .exhausted) (nextToken lexer)
  | .nextToken => answer (fun item => .ok (.item item)) (nextToken lexer)
  | .matchRule => answer (fun found => .ok (.lexeme found.1 found.2)) (matchRule lexer)
  | .makeToken name text span =>
    match TokenKind.ofName? name with
    | some kind => answer (fun
      | .ok token => .ok (.token token)
      | .error reason => .error (.refused reason)) (makeToken kind text span lexer)
    | none => (.error (.refused (.unknownTokenType name)), lexer)
  | .fail name lexeme span =>
    match LexError.build name lexeme span with
    | .ok error => answer (fun (token : Token) => .ok (.token token)) (fail error lexer)
    | .error reason => (.error (.refused reason), { lexer with done := true })
  | .drain =>
    match lexer.drain with
    | ((items, none), lexer) => (.ok (.items items), lexer)
    | ((_, some error), lexer) => (.error (.source (.lexical error)), lexer)

/-- The answers of a sequence of operations, each with the lexer after it. -/
def runSteps (lexer : Lexer) : List LexerStep → List (Except Failure LexerAnswer × Lexer)
  | [] => []
  | op :: ops =>
    let result := lexer.step op
    result :: result.2.runSteps ops

end Lexer

end ScriptFront
