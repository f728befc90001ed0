import ScriptFront.Parser.Buffer

set_option autoImplicit false

/-! # Sessions

A session holds the limits in force and any number of lexers and parsers by name. Several parsers
may share one lexer, and each takes its tokens from where the others have left it. The limits are
read when a lexer or a parser is built and not again. Lexers stand in a row in which none is ever
removed, and a parser knows its lexer by the place in that row; so a name that is given to a new
lexer leaves the parsers of the old one as they were. A build that is refused changes nothing. -/

namespace ScriptFront

/-! ## State -/

/-- The state of a session. -/
structure Session where
  limits : Limits := {}
  /-- All lexers, in the order in which they were built. -/
  lexers : List Lexer := []
  /-- The places of lexers by name, the latest first. -/
  lexerNames : List (Text × Nat) := []
  /-- The parsers by name, the latest first, each with the place of its lexer. -/
  parsers : List (Text × Parser Nat) := []
  deriving Repr

/-- One step of a session. -/
inductive SessionStep where
  | setMaxBytes (value : Option Int)
  | setMaxDepth (value : Int)
  | lexer (name : Text) (source : Text) (maxBytes : Option Int)
  | parser (name : Text) (lexer : Text) (maxDepth : Option Int)
  /-- The next token of a lexer. -/
  | next (name : Text)
  /-- Parse all statements that are left. -/
  | run (name : Text)
  | parse (source : Text) (maxBytes : Option Int)
  | tokenize (source : Text) (maxBytes : Option Int)
  deriving DecidableEq, Repr

/-- What a step answers. -/
inductive SessionAnswer where
  | done
  | depth (maxDepth : Int)
  | item (item : Option Item)
  | dump (texts : List Text)
  | count (tokens : Nat)
  deriving DecidableEq, Repr

namespace Session

/-- The place of a named lexer and the lexer. -/
def lexer? (session : Session) (name : Text) : Option (Nat × Lexer) := do
  let place ← session.lexerNames.lookup name
  let lexer ← session.lexers[place]?
  pure (place, lexer)

/-- The session with one lexer replaced. -/
def setLexer (session : Session) (place : Nat) (lexer : Lexer) : Session :=
  { session with lexers := session.lexers.set place lexer }

/-- The session with a named parser. -/
def setParser (session : Session) (name : Text) (parser : Parser Nat) : Session :=
  { session with parsers := (name, parser) :: session.parsers }

/-! ## Steps -/

/-- Build a lexer under a name. -/
def addLexer (session : Session) (name source : Text) (maxBytes : Option Int) :
    Except Failure SessionAnswer × Session :=
  match Lexer.build session.limits maxBytes source with
  | .error reason => (.error (.refused reason), session)
  | .ok lexer =>
    (.ok .done,
      { session with
        lexers := session.lexers ++ [lexer]
        lexerNames := (name, session.lexers.length) :: session.lexerNames })

/-- Build a parser over a named lexer under a name. -/
def addParser (session : Session) (name lexer : Text) (maxDepth : Option Int) :
    Except Failure SessionAnswer × Session :=
  match session.lexerNames.lookup lexer with
  | none => (.error (.unknownName lexer), session)
  | some place =>
    let parser := Parser.build session.limits maxDepth place
    (.ok (.depth parser.maxDepth), session.setParser name parser)

/-- The next token of a named lexer. -/
def nextToken (session : Session) (name : Text) : Except Failure SessionAnswer × Session :=
  match session.lexer? name with
  | none => (.error (.unknownName name), session)
  | some (place, lexer) =>
    match Lexer.nextToken lexer with
    | .ok item lexer => (.ok (.item item), session.setLexer place lexer)
    | .error error lexer => (.error (.source (.lexical error)), session.setLexer place lexer)

/-- The statements that a named parser still finds. -/
def runParser (session : Session) (name : Text) : Except Failure SessionAnswer × Session :=
  match session.parsers.lookup name with
  | none => (.error (.unknownName name), session)
  | some parser =>
    match session.lexers[parser.supply]? with
    | none => (.error (.unknownName name), session)
    | some lexer =>
      let place := parser.supply
      match Parse.outcome (Parse.program (parser.withSupply lexer)) with
      | (result, parser) =>
        let session := (session.setLexer place parser.supply).setParser name
          (parser.withSupply place)
        (result.map fun program => .dump program.dump, session)

/-- The answer of one step and the session after it. -/
def step (session : Session) : SessionStep → Except Failure SessionAnswer × Session
  | .setMaxBytes value =>
    (.ok .done, { session with limits := { session.limits with maxBytes := value } })
  | .setMaxDepth value =>
    (.ok .done, { session with limits := { session.limits with maxDepth := value } })
  | .lexer name source maxBytes => session.addLexer name source maxBytes
  | .parser name lexer maxDepth => session.addParser name lexer maxDepth
  | .next name => session.nextToken name
  | .run name => session.runParser name
  | .parse source maxBytes =>
    ((parseSource session.limits maxBytes none source).map fun program => .dump program.dump,
      session)
  | .tokenize source maxBytes =>
    ((ScriptFront.tokenize session.limits maxBytes source).map fun items => .count items.length,
      session)

/-- The answers of a sequence of steps. -/
def runSteps (session : Session) : List SessionStep → List (Except Failure SessionAnswer)
  | [] => []
  | op :: ops =>
    let (answer, session) := session.step op
    answer :: session.runSteps ops

end Session

end ScriptFront
