import ScriptFront.Lexer
import ScriptFront.Parser.Operation

set_option autoImplicit false

/-! # The buffered parser

A parser pulls items from a supply, a feed or a lexer, only when it has to look at them, and keeps
those that it has looked at and not consumed. So a syntax error is reported before a lexical error
that lies behind it, and two parsers can take turns on one lexer. -/

namespace ScriptFront

/-! ## Supplies -/

/-- Where a parser pulls its items from. -/
class Supply (ι : Type) where
  /-- The next item, or nothing when there is none to give. -/
  next : EStateM LexError ι (Option Item)
  /-- A number of items that is not exceeded by what is left. -/
  bound : ι → Nat

/-- Items prepared in advance. A gap between them is a moment at which the supply has nothing to
    give; it is over once it has been met, and what comes after it is given to who asks again. -/
abbrev Feed := List (Option Item)

/-- The feed of some items, without gaps. -/
def Feed.ofItems (items : List Item) : Feed := items.map some

/-- A feed gives its items in order. -/
instance : Supply Feed where
  next := fun
    | [] => .ok none []
    | item :: rest => .ok item rest
  bound := List.length

/-- A lexer gives its tokens; each of them takes at least one character. -/
instance : Supply Lexer where
  next := Lexer.nextToken
  bound lexer := lexer.cursor.rest.length

/-! ## Parsers -/

/-- The state of a parser. -/
structure Parser (ι : Type) where
  /-- The items pulled from the supply and not yet consumed. -/
  lookahead : List Item := []
  /-- How many `print`, `=` and parenthesis levels are open. -/
  depth : Nat := 0
  /-- How many of them may be open. -/
  maxDepth : Int
  supply : ι
  deriving Repr

namespace Parser

variable {ι : Type}

/-- A parser over a supply. A limit that is given takes the place of the one in force. -/
def build (limits : Limits) (maxDepth : Option Int) (supply : ι) : Parser ι :=
  { maxDepth := maxDepth.getD limits.maxDepth, supply }

/-- The same parser over another supply. -/
def withSupply {κ : Type} (parser : Parser ι) (supply : κ) : Parser κ :=
  { lookahead := parser.lookahead, depth := parser.depth, maxDepth := parser.maxDepth, supply }

variable [Supply ι]

/-- Pull items into the buffer, at most the given number of them, until there is none to give. -/
def pull : Nat → Parse (Parser ι) Unit
  | 0 => pure ()
  | count + 1 => fun parser =>
    match Supply.next parser.supply with
    | .error error supply => .error (.lexical error) { parser with supply }
    | .ok none supply => .ok () { parser with supply }
    | .ok (some item) supply =>
      pull count { parser with lookahead := parser.lookahead ++ [item], supply }

/-- Pull items until that many are in the buffer or there is none to give. -/
def fill (count : Nat) : Parse (Parser ι) Unit := do
  pull (count - (← get).lookahead.length)

/-- The item that many places after the current one, if the input goes on so far. -/
def look (ahead : Nat) : Parse (Parser ι) (Option Item) := do
  fill (ahead + 1)
  return (← get).lookahead[ahead]?

/-- Consume the current item, if there is one. -/
def take : Parse (Parser ι) (Option Item) := do
  fill 1
  let parser ← get
  match parser.lookahead with
  | [] => pure none
  | item :: rest =>
    set { parser with lookahead := rest }
    pure (some item)

instance : TokenMachine (Parser ι) where
  look := look
  take := take
  prefetch := fill
  enter parser := { parser with depth := parser.depth + 1 }
  leave parser := { parser with depth := parser.depth - 1 }
  room parser := (parser.maxDepth - parser.depth).toNat
  bound parser := parser.lookahead.length + Supply.bound parser.supply

/-! ## Runs of parser operations -/

end Parser

/-- One operation on a parser. -/
inductive ParserStep where
  | operation (operation : Operation)
  /-- The item that many places before the end of the buffer. -/
  | fromBack (back : Nat)
  /-- Complain of an item whose token is of a named kind, or of the end of the input if there is
      none. -/
  | complain (item : Option (Text × Payload × Span)) (text : Text)
  deriving DecidableEq, Repr

namespace Parser

variable {ι : Type} [Supply ι]

/-- The answer of one operation and the parser after it. -/
def step (parser : Parser ι) : ParserStep → Except Failure ParserAnswer × Parser ι
  | .operation operation => Parse.outcome (Parse.perform operation parser)
  | .fromBack back =>
    match Slice.item? parser.lookahead (-(back : Int)) with
    | some item => (.ok (.item (some item)), parser)
    | none => (.error .outOfRange, parser)
  | .complain none _ => (.error (.source (.syntactic .atEnd)), parser)
  | .complain (some (name, payload, span)) text =>
    match Token.build name payload with
    | .ok token =>
      (.error (.source (.syntactic (.blaming (some ⟨token, span⟩) (.other text)))), parser)
    | .error reason => (.error (.refused reason), parser)

/-- The answers of a sequence of operations, each with the parser after it. -/
def runSteps (parser : Parser ι) :
    List ParserStep → List (Except Failure ParserAnswer × Parser ι)
  | [] => []
  | op :: ops =>
    let result := parser.step op
    result :: result.2.runSteps ops

end Parser

/-! ## Whole inputs -/

/-- The program that a feed gives up to its first gap or its end. -/
def parseFeed (limits : Limits) (maxDepth : Option Int) (feed : Feed) :
    Except SourceError Program :=
  match Parse.program (Parser.build limits maxDepth feed) with
  | .ok program _ => .ok program
  | .error error _ => .error error

/-- The program of a source. -/
def parseSource (limits : Limits) (maxBytes maxDepth : Option Int) (source : Text) :
    Except Failure Program :=
  match Lexer.build limits maxBytes source with
  | .error reason => .error (.refused reason)
  | .ok lexer =>
    match Parse.program (Parser.build limits maxDepth lexer) with
    | .ok program _ => .ok program
    | .error error _ => .error (.source error)

end ScriptFront
