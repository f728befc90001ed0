import ScriptFront.Parser.Descent

set_option autoImplicit false

/-! # Operations on token machines

The operations that a token machine offers, as data, so that a sequence of them can be run and
talked about. An operation that fails does not stop the ones after it. -/

namespace ScriptFront

/-- One operation on a token machine. -/
inductive Operation where
  | prefetch (count : Nat)
  | current
  | peek (offset : Nat)
  /-- Whether the current token's kind has one of some names. -/
  | isAt (names : List Text)
  | advance
  /-- Consume the current token if its kind has a given name. -/
  | expect (name : Text) (text : Text)
  | program | statement | assign | term | fact | atom
  deriving DecidableEq, Repr

/-- What an operation answers. -/
inductive ParserAnswer where
  | done
  | item (item : Option Item)
  | flag (value : Bool)
  | expr (expr : Expr)
  | program (program : Program)
  deriving DecidableEq, Repr

namespace Parse

variable {σ : Type} [TokenMachine σ]

/-- The answer of an operation. -/
def perform : Operation → Parse σ ParserAnswer
  | .prefetch count => do
    TokenMachine.prefetch count
    pure .done
  | .current => return .item (← current)
  | .peek offset => return .item (← TokenMachine.look offset)
  | .isAt names => return .flag (← isAt (names.filterMap TokenKind.ofName?))
  | .advance => return .item (some (← advance))
  | .expect name text => do
    match TokenKind.ofName? name with
    | some kind => return .item (some (← expect kind (.other text)))
    | none => reject (← current) (.other text)
  | .program => return .program (← program)
  | .statement => return .expr (← statement)
  | .assign => return .expr (← assign)
  | .term => return .expr (← term)
  | .fact => return .expr (← fact)
  | .atom => return .expr (← atom)

/-- The answer of an operation or its failure, and the state after it. -/
def outcome {α : Type} : EStateM.Result SourceError σ α → Except Failure α × σ
  | .ok value state => (.ok value, state)
  | .error error state => (.error (.source error), state)

end Parse

end ScriptFront
