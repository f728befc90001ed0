import ScriptFront.Parser.TokenMachine

set_option autoImplicit false

/-! # Recursive descent

The grammar, from the loosest binding to the tightest:

    statements := (assign ';')*
    assign     := 'print' assign | name '=' assign | term
    term       := fact (('+' | '-') fact)*
    fact       := atom (('*' | '/') atom)*
    atom       := name | integer | '(' assign ')'

`print` and `=` group to the right, the arithmetic operators to the left, and parentheses leave no
trace in the tree. One token of lookahead is enough everywhere but after a name at the start of an
`assign`, where a second one tells a target from an operand.

Every `print`, `=` and parenthesis opens an `assign` level, and the number of levels that may still
be opened, the room, is what `assign` recurses on. The runs of operators and of statements are
bounded by a number of items, the fuel; with as much of it as the input has items a run ends only
where the grammar ends it. -/

namespace ScriptFront.Parse

variable {σ : Type} [TokenMachine σ]

/-! ## Operators -/

/-- The operator of a `term` that a kind of tokens stands for. -/
def termOperator? : TokenKind → Option Operator
  | .plus => some .add
  | .minus => some .sub
  | _ => none

/-- The operator of a `fact` that a kind of tokens stands for. -/
def factOperator? : TokenKind → Option Operator
  | .star => some .mul
  | .slash => some .div
  | _ => none

/-- Go on with a run of operators and operands, grouping to the left. -/
def chain (operator? : TokenKind → Option Operator) (operand : Parse σ Expr) :
    Nat → Expr → Parse σ Expr
  | 0, left => pure left
  | fuel + 1, left => do
    match (← current).bind (operator? ·.kind) with
    | none => pure left
    | some operator =>
      let _ ← advance
      let right ← operand
      chain operator? operand fuel (.binary (left.span.combine right.span) operator left right)

/-! ## The levels of the grammar

Each level takes the parser of the `assign` that it may contain. -/

/-- A name, an integer, or an `assign` in parentheses. -/
def atomWith (nested : Parse σ Expr) : Parse σ Expr := do
  let item ← first
  match item.kind with
  | .identifier =>
    let _ ← advance
    pure (.var item.span item.token.payload)
  | .integer =>
    let _ ← advance
    pure (.literal item.span item.token.payload)
  | .leftParen =>
    let _ ← advance
    let inner ← nested
    let _ ← expect .rightParen .expectedParen
    pure inner
  | _ => reject (some item) .unexpectedToken

/-- Products and quotients of atoms. -/
def factWith (fuel : Nat) (nested : Parse σ Expr) : Parse σ Expr := do
  let left ← atomWith nested
  chain factOperator? (atomWith nested) fuel left

/-- Sums and differences of facts. -/
def termWith (fuel : Nat) (nested : Parse σ Expr) : Parse σ Expr := do
  let left ← factWith fuel nested
  chain termOperator? (factWith fuel nested) fuel left

/-- A term that nothing may be assigned to: an `=` after it is blamed on where it began. -/
def operandWith (fuel : Nat) (nested : Parse σ Expr) (start : Item) : Parse σ Expr := do
  let expr ← termWith fuel nested
  if ← isAt [.equals] then reject (some start) .badTarget
  else pure expr

/-- The inside of an `assign` level that starts at an item. -/
def levelWith (fuel : Nat) (nested : Parse σ Expr) (start : Item) : Parse σ Expr := do
  match start.kind with
  | .print =>
    let _ ← advance
    let inner ← nested
    pure (.print (start.span.combine inner.span) inner)
  | .identifier =>
    let following ← TokenMachine.look 1
    if following.map Item.kind = some .equals then
      let _ ← advance
      let _ ← advance
      let value ← nested
      pure (.assign (start.span.combine value.span) start.token.payload value)
    else operandWith fuel nested start
  | _ => operandWith fuel nested start

/-- An `assign` level, with room for that many levels. -/
def assignWith (fuel : Nat) : Nat → Parse σ Expr
  | 0 => do
    let start ← first
    reject (some start) .tooDeep
  | room + 1 => do
    let start ← first
    deeper (levelWith fuel (assignWith fuel room) start)

/-- A statement: an `assign` and its semicolon. -/
def statementWith (fuel room : Nat) : Parse σ Expr := do
  let expr ← assignWith fuel room
  let _ ← expect .semicolon .expectedSemicolon
  pure expr

/-- Statements up to the end of the input, at most the given number of them. -/
def statementsWith (fuel room : Nat) : Nat → Parse σ (List Expr)
  | 0 => pure []
  | count + 1 => do
    match ← current with
    | none => pure []
    | some _ =>
      let statement ← statementWith fuel room
      let others ← statementsWith fuel room count
      pure (statement :: others)

/-! ## Entry points -/

/-- Run a parser with fuel for the whole input and the room that the state leaves. -/
def sized {α : Type} (body : Nat → Nat → Parse σ α) : Parse σ α := fun state =>
  body (TokenMachine.bound state + 1) (TokenMachine.room state) state

/-- Read an atom. -/
def atom : Parse σ Expr := sized fun fuel room => atomWith (assignWith fuel room)

/-- Read a fact. -/
def fact : Parse σ Expr := sized fun fuel room => factWith fuel (assignWith fuel room)

/-- Read a term. -/
def term : Parse σ Expr := sized fun fuel room => termWith fuel (assignWith fuel room)

/-- Read an `assign`. -/
def assign : Parse σ Expr := sized assignWith

/-- Read a statement. -/
def statement : Parse σ Expr := sized statementWith

/-- Read statements up to the end of the input. -/
def program : Parse σ Program := do
  let statements ← sized fun fuel room => statementsWith fuel room fuel
  pure ⟨statements⟩

end ScriptFront.Parse
