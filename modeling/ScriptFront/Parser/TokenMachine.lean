import ScriptFront.Failure
import ScriptFront.Expr

set_option autoImplicit false

/-! # Token machines

The grammar is written against what it needs of the place that tokens come from: to look ahead, to
take a token, and to keep count of the levels that are open. Any state with these operations is a
token machine, and the parser runs on each of them in the same way. An operation that fails keeps
the state it has reached. -/

namespace ScriptFront

/-- An operation on a state that may report a malformed source; the state is kept either way. -/
abbrev Parse (σ α : Type) := EStateM SourceError σ α

/-- A state that tokens can be read from. -/
class TokenMachine (σ : Type) where
  /-- The item that many places after the current one, if the input goes on so far. -/
  look : Nat → Parse σ (Option Item)
  /-- Consume the current item, if there is one. -/
  take : Parse σ (Option Item)
  /-- Make ready for looking at that many items. -/
  prefetch : Nat → Parse σ Unit
  /-- Open a level. -/
  enter : σ → σ
  /-- Close a level. -/
  leave : σ → σ
  /-- How many more levels may be opened. -/
  room : σ → Nat
  /-- A number of items that is not exceeded by what is left. -/
  bound : σ → Nat

namespace Parse

variable {σ α : Type}

/-- Report a malformed source, blaming an item or, if there is none, the end of the input. -/
def reject (item : Option Item) (complaint : Complaint) : Parse σ α :=
  throw (.syntactic (.blaming item complaint))

/-- Run an operation one level deeper. The level is closed again however the operation ends. -/
def deeper [TokenMachine σ] (body : Parse σ α) : Parse σ α := fun state =>
  match body (TokenMachine.enter state) with
  | .ok value state => .ok value (TokenMachine.leave state)
  | .error error state => .error error (TokenMachine.leave state)

variable [TokenMachine σ]

/-- The current item, if the input has not ended. -/
def current : Parse σ (Option Item) := TokenMachine.look 0

/-- The current item; the end of the input is an error. -/
def first : Parse σ Item := do
  match ← current with
  | some item => pure item
  | none => reject none .unexpectedEnd

/-- Whether the current item is of one of some kinds. -/
def isAt (kinds : List TokenKind) : Parse σ Bool := do
  match ← current with
  | some item => pure (kinds.contains item.kind)
  | none => pure false

/-- Consume the current item; the end of the input is an error. -/
def advance : Parse σ Item := do
  match ← TokenMachine.take with
  | some item => pure item
  | none => reject none .unexpectedEnd

/-- Consume the current item if it is of a given kind, and complain of it otherwise. -/
def expect (kind : TokenKind) (complaint : Complaint) : Parse σ Item := do
  match ← current with
  | some item => if item.kind = kind then advance else reject (some item) complaint
  | none => reject none complaint

end Parse

/-! ## The unbuffered machine

The simplest token machine stands before the items of a list that are still to be read and has no
buffer: it looks at them where they are. -/

/-- A place in a list of items, with the count of open levels and its limit. -/
structure Unbuffered where
  items : List Item
  depth : Nat := 0
  maxDepth : Int
  deriving DecidableEq, Repr

instance : TokenMachine Unbuffered where
  look ahead := do return (← get).items[ahead]?
  take := do
    let state ← get
    match state.items with
    | [] => pure none
    | item :: rest =>
      set { state with items := rest }
      pure (some item)
  prefetch _ := pure ()
  enter state := { state with depth := state.depth + 1 }
  leave state := { state with depth := state.depth - 1 }
  room state := (state.maxDepth - state.depth).toNat
  bound state := state.items.length

end ScriptFront
