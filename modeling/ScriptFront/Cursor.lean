import ScriptFront.Span

set_option autoImplicit false

/-! # Cursors

A cursor stands somewhere in a source: it holds the text that is still unread, and counts what has
been read, in characters and in UTF-8 bytes. The two counts move together, so a span in bytes can be
given for every piece of text that is read. -/

namespace ScriptFront

/-- A place in a source. -/
structure Cursor where
  /-- The unread text. -/
  rest : Text
  /-- The number of characters read. -/
  position : Nat := 0
  /-- The number of UTF-8 bytes read. -/
  offset : Nat := 0
  deriving DecidableEq, Repr

namespace Cursor

/-- The cursor at the start of a source. -/
def start (source : Text) : Cursor := { rest := source }

/-- The character under the cursor. -/
def current? (cursor : Cursor) : Option Char := cursor.rest.head?

/-- Whether the unread text begins with a given text. -/
def startsWith (cursor : Cursor) (text : Text) : Bool := text.isPrefixOf cursor.rest

/-- The span of a text that begins at the cursor. -/
def spanOf (cursor : Cursor) (text : Text) : Span :=
  ⟨cursor.offset, (cursor.offset + Utf8.size text : Nat)⟩

/-- The cursor behind a text that begins at it. -/
def advance (cursor : Cursor) (text : Text) : Cursor :=
  { rest := cursor.rest.drop text.length
    position := cursor.position + text.length
    offset := cursor.offset + Utf8.size text }

/-- The span of the unread text. -/
def remainingSpan (cursor : Cursor) : Span := cursor.spanOf cursor.rest

/-- Whether everything has been read. -/
def atEnd (cursor : Cursor) : Bool := cursor.rest.isEmpty

@[simp] theorem advance_nil (cursor : Cursor) : cursor.advance [] = cursor := by
  simp [advance]

theorem advance_append (cursor : Cursor) (a b : Text) :
    cursor.advance (a ++ b) = (cursor.advance a).advance b := by
  simp [advance, Nat.add_assoc]

end Cursor

/-! ## Runs of cursor operations -/

/-- One operation on a cursor. -/
inductive CursorStep where
  | current
  | startsWith (text : Text)
  | advance (text : Text)
  | remainingSpan
  | atEnd
  deriving DecidableEq, Repr

/-- What an operation on a cursor answers. -/
inductive CursorAnswer where
  | character (c : Option Char)
  | flag (value : Bool)
  | span (value : Span)
  deriving DecidableEq, Repr

namespace Cursor

/-- The answer of one operation and the cursor after it. -/
def step (cursor : Cursor) : CursorStep → CursorAnswer × Cursor
  | .current => (.character cursor.current?, cursor)
  | .startsWith text => (.flag (cursor.startsWith text), cursor)
  | .advance text => (.span (cursor.spanOf text), cursor.advance text)
  | .remainingSpan => (.span cursor.remainingSpan, cursor)
  | .atEnd => (.flag cursor.atEnd, cursor)

/-- The answers of a sequence of operations, each with the cursor after it. -/
def runSteps (cursor : Cursor) : List CursorStep → List (CursorAnswer × Cursor)
  | [] => []
  | op :: ops =>
    let result := cursor.step op
    result :: result.2.runSteps ops

end Cursor

end ScriptFront
