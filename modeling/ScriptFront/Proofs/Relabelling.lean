import ScriptFront.Parser.Operation

set_option autoImplicit false

/-! # Relabelling

A relabelling changes what tokens carry and where they stand: the payloads of names and integers,
and the two ends of every span. The kinds of the tokens stay as they are. It carries over to
everything that is made of tokens, to trees and to errors. The one that moves every span to the
right, `Relabelling.shift`, tells what becomes of a source that stands behind another text. -/

namespace ScriptFront

/-- New payloads for names and integers, and new ends for spans. -/
structure Relabelling where
  name : Payload → Payload := fun payload => payload
  value : Payload → Payload := fun payload => payload
  lo : Int → Int := fun lo => lo
  hi : Int → Int := fun hi => hi

namespace Relabelling

/-- Nothing is changed. -/
def unchanged : Relabelling := {}

/-- Every span is moved to the right; the tokens stay as they are. -/
def shift (distance : Nat) : Relabelling := { lo := (· + distance), hi := (· + distance) }

variable (r : Relabelling)

/-! ## Tokens -/

def span (s : Span) : Span := ⟨r.lo s.lo, r.hi s.hi⟩

def token (t : Token) : Token :=
  match t.kind with
  | .identifier => ⟨.identifier, r.name t.payload⟩
  | .integer => ⟨.integer, r.value t.payload⟩
  | _ => t

def item (i : Item) : Item := ⟨r.token i.token, r.span i.span⟩

@[simp] theorem span_item (i : Item) : (r.item i).span = r.span i.span := rfl

@[simp] theorem kind_item (i : Item) : (r.item i).kind = i.kind := by
  obtain ⟨⟨kind, payload⟩, span⟩ := i
  cases kind <;> rfl

theorem payload_item_name {i : Item} (h : i.kind = .identifier) :
    (r.item i).token.payload = r.name i.token.payload := by
  obtain ⟨⟨kind, payload⟩, span⟩ := i
  obtain rfl : kind = .identifier := h
  rfl

theorem payload_item_value {i : Item} (h : i.kind = .integer) :
    (r.item i).token.payload = r.value i.token.payload := by
  obtain ⟨⟨kind, payload⟩, span⟩ := i
  obtain rfl : kind = .integer := h
  rfl

@[simp] theorem span_combine (s t : Span) :
    r.span (s.combine t) = (r.span s).combine (r.span t) := rfl

/-! ## Trees -/

def expr : Expr → Expr
  | .print span operand => .print (r.span span) (expr operand)
  | .assign span name value => .assign (r.span span) (r.name name) (expr value)
  | .binary span operator left right =>
    .binary (r.span span) operator (expr left) (expr right)
  | .var span name => .var (r.span span) (r.name name)
  | .literal span value => .literal (r.span span) (r.value value)

@[simp] theorem span_expr (e : Expr) : (r.expr e).span = r.span e.span := by
  cases e <;> rfl

def program (p : Program) : Program := ⟨p.statements.map r.expr⟩

/-! ## Errors and answers -/

def lexError (e : LexError) : LexError := { e with span := e.span.map r.span }

def syntaxError (e : SyntaxError) : SyntaxError :=
  { e with token := e.token.map r.token, span := e.span.map r.span }

def error : SourceError → SourceError
  | .lexical e => .lexical (r.lexError e)
  | .syntactic e => .syntactic (r.syntaxError e)

@[simp] theorem error_blaming (i : Option Item) (complaint : Complaint) :
    r.error (.syntactic (.blaming i complaint)) =
      .syntactic (.blaming (i.map r.item) complaint) := by
  cases i <;> rfl

def answer : ParserAnswer → ParserAnswer
  | .done => .done
  | .item i => .item (i.map r.item)
  | .flag value => .flag value
  | .expr e => .expr (r.expr e)
  | .program p => .program (r.program p)

/-! ## Moving to the right -/

@[simp] theorem token_shift (distance : Nat) (t : Token) : (shift distance).token t = t := by
  obtain ⟨kind, payload⟩ := t
  cases kind <;> rfl

/-! ## Nothing changed -/

@[simp] theorem item_unchanged (i : Item) : unchanged.item i = i := by
  obtain ⟨⟨kind, payload⟩, span⟩ := i
  cases kind <;> rfl

@[simp] theorem map_item_unchanged (i : Option Item) : i.map unchanged.item = i := by
  cases i <;> simp

@[simp] theorem map_span_unchanged (s : Option Span) : s.map unchanged.span = s := by
  cases s <;> rfl

@[simp] theorem span_unchanged (s : Span) : unchanged.span s = s := rfl

@[simp] theorem expr_unchanged (e : Expr) : unchanged.expr e = e := by
  induction e <;> simp_all [expr] <;> rfl

@[simp] theorem program_unchanged (p : Program) : unchanged.program p = p :=
  congrArg Program.mk (List.map_id'' expr_unchanged p.statements)

@[simp] theorem error_unchanged (e : SourceError) : unchanged.error e = e := by
  cases e with
  | lexical e => simp [error, lexError]
  | syntactic e =>
      obtain ⟨token, span, complaint⟩ := e
      cases token with
      | none => simp [error, syntaxError]
      | some token =>
          obtain ⟨kind, payload⟩ := token
          simp only [error, syntaxError, map_span_unchanged]
          cases kind <;> rfl

@[simp] theorem answer_unchanged (a : ParserAnswer) : unchanged.answer a = a := by
  cases a <;> simp [answer]

end Relabelling

end ScriptFront
