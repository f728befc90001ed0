import ScriptFront.Token

set_option autoImplicit false

/-! # Expressions

The trees that a program consists of. Every node records the span it was read from. A tree
has three serial forms: the list of its nodes, parents first; an outline, a plain tree of labelled
nodes; and a compact text that leaves the spans out. -/

namespace ScriptFront

/-! ## Trees -/

/-- The four arithmetic operators. -/
inductive Operator where
  | add | sub | mul | div
  deriving DecidableEq, Repr

/-- An expression. Names and values are what the tokens carried. -/
inductive Expr where
  | print (span : Span) (operand : Expr)
  | assign (span : Span) (name : Payload) (value : Expr)
  | binary (span : Span) (operator : Operator) (left right : Expr)
  | var (span : Span) (name : Payload)
  | literal (span : Span) (value : Payload)
  deriving DecidableEq, Repr

/-- What an expression is, apart from its parts. -/
inductive ExprKind where
  | print | assign | binary (operator : Operator) | var | literal
  deriving DecidableEq, Repr

namespace ExprKind

/-- The name of a kind of expressions in answers. -/
def name : ExprKind → Text
  | print => "Print".toList
  | assign => "Assign".toList
  | binary .add => "Add".toList
  | binary .sub => "Sub".toList
  | binary .mul => "Mul".toList
  | binary .div => "Div".toList
  | var => "Var".toList
  | literal => "IntegerLiteral".toList

/-- Every kind of expressions. -/
def all : List ExprKind :=
  [print, assign, binary .add, binary .sub, binary .mul, binary .div, var, literal]

theorem mem_all (kind : ExprKind) : kind ∈ all := by
  rcases kind with _ | _ | op | _ | _
  case binary => cases op <;> decide
  all_goals decide

/-- The kind with a given name. -/
def ofName? (text : Text) : Option ExprKind := all.find? (·.name = text)

theorem ofName?_name (kind : ExprKind) : ofName? kind.name = some kind := by
  rcases kind with _ | _ | op | _ | _
  case binary => cases op <;> decide
  all_goals decide

end ExprKind

/-- What a node says beside its kind: the name it binds or refers to, or its value. -/
inductive Label where
  | none
  | name (payload : Payload)
  | value (payload : Payload)
  deriving DecidableEq, Repr

namespace Expr

/-- The kind of an expression. -/
def kind : Expr → ExprKind
  | print .. => .print
  | assign .. => .assign
  | binary _ operator _ _ => .binary operator
  | var .. => .var
  | literal .. => .literal

/-- The span of an expression. -/
def span : Expr → Span
  | print span _ | assign span _ _ | binary span _ _ _ | var span _ | literal span _ => span

/-- The label of an expression. -/
def label : Expr → Label
  | print .. | binary .. => .none
  | assign _ name _ | var _ name => .name name
  | literal _ value => .value value

/-- The parts of an expression in the order of the source. -/
def children : Expr → List Expr
  | print _ operand => [operand]
  | assign _ _ value => [value]
  | binary _ _ left right => [left, right]
  | var .. | literal .. => []

/-! ## Lists of nodes -/

/-- An expression and everything below it, parents before children. -/
def walk : Expr → List Expr
  | e@(print _ operand) => e :: operand.walk
  | e@(assign _ _ value) => e :: value.walk
  | e@(binary _ _ left right) => e :: (left.walk ++ right.walk)
  | e@(var ..) | e@(literal ..) => [e]

theorem walk_eq (e : Expr) : e.walk = e :: e.children.flatMap walk := by
  cases e <;> simp [walk, children]

/-- The part of an expression that is reached by going down to the child of each number in turn. -/
def part? : List Nat → Expr → Option Expr
  | [], e => some e
  | child :: path, e => e.children[child]?.bind (part? path)

/-- The node can be reached from the expression. -/
def HasPart (e node : Expr) : Prop := ∃ path, e.part? path = some node

theorem hasPart_iff {e node : Expr} :
    e.HasPart node ↔ e = node ∨ ∃ child ∈ e.children, child.HasPart node := by
  constructor
  · rintro ⟨_ | ⟨number, path⟩, hpath⟩
    · exact .inl (Option.some.inj hpath)
    · obtain ⟨child, hchild, hpath⟩ := Option.bind_eq_some_iff.1 hpath
      exact .inr ⟨child, List.mem_of_getElem? hchild, path, hpath⟩
  · rintro (rfl | ⟨child, hchild, path, hpath⟩)
    · exact ⟨[], rfl⟩
    · obtain ⟨number, hnumber⟩ := List.mem_iff_getElem?.1 hchild
      exact ⟨number :: path, Option.bind_eq_some_iff.2 ⟨child, hnumber, hpath⟩⟩

/-- A walk meets the parts of an expression and nothing else. -/
theorem mem_walk_iff {e node : Expr} : node ∈ e.walk ↔ e.HasPart node := by
  induction e with
  | print span operand ih | assign span name operand ih =>
      rw [hasPart_iff]
      simp [walk, children, ih, eq_comm]
  | binary span operator left right ihl ihr =>
      rw [hasPart_iff]
      simp [walk, children, ihl, ihr, eq_comm]
  | var | literal =>
      rw [hasPart_iff]
      simp [walk, children, eq_comm]

end Expr

/-- One node of a tree on a line of its own. -/
structure Row where
  kind : ExprKind
  span : Span
  arity : Nat
  label : Label
  deriving DecidableEq, Repr

namespace Expr

/-- The row of the topmost node. -/
def row (e : Expr) : Row := ⟨e.kind, e.span, e.children.length, e.label⟩

/-- The rows of all nodes, parents before children. -/
def rows (e : Expr) : List Row := e.walk.map row

end Expr

/-! ## Outlines -/

/-- A tree of labelled nodes, each with any number of children. -/
inductive Outline where
  | node (kind : ExprKind) (span : Span) (label : Label) (children : List Outline)
  deriving Repr

namespace Expr

/-- The outline of an expression. -/
def outline : Expr → Outline
  | print span operand => .node .print span .none [operand.outline]
  | assign span name value => .node .assign span (.name name) [value.outline]
  | binary span operator left right =>
    .node (.binary operator) span .none [left.outline, right.outline]
  | var span name => .node .var span (.name name) []
  | literal span value => .node .literal span (.value value) []

/-- The expression that an outline describes, if it describes one. -/
def ofOutline? : Outline → Option Expr
  | .node .print span .none [operand] => do
    pure (.print span (← ofOutline? operand))
  | .node .assign span (.name name) [value] => do
    pure (.assign span name (← ofOutline? value))
  | .node (.binary operator) span .none [left, right] => do
    let left ← ofOutline? left
    let right ← ofOutline? right
    pure (.binary span operator left right)
  | .node .var span (.name name) [] => some (.var span name)
  | .node .literal span (.value value) [] => some (.literal span value)
  | _ => none

theorem ofOutline?_outline (e : Expr) : ofOutline? e.outline = some e := by
  induction e <;> simp_all [outline, ofOutline?]

/-! ## Compact text -/

/-- The compact form of an expression. -/
def dump : Expr → Text
  | print _ operand => "Print(".toList ++ operand.dump ++ [')']
  | assign _ name value =>
    "Assign(".toList ++ name.plain ++ ", ".toList ++ value.dump ++ [')']
  | binary _ operator left right =>
    (ExprKind.binary operator).name ++ ['('] ++ left.dump ++ ", ".toList ++ right.dump ++ [')']
  | var _ name => "Var(".toList ++ name.plain ++ [')']
  | literal _ value => "Literal(".toList ++ value.plain ++ [')']

end Expr

/-! ## Programs -/

/-- A program: its statements in the order of the source. -/
structure Program where
  statements : List Expr
  deriving DecidableEq, Repr

/-- The compact forms of the statements. -/
def Program.dump (program : Program) : List Text := program.statements.map Expr.dump

end ScriptFront
