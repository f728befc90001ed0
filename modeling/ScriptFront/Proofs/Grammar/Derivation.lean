import ScriptFront.Expr

set_option autoImplicit false

/-! # Derivations

The grammar of the language as it is written down, left recursion and all:

    statements := (assign ';')*
    assign     := 'print' assign | name '=' assign | term
    term       := term ('+' | '-') fact | fact
    fact       := fact ('*' | '/') atom | atom
    atom       := name | integer | '(' assign ')'

`Derives` says that a list of items makes up a phrase and which tree that gives. Its depth bounds
the number of `assign` phrases on every path down the derivation, so a derivation without a bound
is one of some depth. Nothing here knows how the items are read. -/

namespace ScriptFront.Grammar

/-! ## Phrases -/

/-- The phrases that give a tree. -/
inductive Phrase where
  | assign | term | fact | atom
  deriving DecidableEq, Repr

/-- The signs between the operands of a `term`, with their operators. -/
inductive TermSign : TokenKind → Operator → Prop
  | plus : TermSign .plus .add
  | minus : TermSign .minus .sub

/-- The signs between the operands of a `fact`, with their operators. -/
inductive FactSign : TokenKind → Operator → Prop
  | star : FactSign .star .mul
  | slash : FactSign .slash .div

/-- The items make up the phrase and give the tree, by a derivation in which no path goes through
    more than `depth` phrases `assign`. A tree spans from its first part to its last one. -/
inductive Derives : Phrase → Nat → List Item → Expr → Prop
  | print {depth : Nat} {word : Item} {items : List Item} {operand : Expr} :
      word.kind = .print → Derives .assign depth items operand →
      Derives .assign (depth + 1) (word :: items)
        (.print (word.span.combine operand.span) operand)
  | target {depth : Nat} {name equals : Item} {items : List Item} {value : Expr} :
      name.kind = .identifier → equals.kind = .equals → Derives .assign depth items value →
      Derives .assign (depth + 1) (name :: equals :: items)
        (.assign (name.span.combine value.span) name.token.payload value)
  | ofTerm {depth : Nat} {items : List Item} {tree : Expr} :
      Derives .term depth items tree → Derives .assign (depth + 1) items tree
  | sum {depth : Nat} {lefts rights : List Item} {sign : Item} {operator : Operator}
      {left right : Expr} :
      Derives .term depth lefts left → TermSign sign.kind operator →
      Derives .fact depth rights right →
      Derives .term depth (lefts ++ sign :: rights)
        (.binary (left.span.combine right.span) operator left right)
  | ofFact {depth : Nat} {items : List Item} {tree : Expr} :
      Derives .fact depth items tree → Derives .term depth items tree
  | product {depth : Nat} {lefts rights : List Item} {sign : Item} {operator : Operator}
      {left right : Expr} :
      Derives .fact depth lefts left → FactSign sign.kind operator →
      Derives .atom depth rights right →
      Derives .fact depth (lefts ++ sign :: rights)
        (.binary (left.span.combine right.span) operator left right)
  | ofAtom {depth : Nat} {items : List Item} {tree : Expr} :
      Derives .atom depth items tree → Derives .fact depth items tree
  | name {depth : Nat} {item : Item} :
      item.kind = .identifier →
      Derives .atom depth [item] (.var item.span item.token.payload)
  | integer {depth : Nat} {item : Item} :
      item.kind = .integer →
      Derives .atom depth [item] (.literal item.span item.token.payload)
  | parens {depth : Nat} {opening closing : Item} {items : List Item} {tree : Expr} :
      opening.kind = .leftParen → Derives .assign depth items tree →
      closing.kind = .rightParen →
      Derives .atom depth (opening :: items ++ [closing]) tree

/-- A derivation within some depth is one within any greater depth. -/
theorem Derives.mono {phrase : Phrase} {depth depth' : Nat} {items : List Item} {tree : Expr}
    (h : Derives phrase depth items tree) (hle : depth ≤ depth') :
    Derives phrase depth' items tree := by
  induction h generalizing depth' with
  | print hword _ ih =>
      obtain ⟨d, rfl⟩ := Nat.exists_eq_add_of_le' (Nat.le_of_add_left_le hle)
      exact .print hword (ih (by omega))
  | target hname hequals _ ih =>
      obtain ⟨d, rfl⟩ := Nat.exists_eq_add_of_le' (Nat.le_of_add_left_le hle)
      exact .target hname hequals (ih (by omega))
  | ofTerm _ ih =>
      obtain ⟨d, rfl⟩ := Nat.exists_eq_add_of_le' (Nat.le_of_add_left_le hle)
      exact .ofTerm (ih (by omega))
  | sum _ hsign _ ihl ihr => exact .sum (ihl hle) hsign (ihr hle)
  | ofFact _ ih => exact .ofFact (ih hle)
  | product _ hsign _ ihl ihr => exact .product (ihl hle) hsign (ihr hle)
  | ofAtom _ ih => exact .ofAtom (ih hle)
  | name hitem => exact .name hitem
  | integer hitem => exact .integer hitem
  | parens hopening _ hclosing ih => exact .parens hopening (ih hle) hclosing

/-- No phrase is empty. -/
theorem Derives.ne_nil {phrase : Phrase} {depth : Nat} {items : List Item} {tree : Expr}
    (h : Derives phrase depth items tree) : items ≠ [] := by
  induction h with
  | ofTerm _ ih | ofFact _ ih | ofAtom _ ih => exact ih
  | _ => simp

/-! ## Statements -/

/-- The items are statements, each an `assign` and its semicolon, and give the trees in order. -/
inductive Statements (depth : Nat) : List Item → List Expr → Prop
  | nil : Statements depth [] []
  | cons {items rest : List Item} {semicolon : Item} {tree : Expr} {trees : List Expr} :
      Derives .assign depth items tree → semicolon.kind = .semicolon →
      Statements depth rest trees →
      Statements depth (items ++ semicolon :: rest) (tree :: trees)

namespace Statements

theorem mono {depth depth' : Nat} {items : List Item} {trees : List Expr}
    (h : Statements depth items trees) (hle : depth ≤ depth') :
    Statements depth' items trees := by
  induction h with
  | nil => exact .nil
  | cons htree hsemi _ ih => exact .cons (htree.mono hle) hsemi ih

theorem append {depth : Nat} {a b : List Item} {as bs : List Expr}
    (ha : Statements depth a as) (hb : Statements depth b bs) :
    Statements depth (a ++ b) (as ++ bs) := by
  induction ha with
  | nil => exact hb
  | cons htree hsemi _ ih => simpa using Statements.cons htree hsemi ih

/-- There are no more statements than items. -/
theorem length_le {depth : Nat} {items : List Item} {trees : List Expr}
    (h : Statements depth items trees) : trees.length ≤ items.length := by
  induction h with
  | nil => exact Nat.le_refl _
  | cons _ _ _ ih => simp only [List.length_append, List.length_cons]; omega

end Statements

/-! ## Sentences and their beginnings -/

/-- A whole program, however deeply nested. -/
def Sentence (items : List Item) : Prop := ∃ depth trees, Statements depth items trees

/-- The items can be continued to a whole program. -/
def Viable (items : List Item) : Prop := ∃ rest, Sentence (items ++ rest)

theorem Sentence.nil : Sentence [] := ⟨0, [], .nil⟩

theorem Sentence.append {a b : List Item} (ha : Sentence a) (hb : Sentence b) :
    Sentence (a ++ b) := by
  obtain ⟨d, as, ha⟩ := ha
  obtain ⟨d', bs, hb⟩ := hb
  exact ⟨max d d', as ++ bs, (ha.mono (Nat.le_max_left ..)).append (hb.mono (Nat.le_max_right ..))⟩

/-- One statement is a sentence. -/
theorem Sentence.ofStatement {depth : Nat} {items : List Item} {semicolon : Item} {tree : Expr}
    (h : Derives .assign depth items tree) (hsemi : semicolon.kind = .semicolon) :
    Sentence (items ++ [semicolon]) := ⟨depth, [tree], .cons h hsemi .nil⟩

end ScriptFront.Grammar
