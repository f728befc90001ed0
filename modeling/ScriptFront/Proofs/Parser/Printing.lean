import ScriptFront.Proofs.Parser.Buffering
import ScriptFront.Proofs.Parser.Completeness

set_option autoImplicit false

/-! # Writing trees as tokens

A tree is written in the order of the source, and an operand is put in parentheses only where it
binds too loosely for its place (`needsParens`). What is written is read back as the same tree
(`parseFeed_written`): every operand is a phrase of the kind that its place asks for, and so the
grammar derives the tree from its tokens, within as many levels as the tree has `print`s, `=`s and
parentheses on its deepest path. -/

namespace ScriptFront

open Grammar

/-! ## Where parentheses are needed -/

/-- Where an expression stands: alone, as a statement or as what is printed or assigned, or on one
    side of an operator. -/
inductive Place where
  | alone
  | left (operator : Operator)
  | right (operator : Operator)
  deriving DecidableEq, Repr

/-- Whether an expression of a kind has to be in parentheses at a place. -/
def needsParens (kind : ExprKind) : Place → Bool
  | .alone => false
  | .left .mul | .left .div => kind ∈ [.print, .assign, .binary .add, .binary .sub]
  | .right .mul | .right .div => kind ∉ [.var, .literal]
  | .left .add | .left .sub => kind ∈ [.print, .assign]
  | .right .add | .right .sub => kind ∈ [.print, .assign, .binary .add, .binary .sub]

/-- The token of an operator. -/
def Operator.token : Operator → Token
  | add => ⟨.plus, .none⟩
  | sub => ⟨.minus, .none⟩
  | mul => ⟨.star, .none⟩
  | div => ⟨.slash, .none⟩

/-- Tokens, in parentheses if that is needed. -/
def enclosed (parens : Bool) (tokens : List Token) : List Token :=
  if parens then ⟨.leftParen, .none⟩ :: tokens ++ [⟨.rightParen, .none⟩] else tokens

namespace Expr

/-- The tokens of an expression, with parentheses only where they are needed. -/
def written : Expr → List Token
  | print _ operand => ⟨.print, .none⟩ :: operand.written
  | assign _ name value => ⟨.identifier, name⟩ :: ⟨.equals, .none⟩ :: value.written
  | binary _ operator left right =>
    enclosed (needsParens left.kind (.left operator)) left.written ++
      operator.token :: enclosed (needsParens right.kind (.right operator)) right.written
  | var _ name => [⟨.identifier, name⟩]
  | literal _ value => [⟨.integer, value⟩]

/-- How many `print`s, `=`s and parentheses the deepest path through a written expression has. -/
def levels : Expr → Nat
  | print _ operand => operand.levels + 1
  | assign _ _ value => value.levels + 1
  | binary _ operator left right =>
    max (left.levels + (needsParens left.kind (.left operator)).toNat)
      (right.levels + (needsParens right.kind (.right operator)).toNat)
  | var .. | literal .. => 0

/-- An expression without its spans: they are all the same. -/
def unplaced : Expr → Expr
  | print _ operand => print .nowhere operand.unplaced
  | assign _ name value => assign .nowhere name value.unplaced
  | binary _ operator left right => binary .nowhere operator left.unplaced right.unplaced
  | var _ name => var .nowhere name
  | literal _ value => literal .nowhere value

end Expr

/-! ## The phrases of places -/

/-- How tightly a phrase holds together. -/
def Grammar.Phrase.tightness : Phrase → Nat
  | assign => 0
  | term => 1
  | fact => 2
  | atom => 3

/-- The tightest phrase that expressions of a kind are without parentheses. -/
def ExprKind.phrase : ExprKind → Phrase
  | print | assign => .assign
  | binary .add | binary .sub => .term
  | binary .mul | binary .div => .fact
  | var | literal => .atom

/-- The phrase that stands at a place. -/
def Place.phrase : Place → Phrase
  | alone => .assign
  | left .add | left .sub => .term
  | right .add | right .sub => .fact
  | left .mul | left .div => .fact
  | right .mul | right .div => .atom

/-- Parentheses are needed exactly around what is looser than its place asks for. -/
theorem needsParens_eq_false_iff (kind : ExprKind) (place : Place) :
    needsParens kind place = false ↔ place.phrase.tightness ≤ kind.phrase.tightness := by
  cases place with
  | alone => simp [needsParens, Place.phrase, Phrase.tightness]
  | left operator | right operator =>
      rcases kind with _ | _ | other | _ | _
      case binary => cases operator <;> cases other <;> decide
      all_goals cases operator <;> decide

/-- A phrase is also a looser one, as long as it opens no level. -/
theorem Grammar.Derives.loosen {phrase phrase' : Phrase} {depth : Nat} {items : List Item}
    {tree : Expr} (h : Derives phrase depth items tree)
    (hle : phrase'.tightness ≤ phrase.tightness) (hlevel : phrase' ≠ .assign) :
    Derives phrase' depth items tree := by
  cases phrase' with
  | assign => exact absurd rfl hlevel
  | term =>
      cases phrase with
      | assign => exact absurd hle (by decide)
      | term => exact h
      | fact => exact .ofFact h
      | atom => exact .ofFact (.ofAtom h)
  | fact =>
      cases phrase with
      | assign | term => exact absurd hle (by decide)
      | fact => exact h
      | atom => exact .ofAtom h
  | atom =>
      cases phrase with
      | assign | term | fact => exact absurd hle (by decide)
      | atom => exact h

/-! ## Deriving what is written -/

/-- Whatever items the tokens stand in, they make up the phrase and give the tree, apart from its
    spans. -/
def SpelledBy (tokens : List Token) (phrase : Phrase) (depth : Nat) (tree : Expr) : Prop :=
  ∀ items : List Item, items.map Item.token = tokens →
    ∃ placed, Derives phrase depth items placed ∧ placed.unplaced = tree.unplaced

namespace SpelledBy

variable {tokens : List Token} {phrase : Phrase} {depth : Nat} {tree : Expr}

theorem single {token : Token} (h : ∀ item : Item, item.token = token →
      ∃ placed, Derives .atom depth [item] placed ∧ placed.unplaced = tree.unplaced) :
    SpelledBy [token] .atom depth tree := by
  intro items hitems
  obtain ⟨item, hitem, htoken⟩ := List.map_eq_singleton_iff.1 hitems
  subst hitem
  exact h item htoken

theorem imp {phrase' : Phrase} {depth' : Nat} (h : SpelledBy tokens phrase depth tree)
    (himp : ∀ items placed, Derives phrase depth items placed →
      Derives phrase' depth' items placed) :
    SpelledBy tokens phrase' depth' tree := by
  intro items hitems
  obtain ⟨placed, hderives, hsame⟩ := h items hitems
  exact ⟨placed, himp items placed hderives, hsame⟩

theorem parens (h : SpelledBy tokens .assign depth tree) :
    SpelledBy (enclosed true tokens) .atom depth tree := by
  intro items hitems
  obtain ⟨opening, others, rfl, hopening, hothers⟩ := List.map_eq_cons_iff.1 hitems
  obtain ⟨inner, last, rfl, hinner, hlast⟩ := List.map_eq_append_iff.1 hothers
  obtain ⟨closing, rfl, hclosing⟩ := List.map_eq_singleton_iff.1 hlast
  obtain ⟨placed, hderives, hsame⟩ := h inner hinner
  refine ⟨placed, .parens ?_ hderives ?_, hsame⟩
  · rw [Item.kind, hopening]
  · rw [Item.kind, hclosing]

/-- An operand is a phrase of the kind that its place asks for: by itself if it is tight enough, and
    otherwise because it is in parentheses. -/
theorem operand (place : Place) (hplace : place ≠ .alone)
    (hassign : SpelledBy tree.written .assign (tree.levels + 1) tree)
    (hbare : tree.kind.phrase ≠ .assign →
      SpelledBy tree.written tree.kind.phrase tree.levels tree) :
    SpelledBy (enclosed (needsParens tree.kind place) tree.written) place.phrase
      (tree.levels + (needsParens tree.kind place).toNat) tree := by
  have hlevel : place.phrase ≠ .assign := by
    cases place with
    | alone => exact absurd rfl hplace
    | left operator | right operator => cases operator <;> decide
  cases hparens : needsParens tree.kind place with
  | true =>
      have htight : place.phrase.tightness ≤ Phrase.atom.tightness := by
        cases place.phrase <;> decide
      exact hassign.parens.imp fun items placed h => h.loosen htight hlevel
  | false =>
      have htight := (needsParens_eq_false_iff tree.kind place).1 hparens
      have hphrase : tree.kind.phrase ≠ .assign := by
        intro hkind
        rw [hkind] at htight
        cases hphrase : place.phrase with
        | assign => exact hlevel hphrase
        | term | fact | atom => rw [hphrase] at htight; exact absurd htight (by decide)
      exact (hbare hphrase).imp fun items placed h => h.loosen htight hlevel

/-- Two operands with their sign between them. -/
theorem binary {operator : Operator} {lefts rights : List Token} {leftDepth rightDepth : Nat}
    (span : Span) {left right : Expr}
    (hleft : SpelledBy lefts (Place.left operator).phrase leftDepth left)
    (hright : SpelledBy rights (Place.right operator).phrase rightDepth right) :
    SpelledBy (lefts ++ operator.token :: rights) (ExprKind.binary operator).phrase
      (max leftDepth rightDepth) (.binary span operator left right) := by
  intro items hitems
  obtain ⟨itemsLeft, others, rfl, hlefts, hothers⟩ := List.map_eq_append_iff.1 hitems
  obtain ⟨sign, itemsRight, rfl, hsign, hrights⟩ := List.map_eq_cons_iff.1 hothers
  obtain ⟨placedLeft, hderivesLeft, hsameLeft⟩ := hleft itemsLeft hlefts
  obtain ⟨placedRight, hderivesRight, hsameRight⟩ := hright itemsRight hrights
  have hderivesLeft := hderivesLeft.mono (Nat.le_max_left leftDepth rightDepth)
  have hderivesRight := hderivesRight.mono (Nat.le_max_right leftDepth rightDepth)
  have hkind : sign.kind = operator.token.kind := by rw [Item.kind, hsign]
  refine ⟨.binary (placedLeft.span.combine placedRight.span) operator placedLeft placedRight,
    ?_, by simp only [Expr.unplaced, hsameLeft, hsameRight]⟩
  cases operator with
  | add => exact .sum hderivesLeft (hkind ▸ .plus) hderivesRight
  | sub => exact .sum hderivesLeft (hkind ▸ .minus) hderivesRight
  | mul => exact .product hderivesLeft (hkind ▸ .star) hderivesRight
  | div => exact .product hderivesLeft (hkind ▸ .slash) hderivesRight

/-- What is tighter than an `assign` is one, a level further in. -/
theorem assign (hphrase : phrase ≠ .assign) (h : SpelledBy tokens phrase depth tree) :
    SpelledBy tokens .assign (depth + 1) tree := by
  have htight : Phrase.term.tightness ≤ phrase.tightness := by
    cases phrase with
    | assign => exact absurd rfl hphrase
    | term | fact | atom => decide
  exact h.imp fun items placed h => .ofTerm (h.loosen htight (by decide))

end SpelledBy

/-- A written expression is an `assign`, and a tighter phrase unless it is a `print` or an
    assignment itself. -/
theorem Expr.spelledBy_written (e : Expr) :
    SpelledBy e.written .assign (e.levels + 1) e ∧
      (e.kind.phrase ≠ .assign → SpelledBy e.written e.kind.phrase e.levels e) := by
  induction e with
  | print span operand ih =>
      refine ⟨fun items hitems => ?_, fun hphrase => absurd rfl hphrase⟩
      obtain ⟨word, others, rfl, hword, hothers⟩ := List.map_eq_cons_iff.1 hitems
      obtain ⟨placed, hderives, hsame⟩ := ih.1 others hothers
      refine ⟨_, .print (by rw [Item.kind, hword]) hderives, ?_⟩
      simp only [unplaced, hsame]
  | assign span name value ih =>
      refine ⟨fun items hitems => ?_, fun hphrase => absurd rfl hphrase⟩
      obtain ⟨target, others, rfl, htarget, hothers⟩ := List.map_eq_cons_iff.1 hitems
      obtain ⟨equals, items, rfl, hequals, hitems⟩ := List.map_eq_cons_iff.1 hothers
      obtain ⟨placed, hderives, hsame⟩ := ih.1 items hitems
      refine ⟨_, .target (by rw [Item.kind, htarget]) (by rw [Item.kind, hequals]) hderives, ?_⟩
      simp only [unplaced, htarget, hsame]
  | binary span operator left right ihl ihr =>
      have hphrase : (ExprKind.binary operator).phrase ≠ .assign := by
        cases operator <;> decide
      have hleft := SpelledBy.operand (.left operator) (by simp) ihl.1 ihl.2
      have hright := SpelledBy.operand (.right operator) (by simp) ihr.1 ihr.2
      have hbinary := SpelledBy.binary span hleft hright
      exact ⟨hbinary.assign hphrase, fun _ => hbinary⟩
  | var span name =>
      have hvar : SpelledBy [⟨.identifier, name⟩] .atom 0 (.var span name) := by
        refine .single fun item hitem => ⟨.var item.span item.token.payload, ?_, ?_⟩
        · exact .name (by rw [Item.kind, hitem])
        · simp only [unplaced, hitem]
      exact ⟨hvar.assign (by decide), fun _ => hvar⟩
  | literal span value =>
      have hliteral : SpelledBy [⟨.integer, value⟩] .atom 0 (.literal span value) := by
        refine .single fun item hitem => ⟨.literal item.span item.token.payload, ?_, ?_⟩
        · exact .integer (by rw [Item.kind, hitem])
        · simp only [unplaced, hitem]
      exact ⟨hliteral.assign (by decide), fun _ => hliteral⟩

/-- **A tree that is written with as few parentheses as it needs is read back.** Whatever spans its
    tokens have, and whatever spans the tree had, they and a semicolon give one statement, which is
    that tree, spans aside. It takes one level more than the deepest path of the tree has. -/
theorem parseFeed_written (limits : Limits) (e : Expr) (items : List Item) (maxDepth : Int)
    (hitems : items.map Item.token = e.written ++ [⟨.semicolon, .none⟩])
    (hdepth : (e.levels : Int) + 1 ≤ maxDepth) :
    ∃ tree, parseFeed limits (some maxDepth) (Feed.ofItems items) = .ok ⟨[tree]⟩ ∧
      tree.unplaced = e.unplaced := by
  obtain ⟨tokens, last, rfl, htokens, hlast⟩ := List.map_eq_append_iff.1 hitems
  obtain ⟨semicolon, rfl, hsemi⟩ := List.map_eq_singleton_iff.1 hlast
  obtain ⟨tree, hderives, hsame⟩ := e.spelledBy_written.1 tokens htokens
  have hkind : semicolon.kind = .semicolon := by rw [Item.kind, hsemi]
  have hstatements : Statements maxDepth.toNat (tokens ++ [semicolon]) [tree] :=
    .cons (hderives.mono (by omega)) hkind .nil
  refine ⟨tree, ?_, hsame⟩
  rw [parseFeed_ofItems, Unbuffered.program_complete hstatements]
  rfl

/-- In `print (1+x)*(y=2-(3-z));` the deepest path has a `print`, an `=` and two parentheses, so
    five levels are enough. -/
theorem parseFeed_written_product :
    ∃ tree, parseFeed {} (some 5) (Feed.ofItems ([⟨.print, .none⟩, ⟨.leftParen, .none⟩,
        ⟨.integer, .integer 1⟩, ⟨.plus, .none⟩, ⟨.identifier, .text ['x']⟩, ⟨.rightParen, .none⟩,
        ⟨.star, .none⟩, ⟨.leftParen, .none⟩, ⟨.identifier, .text ['y']⟩, ⟨.equals, .none⟩,
        ⟨.integer, .integer 2⟩, ⟨.minus, .none⟩, ⟨.leftParen, .none⟩, ⟨.integer, .integer 3⟩,
        ⟨.minus, .none⟩, ⟨.identifier, .text ['z']⟩, ⟨.rightParen, .none⟩, ⟨.rightParen, .none⟩,
        ⟨.semicolon, .none⟩].map fun token => ⟨token, ⟨0, 1⟩⟩)) = .ok ⟨[tree]⟩ ∧
      tree.unplaced = .print .nowhere (.binary .nowhere .mul
        (.binary .nowhere .add (.literal .nowhere (.integer 1)) (.var .nowhere (.text ['x'])))
        (.assign .nowhere (.text ['y']) (.binary .nowhere .sub (.literal .nowhere (.integer 2))
          (.binary .nowhere .sub (.literal .nowhere (.integer 3))
            (.var .nowhere (.text ['z'])))))) :=
  parseFeed_written {} (.print .nowhere (.binary .nowhere .mul
    (.binary .nowhere .add (.literal .nowhere (.integer 1)) (.var .nowhere (.text ['x'])))
    (.assign .nowhere (.text ['y']) (.binary .nowhere .sub (.literal .nowhere (.integer 2))
      (.binary .nowhere .sub (.literal .nowhere (.integer 3))
        (.var .nowhere (.text ['z']))))))) _ 5 rfl (by decide)

end ScriptFront
