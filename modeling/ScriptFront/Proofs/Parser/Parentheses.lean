import ScriptFront.Proofs.Parser.Acceptance
import ScriptFront.Proofs.Parser.Printing

set_option autoImplicit false

/-! # Redundant parentheses

Any part of a program may be put in parentheses, and the program stays the same. Which items a part
is read from is said by its place in the derivation of the whole (`DerivesPart`): these are the
items of its own phrase, with parentheses around that or without. In parentheses they are a phrase
of every sort that gives the same tree, and so the derivation goes on around them as before, with
one more level on the path that leads to them. -/

namespace ScriptFront

open Grammar

namespace Grammar

/-! ## The items of a part -/

/-- In a derivation of the tree from `before`, `run` and `after`, the part of the tree at the path
    is derived from `run`, and that part is `node`. -/
inductive DerivesPart (node : Expr) (run : List Item) :
    Phrase → Nat → List Nat → List Item → List Item → Expr → Prop
  | whole {phrase : Phrase} {depth : Nat} :
      Derives phrase depth run node → DerivesPart node run phrase depth [] [] [] node
  | print {depth : Nat} {path : List Nat} {before after : List Item} {word : Item}
      {operand : Expr} :
      word.kind = .print → DerivesPart node run .assign depth path before after operand →
      DerivesPart node run .assign (depth + 1) (0 :: path) (word :: before) after
        (.print (word.span.combine operand.span) operand)
  | target {depth : Nat} {path : List Nat} {before after : List Item} {name equals : Item}
      {value : Expr} :
      name.kind = .identifier → equals.kind = .equals →
      DerivesPart node run .assign depth path before after value →
      DerivesPart node run .assign (depth + 1) (0 :: path) (name :: equals :: before) after
        (.assign (name.span.combine value.span) name.token.payload value)
  | ofTerm {depth : Nat} {path : List Nat} {before after : List Item} {tree : Expr} :
      DerivesPart node run .term depth path before after tree →
      DerivesPart node run .assign (depth + 1) path before after tree
  | leftOfSum {depth : Nat} {path : List Nat} {before after rights : List Item} {sign : Item}
      {operator : Operator} {left right : Expr} :
      DerivesPart node run .term depth path before after left → TermSign sign.kind operator →
      Derives .fact depth rights right →
      DerivesPart node run .term depth (0 :: path) before (after ++ sign :: rights)
        (.binary (left.span.combine right.span) operator left right)
  | rightOfSum {depth : Nat} {path : List Nat} {lefts before after : List Item} {sign : Item}
      {operator : Operator} {left right : Expr} :
      Derives .term depth lefts left → TermSign sign.kind operator →
      DerivesPart node run .fact depth path before after right →
      DerivesPart node run .term depth (1 :: path) (lefts ++ sign :: before) after
        (.binary (left.span.combine right.span) operator left right)
  | ofFact {depth : Nat} {path : List Nat} {before after : List Item} {tree : Expr} :
      DerivesPart node run .fact depth path before after tree →
      DerivesPart node run .term depth path before after tree
  | leftOfProduct {depth : Nat} {path : List Nat} {before after rights : List Item} {sign : Item}
      {operator : Operator} {left right : Expr} :
      DerivesPart node run .fact depth path before after left → FactSign sign.kind operator →
      Derives .atom depth rights right →
      DerivesPart node run .fact depth (0 :: path) before (after ++ sign :: rights)
        (.binary (left.span.combine right.span) operator left right)
  | rightOfProduct {depth : Nat} {path : List Nat} {lefts before after : List Item} {sign : Item}
      {operator : Operator} {left right : Expr} :
      Derives .fact depth lefts left → FactSign sign.kind operator →
      DerivesPart node run .atom depth path before after right →
      DerivesPart node run .fact depth (1 :: path) (lefts ++ sign :: before) after
        (.binary (left.span.combine right.span) operator left right)
  | ofAtom {depth : Nat} {path : List Nat} {before after : List Item} {tree : Expr} :
      DerivesPart node run .atom depth path before after tree →
      DerivesPart node run .fact depth path before after tree
  | parens {depth : Nat} {path : List Nat} {before after : List Item} {opening closing : Item}
      {tree : Expr} :
      opening.kind = .leftParen → DerivesPart node run .assign depth path before after tree →
      closing.kind = .rightParen →
      DerivesPart node run .atom depth path (opening :: before) (after ++ [closing]) tree

/-- Every part of a derived tree is derived from some of its items. -/
theorem Derives.exists_part {phrase : Phrase} {depth : Nat} {items : List Item} {tree node : Expr}
    (h : Derives phrase depth items tree) {path : List Nat} (hpath : tree.part? path = some node) :
    ∃ before run after, items = before ++ run ++ after ∧
      DerivesPart node run phrase depth path before after tree := by
  have hwhole {phrase : Phrase} {depth : Nat} {items : List Item} {tree : Expr}
      (h : Derives phrase depth items tree) (hpath : tree.part? [] = some node) :
      ∃ before run after, items = before ++ run ++ after ∧
        DerivesPart node run phrase depth [] before after tree := by
    obtain rfl : tree = node := Option.some.inj hpath
    exact ⟨[], items, [], by simp, .whole h⟩
  induction h generalizing path with
  | print hword hoperand ih =>
      rcases path with _ | ⟨_ | child, path⟩
      · exact hwhole (.print hword hoperand) hpath
      · obtain ⟨before, run, after, rfl, hpart⟩ := ih hpath
        exact ⟨_, run, after, rfl, .print hword hpart⟩
      · simp [Expr.part?, Expr.children] at hpath
  | target hname hequals hvalue ih =>
      rcases path with _ | ⟨_ | child, path⟩
      · exact hwhole (.target hname hequals hvalue) hpath
      · obtain ⟨before, run, after, rfl, hpart⟩ := ih hpath
        exact ⟨_, run, after, rfl, .target hname hequals hpart⟩
      · simp [Expr.part?, Expr.children] at hpath
  | ofTerm _ ih =>
      obtain ⟨before, run, after, rfl, hpart⟩ := ih hpath
      exact ⟨before, run, after, rfl, .ofTerm hpart⟩
  | sum hleft hsign hright ihl ihr =>
      rcases path with _ | ⟨_ | _ | child, path⟩
      · exact hwhole (.sum hleft hsign hright) hpath
      · obtain ⟨before, run, after, rfl, hpart⟩ := ihl hpath
        exact ⟨before, run, _, by simp, .leftOfSum hpart hsign hright⟩
      · obtain ⟨before, run, after, rfl, hpart⟩ := ihr hpath
        exact ⟨_, run, after, by simp, .rightOfSum hleft hsign hpart⟩
      · simp [Expr.part?, Expr.children] at hpath
  | ofFact _ ih =>
      obtain ⟨before, run, after, rfl, hpart⟩ := ih hpath
      exact ⟨before, run, after, rfl, .ofFact hpart⟩
  | product hleft hsign hright ihl ihr =>
      rcases path with _ | ⟨_ | _ | child, path⟩
      · exact hwhole (.product hleft hsign hright) hpath
      · obtain ⟨before, run, after, rfl, hpart⟩ := ihl hpath
        exact ⟨before, run, _, by simp, .leftOfProduct hpart hsign hright⟩
      · obtain ⟨before, run, after, rfl, hpart⟩ := ihr hpath
        exact ⟨_, run, after, by simp, .rightOfProduct hleft hsign hpart⟩
      · simp [Expr.part?, Expr.children] at hpath
  | ofAtom _ ih =>
      obtain ⟨before, run, after, rfl, hpart⟩ := ih hpath
      exact ⟨before, run, after, rfl, .ofAtom hpart⟩
  | name hitem =>
      cases path with
      | nil => exact hwhole (.name hitem) hpath
      | cons child path => simp [Expr.part?, Expr.children] at hpath
  | integer hitem =>
      cases path with
      | nil => exact hwhole (.integer hitem) hpath
      | cons child path => simp [Expr.part?, Expr.children] at hpath
  | parens hopening htree hclosing ih =>
      cases path with
      | nil => exact hwhole (.parens hopening htree hclosing) hpath
      | cons child path =>
          obtain ⟨before, run, after, rfl, hpart⟩ := ih hpath
          exact ⟨_, run, _, by simp, .parens hopening hpart hclosing⟩

/-! ## Parentheses around a part -/

/-- In parentheses a phrase is a phrase of the same sort, one level further in. -/
theorem Derives.enclosed {phrase : Phrase} {depth : Nat} {items : List Item} {tree : Expr}
    (h : Derives phrase depth items tree) {opening closing : Item}
    (hopening : opening.kind = .leftParen) (hclosing : closing.kind = .rightParen) :
    Derives phrase (depth + 1) (opening :: items ++ [closing]) tree := by
  by_cases hphrase : phrase = .assign
  · subst hphrase
    have hatom : Derives .atom depth (opening :: items ++ [closing]) tree :=
      .parens hopening h hclosing
    exact .ofTerm (hatom.loosen (by decide) (by decide))
  · have htight : Phrase.term.tightness ≤ phrase.tightness := by
      cases phrase with
      | assign => exact absurd rfl hphrase
      | term | fact | atom => decide
    have hassign : Derives .assign (depth + 1) items tree :=
      .ofTerm (h.loosen htight (by decide))
    have hatom : Derives .atom (depth + 1) (opening :: items ++ [closing]) tree :=
      .parens hopening hassign hclosing
    exact hatom.loosen (by cases phrase <;> decide) hphrase

/-- With a part in parentheses the tree is derived as before, one level further in. -/
theorem DerivesPart.enclosed {node tree : Expr} {run before after : List Item} {phrase : Phrase}
    {depth : Nat} {path : List Nat} (h : DerivesPart node run phrase depth path before after tree)
    {opening closing : Item} (hopening : opening.kind = .leftParen)
    (hclosing : closing.kind = .rightParen) :
    Derives phrase (depth + 1) (before ++ (opening :: run ++ [closing]) ++ after) tree := by
  induction h with
  | whole h => simpa using h.enclosed hopening hclosing
  | print hword _ ih => simpa using Derives.print hword ih
  | target hname hequals _ ih => simpa using Derives.target hname hequals ih
  | ofTerm _ ih => exact .ofTerm ih
  | leftOfSum _ hsign hright ih =>
      simpa using Derives.sum ih hsign (hright.mono (Nat.le_succ _))
  | rightOfSum hleft hsign _ ih =>
      simpa using Derives.sum (hleft.mono (Nat.le_succ _)) hsign ih
  | ofFact _ ih => exact .ofFact ih
  | leftOfProduct _ hsign hright ih =>
      simpa using Derives.product ih hsign (hright.mono (Nat.le_succ _))
  | rightOfProduct hleft hsign _ ih =>
      simpa using Derives.product (hleft.mono (Nat.le_succ _)) hsign ih
  | ofAtom _ ih => exact .ofAtom ih
  | parens hopening _ hclosing ih => simpa using Derives.parens hopening ih hclosing

/-! ## Parts of programs -/

/-- In a derivation of statements from `before`, `run` and `after`, the part at the path of the
    statement of that number is derived from `run`, and it is `node`. -/
inductive StatementsPart (node : Expr) (run : List Item) (depth : Nat) :
    Nat → List Nat → List Item → List Item → List Expr → Prop
  | here {path : List Nat} {before after rest : List Item} {semicolon : Item} {tree : Expr}
      {trees : List Expr} :
      DerivesPart node run .assign depth path before after tree → semicolon.kind = .semicolon →
      Statements depth rest trees →
      StatementsPart node run depth 0 path before (after ++ semicolon :: rest) (tree :: trees)
  | later {number : Nat} {path : List Nat} {items before after : List Item} {semicolon : Item}
      {tree : Expr} {trees : List Expr} :
      Derives .assign depth items tree → semicolon.kind = .semicolon →
      StatementsPart node run depth number path before after trees →
      StatementsPart node run depth (number + 1) path (items ++ semicolon :: before) after
        (tree :: trees)

theorem Statements.exists_part {depth number : Nat} {items : List Item} {trees : List Expr}
    {node : Expr} {path : List Nat} (h : Statements depth items trees)
    (hpath : trees[number]?.bind (Expr.part? path) = some node) :
    ∃ before run after, items = before ++ run ++ after ∧
      StatementsPart node run depth number path before after trees := by
  induction h generalizing number with
  | nil => simp at hpath
  | cons htree hsemi hrest ih =>
      cases number with
      | zero =>
          obtain ⟨before, run, after, rfl, hpart⟩ := htree.exists_part hpath
          exact ⟨before, run, _, by simp, .here hpart hsemi hrest⟩
      | succ number =>
          obtain ⟨before, run, after, rfl, hpart⟩ := ih hpath
          exact ⟨_, run, after, by simp, .later htree hsemi hpart⟩

/-- With a part in parentheses the statements are the same, one level further in. -/
theorem StatementsPart.enclosed {node : Expr} {run before after : List Item} {depth number : Nat}
    {path : List Nat} {trees : List Expr}
    (h : StatementsPart node run depth number path before after trees) {opening closing : Item}
    (hopening : opening.kind = .leftParen) (hclosing : closing.kind = .rightParen) :
    Statements (depth + 1) (before ++ (opening :: run ++ [closing]) ++ after) trees := by
  induction h with
  | here hpart hsemi hrest =>
      have htree := hpart.enclosed hopening hclosing
      simpa using Statements.cons htree hsemi (hrest.mono (Nat.le_succ _))
  | later htree hsemi _ ih =>
      simpa using Statements.cons (htree.mono (Nat.le_succ _)) hsemi ih

/-- Where there is a part there is room for a level. -/
theorem StatementsPart.depth_pos {node : Expr} {run before after : List Item} {depth number : Nat}
    {path : List Nat} {trees : List Expr}
    (h : StatementsPart node run depth number path before after trees) : 0 < depth := by
  induction h with
  | here hpart => cases hpart with
    | whole h => cases h <;> exact Nat.succ_pos _
    | print | target | ofTerm => exact Nat.succ_pos _
  | later _ _ _ ih => exact ih

end Grammar

/-! ## Whole inputs -/

/-- A program that prepared items give is one that the grammar derives from them. -/
theorem statements_of_parseFeed_eq_ok {limits : Limits} {items : List Item} {maxDepth : Int}
    {program : Program}
    (h : parseFeed limits (some maxDepth) (Feed.ofItems items) = .ok program) :
    Statements maxDepth.toNat items program.statements := by
  have hreads := Unbuffered.answer_reads items maxDepth
  rw [← parseFeed_ofItems limits, h] at hreads
  exact hreads

/-- **Redundant parentheses leave no trace.** Every part of a program that prepared items give is
    read from some of these items. When an opening parenthesis is put before them and a closing one
    behind them, whatever they carry and wherever they stand, the items give the same program, with
    the same spans, at one level more. -/
theorem parseFeed_enclosed {limits : Limits} {items : List Item} {maxDepth : Int}
    {program : Program} (h : parseFeed limits (some maxDepth) (Feed.ofItems items) = .ok program)
    {number : Nat} {path : List Nat} {node : Expr}
    (hnode : program.statements[number]?.bind (Expr.part? path) = some node) :
    (∃ before run after, items = before ++ run ++ after ∧
      StatementsPart node run maxDepth.toNat number path before after program.statements) ∧
    ∀ before run after, items = before ++ run ++ after →
      StatementsPart node run maxDepth.toNat number path before after program.statements →
      ∀ opening closing : Item, opening.kind = .leftParen → closing.kind = .rightParen →
        parseFeed limits (some (maxDepth + 1))
          (Feed.ofItems (before ++ (opening :: run ++ [closing]) ++ after)) = .ok program := by
  refine ⟨(statements_of_parseFeed_eq_ok h).exists_part hnode, ?_⟩
  intro before run after _hitems hpart opening closing hopening hclosing
  have hdepth : (maxDepth + 1).toNat = maxDepth.toNat + 1 := by
    have hpos := hpart.depth_pos
    omega
  have hstatements := hpart.enclosed hopening hclosing
  rw [← hdepth] at hstatements
  rw [parseFeed_ofItems, Unbuffered.program_complete hstatements]
  rfl

/-- `1-2-x` and `(1-2)-x` are the same program, wherever the parentheses stand. -/
theorem parseFeed_enclosed_difference :
    let one : Item := ⟨⟨.integer, .integer 1⟩, ⟨0, 1⟩⟩
    let minus : Item := ⟨⟨.minus, .none⟩, ⟨1, 2⟩⟩
    let two : Item := ⟨⟨.integer, .integer 2⟩, ⟨2, 3⟩⟩
    let name : Item := ⟨⟨.identifier, .text ['x']⟩, ⟨4, 5⟩⟩
    let semicolon : Item := ⟨⟨.semicolon, .none⟩, ⟨5, 6⟩⟩
    let node : Expr := .binary ⟨0, 3⟩ .sub (.literal ⟨0, 1⟩ (.integer 1))
      (.literal ⟨2, 3⟩ (.integer 2))
    let program : Program :=
      ⟨[.binary ⟨0, 5⟩ .sub node (.var ⟨4, 5⟩ (.text ['x']))]⟩
    parseFeed {} (some 1) (Feed.ofItems [one, minus, two, minus, name, semicolon]) = .ok program ∧
      program.statements[0]?.bind (Expr.part? [0]) = some node ∧
      StatementsPart node [one, minus, two] 1 0 [0] [] [minus, name, semicolon]
        program.statements ∧
      parseFeed {} (some (1 + 1)) (Feed.ofItems ([] ++ (⟨⟨.leftParen, .none⟩, ⟨7, 7⟩⟩ ::
        [one, minus, two] ++ [⟨⟨.rightParen, .none⟩, ⟨9, 8⟩⟩]) ++ [minus, name, semicolon])) =
          .ok program := by
  intro one minus two name semicolon node program
  have hrun : parseFeed {} (some 1) (Feed.ofItems [one, minus, two, minus, name, semicolon]) =
      .ok program := by decide +kernel
  have hnode : program.statements[0]?.bind (Expr.part? [0]) = some node := rfl
  have hone : Derives .term 0 [one] (.literal one.span one.token.payload) :=
    .ofFact (.ofAtom (.integer rfl))
  have htwo : Derives .fact 0 [two] (.literal two.span two.token.payload) :=
    .ofAtom (.integer rfl)
  have hname : Derives .fact 0 [name] (.var name.span name.token.payload) :=
    .ofAtom (.name rfl)
  have hdifference : Derives .term 0 [one, minus, two] node :=
    @Derives.sum 0 [one] [two] minus .sub _ _ hone .minus htwo
  have hwhole : DerivesPart node [one, minus, two] .term 0 [0] [] [minus, name]
      (.binary ⟨0, 5⟩ .sub node (.var ⟨4, 5⟩ (.text ['x']))) :=
    @DerivesPart.leftOfSum _ _ 0 [] [] [] [name] minus .sub _ _ (.whole hdifference) .minus hname
  have hpart : StatementsPart node [one, minus, two] 1 0 [0] [] [minus, name, semicolon]
      program.statements :=
    @StatementsPart.here _ _ 1 [0] [] [minus, name] [] semicolon _ [] (.ofTerm hwhole) rfl .nil
  exact ⟨hrun, hnode, hpart, (parseFeed_enclosed hrun hnode).2 [] [one, minus, two]
    [minus, name, semicolon] rfl hpart _ _ rfl rfl⟩

end ScriptFront
