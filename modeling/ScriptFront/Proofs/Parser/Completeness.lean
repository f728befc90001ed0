import ScriptFront.Proofs.Parser.Outcome

set_option autoImplicit false

/-! # Whatever the grammar derives is read

The plain machine reads every phrase that the grammar derives and gives its tree, whatever follows
the phrase, as long as that does not prolong it. A derivation groups a run of operators from its
end and the parser reads it from its beginning, so of a `term` and a `fact` it is shown that the
parser gets to the end of the run with the tree in hand and some fuel left. -/

namespace ScriptFront

open Grammar

/-! ## How operands begin -/

/-- An operand begins neither like a `print` nor like an assignment. -/
theorem Grammar.Derives.operand_head {phrase : Phrase} {depth : Nat} {items : List Item}
    {tree : Expr} (h : Derives phrase depth items tree) (hphrase : phrase ≠ .assign) :
    ∃ start others, items = start :: others ∧ start.kind ≠ .print ∧
      (start.kind = .identifier → ∀ next, others.head? = some next → next.kind ≠ .equals) := by
  induction h with
  | print | target | ofTerm => exact absurd rfl hphrase
  | ofFact _ ih | ofAtom _ ih => exact ih (by decide)
  | @sum _ _ rights sign _ _ _ _ hsign _ ih _ | @product _ _ rights sign _ _ _ _ hsign _ ih _ =>
      obtain ⟨start, others, rfl, hprint, hname⟩ := ih (by decide)
      refine ⟨start, others ++ sign :: rights, rfl, hprint, fun hkind next hnext => ?_⟩
      cases others with
      | nil =>
          -- what follows a single item is the sign, which is no `=`
          obtain rfl : sign = next := by simpa using hnext
          intro hequals
          rw [hequals] at hsign
          cases hsign
      | cons other others => exact hname hkind next hnext
  | name hitem => exact ⟨_, [], rfl, by simp [hitem], by simp⟩
  | integer hitem => exact ⟨_, [], rfl, by simp [hitem], by simp⟩
  | parens hopening => exact ⟨_, _, rfl, by simp [hopening], by simp [hopening]⟩

theorem StopsAt.assign {item : Item} {rest : List Item}
    (h : item.kind = .semicolon ∨ item.kind = .rightParen) : StopsAt .assign (item :: rest) := by
  intro first hfirst
  obtain rfl : item = first := by simpa using hfirst
  rcases h with h | h <;> rw [h] <;> exact ⟨⟨nofun, nofun⟩, nofun⟩

namespace Unbuffered

open Parse Run

/-! ## Runs of the plain machine -/

section

variable (item : Item) (rest : List Item) (depth : Nat) (maxDepth : Int)

theorem first_cons : first (⟨item :: rest, depth, maxDepth⟩ : Unbuffered) =
    .ok item ⟨item :: rest, depth, maxDepth⟩ := rfl

theorem advance_cons : advance (⟨item :: rest, depth, maxDepth⟩ : Unbuffered) =
    .ok item ⟨rest, depth, maxDepth⟩ := rfl

theorem expect_cons {kind : TokenKind} (complaint : Complaint) (h : item.kind = kind) :
    expect kind complaint (⟨item :: rest, depth, maxDepth⟩ : Unbuffered) =
      .ok item ⟨rest, depth, maxDepth⟩ := by
  show (if item.kind = kind then advance else _) _ = _
  rw [if_pos h]
  rfl

end

/-- A parser reads the items as a phrase and gives the tree. -/
def ReadsPhrase (phrase : Phrase) (parser : Parse Unbuffered Expr) (items : List Item)
    (tree : Expr) : Prop :=
  ∀ rest depth maxDepth, StopsAt phrase rest →
    parser ⟨items ++ rest, depth, maxDepth⟩ = .ok tree ⟨rest, depth, maxDepth⟩

/-- A parser of a run gets behind the items with the tree, and has used up no more of its fuel than
    there are operators among them. -/
def ReadsRun (part : Phrase) (operator? : TokenKind → Option Operator)
    (operand : Parse Unbuffered Expr) (fuel : Nat) (items : List Item) (tree : Expr) : Prop :=
  ∃ left', fuel < left' + items.length ∧ ∀ rest depth maxDepth, StopsAt part rest →
    (operand >>= fun left => chain operator? operand fuel left) ⟨items ++ rest, depth, maxDepth⟩ =
      chain operator? operand left' tree ⟨rest, depth, maxDepth⟩

section Runs

variable {whole part : Phrase} {operator? : TokenKind → Option Operator}
  {operand : Parse Unbuffered Expr} {fuel : Nat}

theorem chain_stop {rest : List Item} (hrest : ∀ item, rest.head? = some item →
      operator? item.kind = none) (left : Expr) (depth : Nat) (maxDepth : Int) :
    chain operator? operand fuel left ⟨rest, depth, maxDepth⟩ =
      .ok left ⟨rest, depth, maxDepth⟩ := by
  cases fuel with
  | zero => rfl
  | succ fuel =>
      have hcurrent : current (⟨rest, depth, maxDepth⟩ : Unbuffered) =
          .ok rest[0]? ⟨rest, depth, maxDepth⟩ := rfl
      have hnone : rest[0]?.bind (operator? ·.kind) = none := by
        rw [← List.head?_eq_getElem?, Option.bind_eq_none_iff]
        exact hrest
      unfold chain
      rw [bind_of_ok hcurrent, hnone]
      rfl

theorem chain_cons {sign : Item} {operator : Operator}
    (hsign : operator? sign.kind = some operator) {left right : Expr} {rights rest : List Item}
    {depth : Nat} {maxDepth : Int} (hright : operand ⟨rights ++ rest, depth, maxDepth⟩ =
      .ok right ⟨rest, depth, maxDepth⟩) :
    chain operator? operand (fuel + 1) left ⟨sign :: (rights ++ rest), depth, maxDepth⟩ =
      chain operator? operand fuel (.binary (left.span.combine right.span) operator left right)
        ⟨rest, depth, maxDepth⟩ := by
  have hcurrent : current (⟨sign :: (rights ++ rest), depth, maxDepth⟩ : Unbuffered) =
      .ok (some sign) ⟨sign :: (rights ++ rest), depth, maxDepth⟩ := rfl
  rw [chain, bind_of_ok hcurrent, Option.bind_some, hsign]
  exact (bind_of_ok (advance_cons ..)).trans (bind_of_ok hright)

theorem ReadsRun.single {items : List Item} {tree : Expr} (hitems : items ≠ [])
    (h : ReadsPhrase part operand items tree) :
    ReadsRun part operator? operand fuel items tree := by
  refine ⟨fuel, ?_, fun rest depth maxDepth hstops => bind_of_ok (h rest depth maxDepth hstops)⟩
  have := List.length_pos_iff.2 hitems
  omega

theorem ReadsRun.joined (hchained : Chained whole part operator?) {lefts rights : List Item}
    {left right : Expr} {sign : Item} {operator : Operator}
    (hleft : ReadsRun part operator? operand fuel lefts left)
    (hsign : operator? sign.kind = some operator)
    (hright : ReadsPhrase part operand rights right) (hrights : rights ≠ [])
    (hfuel : lefts.length ≤ fuel) :
    ReadsRun part operator? operand fuel (lefts ++ sign :: rights)
      (.binary (left.span.combine right.span) operator left right) := by
  obtain ⟨left', hlt, hrun⟩ := hleft
  -- the items before the sign have not used up the fuel
  obtain ⟨left', rfl⟩ : ∃ n, left' = n + 1 := ⟨left' - 1, by omega⟩
  refine ⟨left', ?_, fun rest depth maxDepth hstops => ?_⟩
  · have := List.length_pos_iff.2 hrights
    simp only [List.length_append, List.length_cons]
    omega
  · have hbefore : StopsAt part (sign :: (rights ++ rest)) := by
      intro item hitem
      obtain rfl : sign = item := by simpa using hitem
      exact hchained.ends hsign
    rw [List.append_assoc, List.cons_append, hrun _ depth maxDepth hbefore]
    exact chain_cons hsign (hright rest depth maxDepth hstops)

/-- At the end of the run the parser is through. -/
theorem ReadsRun.reads (hchained : Chained whole part operator?) {items : List Item}
    {tree : Expr} (h : ReadsRun part operator? operand fuel items tree) :
    ReadsPhrase whole (operand >>= fun left => chain operator? operand fuel left) items tree := by
  obtain ⟨left', -, hrun⟩ := h
  intro rest depth maxDepth hstops
  rw [hrun rest depth maxDepth fun item hitem => (hchained.stops.1 (hstops item hitem)).1]
  exact chain_stop (fun item hitem => (hchained.stops.1 (hstops item hitem)).2) ..

end Runs

/-! ## Every phrase -/

/-- What an operand begins with leads to the parser of operands. -/
theorem levelWith_operand {fuel : Nat} {nested : Parse Unbuffered Expr} {start : Item}
    {others : List Item} {depth : Nat} {maxDepth : Int} (hprint : start.kind ≠ .print)
    (hname : start.kind = .identifier → ∀ next, others.head? = some next → next.kind ≠ .equals) :
    levelWith fuel nested start ⟨start :: others, depth, maxDepth⟩ =
      operandWith fuel nested start ⟨start :: others, depth, maxDepth⟩ := by
  unfold levelWith
  cases hkind : start.kind
  case print => exact absurd hkind hprint
  case identifier =>
    have hlook : TokenMachine.look 1 (⟨start :: others, depth, maxDepth⟩ : Unbuffered) =
        .ok others.head? ⟨start :: others, depth, maxDepth⟩ := by
      cases others <;> rfl
    have hnext : ¬ others.head?.map Item.kind = some .equals := by
      intro h
      obtain ⟨next, hhead, hequals⟩ := Option.map_eq_some_iff.1 h
      exact hname hkind next hhead hequals
    refine (bind_of_ok hlook).trans ?_
    rw [if_neg hnext]
  all_goals rfl

/-- A term that no `=` follows is an operand that nothing is assigned to. -/
theorem operandWith_reads_term (start : Item) {fuel : Nat} {nested : Parse Unbuffered Expr}
    {items : List Item} {tree : Expr} (h : ReadsPhrase .term (termWith fuel nested) items tree) :
    ReadsPhrase .assign (operandWith fuel nested start) items tree := by
  intro rest depth maxDepth hstops
  have hat : isAt [.equals] (⟨rest, depth, maxDepth⟩ : Unbuffered) =
      .ok false ⟨rest, depth, maxDepth⟩ := by
    cases rest with
    | nil => rfl
    | cons item rest =>
        have hne : [TokenKind.equals].contains item.kind = false := by
          simpa using (hstops item rfl).2
        show EStateM.Result.ok ([TokenKind.equals].contains item.kind) _ = _
        rw [hne]
  unfold operandWith
  rw [bind_of_ok (h rest depth maxDepth fun item hitem => (hstops item hitem).1), bind_of_ok hat]
  rfl

/-- An `assign` with room for one more level is what its inside is. -/
theorem assignWith_succ {fuel room : Nat} {start : Item} {others rest : List Item} {tree : Expr}
    {depth : Nat} {maxDepth : Int} (h : levelWith fuel (assignWith fuel room) start
      (⟨start :: others, depth + 1, maxDepth⟩ : Unbuffered) =
        .ok tree ⟨rest, depth + 1, maxDepth⟩) :
    assignWith fuel (room + 1) (⟨start :: others, depth, maxDepth⟩ : Unbuffered) =
      .ok tree ⟨rest, depth, maxDepth⟩ := by
  refine (bind_of_ok (first_cons ..)).trans ?_
  have hentered : TokenMachine.enter (⟨start :: others, depth, maxDepth⟩ : Unbuffered) =
      ⟨start :: others, depth + 1, maxDepth⟩ := rfl
  rw [deeper, hentered, h]
  rfl

theorem assignWith_print {fuel room : Nat} {word : Item} {items : List Item} {tree : Expr}
    (hword : word.kind = .print) (h : ReadsPhrase .assign (assignWith fuel room) items tree) :
    ReadsPhrase .assign (assignWith fuel (room + 1)) (word :: items)
      (.print (word.span.combine tree.span) tree) := by
  intro rest depth maxDepth hstops
  refine assignWith_succ ?_
  unfold levelWith
  rw [hword]
  refine (bind_of_ok (advance_cons ..)).trans ?_
  exact bind_of_ok (h rest (depth + 1) maxDepth hstops)

theorem assignWith_target {fuel room : Nat} {name equals : Item} {items : List Item} {tree : Expr}
    (hname : name.kind = .identifier) (hequals : equals.kind = .equals)
    (h : ReadsPhrase .assign (assignWith fuel room) items tree) :
    ReadsPhrase .assign (assignWith fuel (room + 1)) (name :: equals :: items)
      (.assign (name.span.combine tree.span) name.token.payload tree) := by
  intro rest depth maxDepth hstops
  refine assignWith_succ ?_
  have hlook : TokenMachine.look 1
      (⟨name :: equals :: items ++ rest, depth + 1, maxDepth⟩ : Unbuffered) =
      .ok (some equals) ⟨name :: equals :: items ++ rest, depth + 1, maxDepth⟩ := rfl
  unfold levelWith
  rw [hname]
  refine (bind_of_ok hlook).trans ?_
  rw [if_pos (by rw [Option.map_some, hequals])]
  refine (bind_of_ok (advance_cons ..)).trans ?_
  refine (bind_of_ok (advance_cons ..)).trans ?_
  exact bind_of_ok (h rest (depth + 1) maxDepth hstops)

theorem assignWith_term {fuel room : Nat} {items : List Item} {tree : Expr}
    (hterm : Derives .term room items tree)
    (h : ReadsPhrase .term (termWith fuel (assignWith fuel room)) items tree) :
    ReadsPhrase .assign (assignWith fuel (room + 1)) items tree := by
  intro rest depth maxDepth hstops
  obtain ⟨start, others, rfl, hprint, hname⟩ := hterm.operand_head (by decide)
  have hname' : start.kind = .identifier →
      ∀ next, (others ++ rest).head? = some next → next.kind ≠ .equals := by
    intro hkind next hnext
    cases others with
    | nil => exact (hstops next hnext).2
    | cons other others => exact hname hkind next hnext
  have hoperand := operandWith_reads_term start h rest (depth + 1) maxDepth hstops
  exact assignWith_succ ((levelWith_operand hprint hname').trans hoperand)

theorem atomWith_parens {fuel room : Nat} {opening closing : Item} {items : List Item}
    {tree : Expr} (hopening : opening.kind = .leftParen) (hclosing : closing.kind = .rightParen)
    (h : ReadsPhrase .assign (assignWith fuel room) items tree) :
    ReadsPhrase .atom (atomWith (assignWith fuel room)) (opening :: items ++ [closing]) tree := by
  intro rest depth maxDepth _
  have hinner := h (closing :: rest) depth maxDepth (.assign (.inr hclosing))
  rw [List.cons_append, List.cons_append, List.append_assoc, List.singleton_append]
  refine (bind_of_ok (first_cons ..)).trans ?_
  rw [hopening]
  refine (bind_of_ok (advance_cons ..)).trans ?_
  refine (bind_of_ok hinner).trans ?_
  exact bind_of_ok (expect_cons closing rest depth maxDepth _ hclosing)

theorem atomWith_single {nested : Parse Unbuffered Expr} {item : Item} {tree : Expr}
    (h : item.kind = .identifier ∧ tree = .var item.span item.token.payload ∨
      item.kind = .integer ∧ tree = .literal item.span item.token.payload) :
    ReadsPhrase .atom (atomWith nested) [item] tree := by
  intro rest depth maxDepth _
  refine (bind_of_ok (first_cons ..)).trans ?_
  rcases h with ⟨hkind, rfl⟩ | ⟨hkind, rfl⟩ <;> rw [hkind] <;>
    exact bind_of_ok (advance_cons ..)

/-- How a phrase is read: whole, or as a run of operands. -/
def ReadsAs (fuel room : Nat) (items : List Item) (tree : Expr) : Phrase → Prop
  | .assign => ReadsPhrase .assign (assignWith fuel room) items tree
  | .term => ReadsRun .fact termOperator? (factWith fuel (assignWith fuel room)) fuel items tree
  | .fact => ReadsRun .atom factOperator? (atomWith (assignWith fuel room)) fuel items tree
  | .atom => ReadsPhrase .atom (atomWith (assignWith fuel room)) items tree

theorem derives_readsAs {fuel room : Nat} {phrase : Phrase} {items : List Item} {tree : Expr}
    (h : Derives phrase room items tree) (hfuel : items.length ≤ fuel) :
    ReadsAs fuel room items tree phrase := by
  induction h with
  | print hword _ ih =>
      simp only [List.length_cons] at hfuel
      exact assignWith_print hword (ih (by omega))
  | target hname hequals _ ih =>
      simp only [List.length_cons] at hfuel
      exact assignWith_target hname hequals (ih (by omega))
  | ofTerm hterm ih => exact assignWith_term hterm ((ih hfuel).reads .term)
  | sum _ hsign hright ihl ihr =>
      simp only [List.length_append, List.length_cons] at hfuel
      have hrights := (ihr (by omega)).reads .fact
      exact (ihl (by omega)).joined .term (termOperator?_eq_some.2 hsign) hrights hright.ne_nil
        (by omega)
  | ofFact hfact ih => exact .single hfact.ne_nil ((ih hfuel).reads .fact)
  | product _ hsign hright ihl ihr =>
      simp only [List.length_append, List.length_cons] at hfuel
      exact (ihl (by omega)).joined .fact (factOperator?_eq_some.2 hsign) (ihr (by omega))
        hright.ne_nil (by omega)
  | ofAtom hatom ih => exact .single hatom.ne_nil (ih hfuel)
  | name hitem => exact atomWith_single (.inl ⟨hitem, rfl⟩)
  | integer hitem => exact atomWith_single (.inr ⟨hitem, rfl⟩)
  | parens hopening _ hclosing ih =>
      simp only [List.length_append, List.length_cons, List.length_nil] at hfuel
      exact atomWith_parens hopening hclosing (ih (by omega))

/-! ## Whole programs -/

/-- A statement is read up to and with its semicolon. -/
theorem statementWith_complete {fuel room : Nat} {items : List Item} {semicolon : Item}
    {tree : Expr} (htree : Derives .assign room items tree) (hsemi : semicolon.kind = .semicolon)
    (hfuel : items.length ≤ fuel) (rest : List Item) (depth : Nat) (maxDepth : Int) :
    statementWith fuel room (⟨items ++ semicolon :: rest, depth, maxDepth⟩ : Unbuffered) =
      .ok tree ⟨rest, depth, maxDepth⟩ := by
  have hassign := derives_readsAs htree hfuel (semicolon :: rest) depth maxDepth
    (.assign (.inl hsemi))
  refine (bind_of_ok hassign).trans ?_
  exact bind_of_ok (expect_cons semicolon rest depth maxDepth _ hsemi)

/-- Statements are read, and then what is behind them. -/
theorem statementsWith_append {fuel room : Nat} {items : List Item} {trees : List Expr}
    (h : Statements room items trees) (hfuel : items.length ≤ fuel) (rest : List Item)
    (count depth : Nat) (maxDepth : Int) :
    statementsWith fuel room (trees.length + count)
        (⟨items ++ rest, depth, maxDepth⟩ : Unbuffered) =
      ((trees ++ ·) <$> statementsWith fuel room count : Parse Unbuffered (List Expr))
        ⟨rest, depth, maxDepth⟩ := by
  induction h with
  | nil => simp
  | @cons items others semicolon tree trees htree hsemi _ ih =>
      simp only [List.length_append, List.length_cons] at hfuel
      obtain ⟨start, _, hitems⟩ := List.exists_cons_of_ne_nil htree.ne_nil
      have hcurrent : current (⟨items ++ semicolon :: (others ++ rest), depth, maxDepth⟩ :
          Unbuffered) =
            .ok (some start) ⟨items ++ semicolon :: (others ++ rest), depth, maxDepth⟩ := by
        rw [hitems]; rfl
      have hstatement := statementWith_complete htree hsemi (show items.length ≤ fuel by omega)
        (others ++ rest) depth maxDepth
      rw [List.append_assoc, List.cons_append, List.length_cons, Nat.add_right_comm]
      refine (bind_of_ok hcurrent).trans ?_
      refine (bind_of_ok hstatement).trans ?_
      simp only [bind_pure_comp, map_apply, ih (by omega)]
      cases statementsWith fuel room count (⟨rest, depth, maxDepth⟩ : Unbuffered) <;> rfl

theorem statementsWith_complete {fuel room : Nat} {items : List Item} {trees : List Expr}
    (h : Statements room items trees) (hfuel : items.length ≤ fuel) (count depth : Nat)
    (maxDepth : Int) (hcount : items.length < count) :
    statementsWith fuel room count (⟨items, depth, maxDepth⟩ : Unbuffered) =
      .ok trees ⟨[], depth, maxDepth⟩ := by
  have hle := h.length_le
  obtain ⟨count, rfl⟩ : ∃ n, count = trees.length + (n + 1) := ⟨count - trees.length - 1, by omega⟩
  have happend := statementsWith_append h hfuel [] (count + 1) depth maxDepth
  rw [List.append_nil] at happend
  rw [happend]
  show EStateM.Result.ok (trees ++ []) _ = _
  rw [List.append_nil]

/-- **Every program of the grammar is read, with its trees.** -/
theorem program_complete {items : List Item} {maxDepth : Int} {trees : List Expr}
    (h : Statements maxDepth.toNat items trees) :
    program { items, maxDepth : Unbuffered } = .ok ⟨trees⟩ ⟨[], 0, maxDepth⟩ := by
  have hroom : TokenMachine.room { items, maxDepth : Unbuffered } = maxDepth.toNat := by
    simp [TokenMachine.room]
  have hstatements : sized (fun fuel room => statementsWith fuel room fuel)
      { items, maxDepth : Unbuffered } = .ok trees ⟨[], 0, maxDepth⟩ := by
    rw [sized, hroom]
    exact statementsWith_complete h (Nat.le_succ _) _ 0 maxDepth (Nat.lt_succ_self _)
  exact bind_of_ok hstatements

end Unbuffered

end ScriptFront
