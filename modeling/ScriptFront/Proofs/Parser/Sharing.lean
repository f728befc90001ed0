import Mathlib.Logic.Function.Basic
import ScriptFront.Proofs.Parser.Restraint
import ScriptFront.Proofs.Parser.Source

set_option autoImplicit false

/-! # Parsers that share a lexer

Any number of parsers may take their tokens from one lexer. Each of them keeps its own buffer, so a
token that is left in it is lost for the others; but behind a statement the buffer is empty. So
whoever reads the next statement finds the lexer where the one before has left it, and statement by
statement the parsers read together what one parser reads alone (`Sharing.turns_of_parseSource`). -/

namespace ScriptFront

open Grammar Run Parse

/-! ## Taking turns -/

/-- A lexer, and the parsers that take their tokens from it. -/
structure Sharing (ι : Type) where
  lexer : Lexer
  parsers : ι → Parser Unit

namespace Sharing

variable {ι : Type}

/-- Parsers with the same limit over a lexer at the start of a source. -/
def start (limits : Limits) (maxDepth : Option Int) (source : Text) : Sharing ι :=
  { lexer := .start source, parsers := fun _ => .build limits maxDepth () }

variable [DecidableEq ι]

/-- One of the parsers reads a statement. -/
def turn (sharing : Sharing ι) (who : ι) : Except Failure Expr × Sharing ι :=
  let result := outcome (statement ((sharing.parsers who).withSupply sharing.lexer))
  (result.1, { lexer := result.2.supply
               parsers := Function.update sharing.parsers who (result.2.withSupply ()) })

/-- The answers of turns, each with the state after it. -/
def turns (sharing : Sharing ι) : List ι → List (Except Failure Expr × Sharing ι)
  | [] => []
  | who :: schedule =>
    let result := sharing.turn who
    result :: result.2.turns schedule

/-- Between two turns every parser is as it was built, and the lexer has given all but the items
    that are left. -/
structure Between (maxDepth : Int) (total : Nat) (left : List Item) (sharing : Sharing ι) :
    Prop where
  parsers : ∀ who, sharing.parsers who = { maxDepth, supply := () }
  yields : sharing.lexer.Yields left none
  given : sharing.lexer.emitted + left.length = total

end Sharing

/-! ## One statement -/

/-- A lexer that no error ends keeps the sum of the tokens given and left. -/
theorem Lexer.accounts_keptByNext (total : Nat) : KeptByNext (Lexer.Accounts total) := by
  intro lexer h
  obtain ⟨item, lexer', hrun, h'⟩ := h.next
  rw [hrun]
  exact h'

/-- A parser with an empty buffer and no open level reads a statement that its lexer gives, and then
    it has an empty buffer and no open level again, and its lexer has given the statement and
    nothing else. -/
theorem Parser.statement_of_yields {lexer : Lexer} {items rest : List Item} {semicolon : Item}
    {tree : Expr} {total : Nat} {maxDepth : Int}
    (hyields : lexer.Yields (items ++ semicolon :: rest) none)
    (htotal : lexer.emitted + (items ++ semicolon :: rest).length = total)
    (htree : Derives .assign maxDepth.toNat items tree) (hsemi : semicolon.kind = .semicolon) :
    ∃ lexer', statement { maxDepth, supply := lexer : Parser Lexer } =
        .ok tree { maxDepth, supply := lexer' } ∧ lexer'.Yields rest none ∧
      lexer'.emitted + rest.length = total := by
  generalize hparser : ({ maxDepth, supply := lexer } : Parser Lexer) = parser
  have habreast : Abreast none parser ⟨items ++ semicolon :: rest, 0, maxDepth⟩ :=
    hparser ▸ ⟨_, hyields, rfl⟩
  have hbound : (items ++ semicolon :: rest).length ≤ TokenMachine.bound parser :=
    hparser ▸ Nat.le_trans hyields.length_le (Nat.le_add_left ..)
  have hfollows := statementWith_follows habreast (Nat.lt_succ_of_le hbound) (Nat.lt_succ_self _)
    maxDepth.toNat
  rw [Unbuffered.statementWith_complete htree hsemi (by simp; omega)] at hfollows
  obtain ⟨tree', parser', hrun, htree', unread, hunread, hplain⟩ := hfollows.of_ok
  obtain rfl : tree = tree' := htree'
  have hstatement : statement parser = .ok tree parser' := by
    rw [← hparser] at hrun ⊢
    simpa [statement, sized, TokenMachine.room] using hrun
  have hempty := (Delivery.lexer lexer).lookahead_of_statement
    (hparser ▸ ⟨rfl, rfl⟩) (by rw [← hparser]) (by rw [← hparser]) hstatement
  have hcount := (Lexer.accounts_keptByNext total).supplying.statement.keeps parser
    (by rw [← hparser]; exact ⟨_, hyields, htotal⟩)
  rw [hstatement] at hcount
  obtain ⟨left, hleft, hgiven⟩ := hcount
  obtain ⟨lookahead', depth', maxDepth', lexer'⟩ := parser'
  obtain rfl : lookahead' = [] := hempty
  obtain ⟨rfl, rfl, rfl⟩ := Unbuffered.mk.inj hplain
  obtain rfl := hleft.unique hunread
  exact ⟨lexer', hstatement, hleft, hgiven⟩

/-! ## One turn after another -/

namespace Sharing

variable {ι : Type} [DecidableEq ι] {maxDepth : Int} {total : Nat} {sharing : Sharing ι}

/-- Whoever reads the statement that comes next, it is read, and all parsers are as they were. -/
theorem Between.turn {items rest : List Item} {semicolon : Item} {tree : Expr}
    (h : sharing.Between maxDepth total (items ++ semicolon :: rest))
    (htree : Derives .assign maxDepth.toNat items tree) (hsemi : semicolon.kind = .semicolon)
    (who : ι) :
    ∃ sharing', sharing.turn who = (.ok tree, sharing') ∧ sharing'.Between maxDepth total rest := by
  obtain ⟨lexer', hrun, hyields, hgiven⟩ :=
    Parser.statement_of_yields h.yields h.given htree hsemi
  have hparser : (sharing.parsers who).withSupply sharing.lexer =
      { maxDepth, supply := sharing.lexer } := by rw [h.parsers]; rfl
  refine ⟨_, by rw [Sharing.turn, hparser, hrun]; rfl, fun other => ?_, hyields, hgiven⟩
  by_cases hother : other = who
  · rw [hother]
    exact Function.update_self ..
  · exact (Function.update_of_ne hother ..).trans (h.parsers other)

/-- However the parsers take turns, each turn gives the next statement, and then the lexer has given
    the items of the statements that have been read. -/
theorem Between.turns {left : List Item} {trees : List Expr}
    (htrees : Statements maxDepth.toNat left trees) :
    ∀ {sharing : Sharing ι}, sharing.Between maxDepth total left → ∀ (schedule : List ι) (k : Nat),
      k < schedule.length → k < trees.length →
      ∃ tree sharing' given rest, trees[k]? = some tree ∧
        (sharing.turns schedule)[k]? = some (.ok tree, sharing') ∧ left = given ++ rest ∧
        Statements maxDepth.toNat given (trees.take (k + 1)) ∧
        sharing'.Between maxDepth total rest := by
  induction htrees with
  | nil => intro _ _ _ _ _ hk; exact absurd hk (Nat.not_lt_zero _)
  | @cons items rest semicolon tree trees htree hsemi hrest ih =>
      intro sharing h schedule k hschedule hk
      obtain ⟨who, schedule, rfl⟩ := List.exists_cons_of_length_pos (by omega : 0 < schedule.length)
      obtain ⟨sharing', hturn, h'⟩ := h.turn htree hsemi who
      simp only [Sharing.turns, hturn]
      cases k with
      | zero =>
          refine ⟨tree, sharing', items ++ [semicolon], rest, rfl, rfl, by simp, ?_, h'⟩
          exact .cons htree hsemi .nil
      | succ k =>
          simp only [List.length_cons] at hschedule hk
          obtain ⟨tree', sharing₂, given, rest₂, hget, hturns, rfl, hgiven, h₂⟩ :=
            ih h' schedule k (by omega) (by omega)
          refine ⟨tree', sharing₂, items ++ semicolon :: given, rest₂, hget, hturns, by simp, ?_,
            h₂⟩
          exact .cons htree hsemi hgiven

/-- **Parsers can share a lexer.** Where one parser reads a program, any parsers with the same limit
    that take turns on a lexer of the source read its statements in order, whoever takes which turn.
    Behind every turn all buffers are empty and no level is open, and the lexer has given the tokens
    of the statements that have been read, and is left with the others. -/
theorem turns_of_parseSource {limits : Limits} {maxBytes maxDepth : Option Int} {source : Text}
    {program : Program} (h : parseSource limits maxBytes maxDepth source = .ok program)
    (schedule : List ι) (hschedule : schedule.length ≤ program.statements.length) :
    ∃ tokens, lexSource source = .ok tokens ∧ ∀ k < schedule.length,
      ∃ tree sharing given rest, program.statements[k]? = some tree ∧
        ((start limits maxDepth source).turns schedule)[k]? = some (.ok tree, sharing) ∧
        (∀ who, (sharing.parsers who).lookahead = [] ∧ (sharing.parsers who).depth = 0) ∧
        tokens = given ++ rest ∧
        Statements (maxDepth.getD limits.maxDepth).toNat given
          (program.statements.take (k + 1)) ∧
        sharing.lexer.emitted = given.length ∧ sharing.lexer.drain.1 = (rest, none) := by
  obtain ⟨tokens, hscans, htrees⟩ := statements_of_parseSource_eq_ok h
  refine ⟨tokens, lexSource_eq_ok_iff.2 hscans, fun k hk => ?_⟩
  have hstart : (start limits maxDepth source : Sharing ι).Between (maxDepth.getD limits.maxDepth)
      tokens.length tokens :=
    ⟨fun _ => rfl, .scanning rfl hscans, by simp [start, Lexer.start]⟩
  obtain ⟨tree, sharing, given, rest, htree, hturn, hsplit, hgiven, hbetween⟩ :=
    Between.turns htrees hstart schedule k hk (Nat.lt_of_lt_of_le hk hschedule)
  subst hsplit
  have hemitted := hbetween.given
  rw [List.length_append] at hemitted
  obtain ⟨hrest, hending⟩ := hbetween.yields.drain
  exact ⟨tree, sharing, given, rest, htree, hturn,
    fun who => by rw [hbetween.parsers]; exact ⟨rfl, rfl⟩, rfl, hgiven, by omega,
    Prod.ext hrest hending⟩

/-- The second parser finds an assignment behind the name that the first one has looked beyond. -/
theorem turns_name_then_assignment :
    ∃ sharing, ((start {} none "x;y=z;1;".toList).turns [true, false, true])[1]? =
        some (.ok (.assign ⟨2, 5⟩ (.text ['y']) (.var ⟨4, 5⟩ (.text ['z']))),
          sharing) ∧
      (sharing.parsers true).lookahead = [] ∧ (sharing.parsers false).lookahead = [] := by
  have hrun : parseSource {} none none "x;y=z;1;".toList =
      .ok ⟨[.var ⟨0, 1⟩ (.text ['x']),
        .assign ⟨2, 5⟩ (.text ['y']) (.var ⟨4, 5⟩ (.text ['z'])),
        .literal ⟨6, 7⟩ (.integer 1)]⟩ := by decide +kernel
  obtain ⟨tokens, -, hturns⟩ := turns_of_parseSource hrun [true, false, true] (by decide)
  obtain ⟨tree, sharing, given, rest, htree, hturn, hempty, -⟩ := hturns 1 (by decide)
  obtain rfl := Option.some.inj htree
  exact ⟨sharing, hturn, (hempty true).1, (hempty false).1⟩

end Sharing

end ScriptFront
