import Mathlib.Data.Set.Subsingleton
import ScriptFront.Proofs.Parser.Buffering
import ScriptFront.Proofs.Parser.Completeness

set_option autoImplicit false

/-! # What the parser accepts and what it complains of

The parser over prepared items gives exactly the programs of the grammar, with the only trees that
the grammar has for them, and blames every other input rightly. -/

namespace ScriptFront

open Grammar

/-- The grammar is unambiguous: the parser, which has one answer, finds every derivation. -/
theorem Grammar.Statements.unique {depth depth' : Nat} {items : List Item}
    {trees trees' : List Expr} (h : Statements depth items trees)
    (h' : Statements depth' items trees') : trees = trees' := by
  have hdepth : (max depth depth' : Int).toNat = max depth depth' := by omega
  have hmax := h.mono (Nat.le_max_left depth depth')
  have hmax' := h'.mono (Nat.le_max_right depth depth')
  rw [← hdepth] at hmax hmax'
  have hread := Unbuffered.program_complete hmax
  rw [Unbuffered.program_complete hmax', EStateM.Result.ok.injEq] at hread
  exact (Program.mk.inj hread.1).symm

/-- Prepared items give a program exactly if the grammar derives them within the depth, and it is
    the one they derive; there is no other that they derive, within whatever depth. -/
theorem parseFeed_eq_ok_iff_statements (limits : Limits) (items : List Item) (maxDepth : Int) :
    (∀ program, parseFeed limits (some maxDepth) (Feed.ofItems items) = .ok program ↔
      Statements maxDepth.toNat items program.statements) ∧
    {trees | ∃ depth, Statements depth items trees}.Subsingleton := by
  refine ⟨fun program => ?_, ?_⟩
  · rw [parseFeed_ofItems]
    constructor
    · intro h
      have hreads := Unbuffered.program_reads items maxDepth
      cases hrun : Parse.program { items, maxDepth : Unbuffered } with
      | ok answer s =>
          rw [hrun] at h hreads
          obtain rfl : answer = program := Except.ok.inj h
          exact hreads
      | error error s =>
          rw [hrun] at h
          exact absurd h (by simp [Parse.answer])
    · intro h
      rw [Unbuffered.program_complete h]
      rfl
  · intro trees htrees trees' htrees'
    obtain ⟨depth, htrees⟩ := htrees
    obtain ⟨depth', htrees'⟩ := htrees'
    exact htrees.unique htrees'

/-- Prepared items that give no program are complained of, and the complaint says the truth about
    them: the first item that cannot go on the program is blamed, or the end of the input if there
    is no such item, the beginning of a false target, or an `assign` that begins too deep. -/
theorem blames_of_parseFeed_eq_error {limits : Limits} {items : List Item} {maxDepth : Int}
    {error : SourceError}
    (h : parseFeed limits (some maxDepth) (Feed.ofItems items) = .error error) :
    ∃ complaint, error = .syntactic complaint ∧ Blames items maxDepth.toNat complaint := by
  rw [parseFeed_ofItems] at h
  have hreads := Unbuffered.program_reads items maxDepth
  cases hrun : Parse.program { items, maxDepth : Unbuffered } with
  | ok program s =>
      rw [hrun] at h
      exact absurd h (by simp [Parse.answer])
  | error error' s =>
      rw [hrun] at h hreads
      obtain rfl : error' = error := Except.error.inj h
      exact hreads

/-- In `x+1=2` the `=` cannot stand where it does, and the name before it is blamed. -/
theorem blames_sum_before_equals :
    ∃ complaint, SourceError.syntactic ⟨some ⟨.identifier, .text ['x']⟩, some ⟨0, 1⟩, .badTarget⟩ =
      .syntactic complaint ∧
      Blames [⟨⟨.identifier, .text ['x']⟩, ⟨0, 1⟩⟩, ⟨⟨.plus, .none⟩, ⟨1, 2⟩⟩,
        ⟨⟨.integer, .integer 1⟩, ⟨2, 3⟩⟩, ⟨⟨.equals, .none⟩, ⟨3, 4⟩⟩,
        ⟨⟨.integer, .integer 2⟩, ⟨4, 5⟩⟩] (Int.toNat 100) complaint := by
  have hrun : parseFeed {} (some 100) (Feed.ofItems [⟨⟨.identifier, .text ['x']⟩, ⟨0, 1⟩⟩,
      ⟨⟨.plus, .none⟩, ⟨1, 2⟩⟩, ⟨⟨.integer, .integer 1⟩, ⟨2, 3⟩⟩,
      ⟨⟨.equals, .none⟩, ⟨3, 4⟩⟩, ⟨⟨.integer, .integer 2⟩, ⟨4, 5⟩⟩]) =
      .error (.syntactic ⟨some ⟨.identifier, .text ['x']⟩, some ⟨0, 1⟩, .badTarget⟩) := by
    rfl
  exact blames_of_parseFeed_eq_error hrun

/-- What the plain machine answers is right: the program is one that the grammar derives, and the
    error blames the items rightly. -/
theorem Unbuffered.answer_reads (items : List Item) (maxDepth : Int) :
    match Parse.answer (Parse.program { items, maxDepth : Unbuffered }) with
    | .ok program => Statements maxDepth.toNat items program.statements
    | .error error => ∃ complaint, error = .syntactic complaint ∧
        Blames items maxDepth.toNat complaint := by
  have hreads := Unbuffered.program_reads items maxDepth
  cases hrun : Parse.program { items, maxDepth : Unbuffered } with
  | ok program state => rw [hrun] at hreads; exact hreads
  | error error state => rw [hrun] at hreads; exact hreads

end ScriptFront
