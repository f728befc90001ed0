import ScriptFront.Proofs.Lexer.Interruption
import ScriptFront.Proofs.Parser.Laziness

set_option autoImplicit false

/-! # What a source comes to

The parser over a lexer answers with the program that the tokens of the source derive, and then no
error ends them; or it reports the lexical error that ends them, or it blames one of them, or their
end, rightly (`Explains`). -/

namespace ScriptFront

open Grammar Run Parse

/-- The lexical error is the one that ends the tokens, and the syntax error blames them rightly. -/
def Explains (tokens : List Item) (ending : Option LexError) (limit : Nat) :
    SourceError → Prop
  | .lexical error => ending = some error
  | .syntactic error => Blames tokens limit error

/-- What the parser over the lexer of a source answers, and what its errors say. -/
theorem program_start_reads (limits : Limits) (maxDepth : Option Int) (source : Text) :
    Ensures
      (fun program _ => (Lexer.start source).drain.1.2 = none ∧
        Statements (maxDepth.getD limits.maxDepth).toNat
          ((Lexer.start source).drain.1.1) program.statements)
      (Explains (Lexer.start source).drain.1.1 (Lexer.start source).drain.1.2
        (maxDepth.getD limits.maxDepth).toNat)
      (program (Parser.build limits maxDepth (Lexer.start source))) := by
  have hfollows := program_start_follows limits maxDepth source
  have hreads := Unbuffered.program_reads ((Lexer.start source).drain.1.1)
    (maxDepth.getD limits.maxDepth)
  revert hfollows hreads
  generalize program (Parser.build limits maxDepth (Lexer.start source)) = run
  generalize program (σ := Unbuffered) _ = plainRun
  intro hfollows hreads
  cases run with
  | ok value parser =>
      cases plainRun with
      | error => exact hfollows.elim
      | ok value' plain =>
          obtain ⟨rfl, hend⟩ := hfollows
          exact ⟨hend, hreads⟩
  | error error parser =>
      cases error with
      | lexical lexical => exact hfollows.1
      | syntactic error =>
          cases plainRun with
          | ok => exact hfollows.elim
          | error error' plain =>
              obtain ⟨rfl, -⟩ := hfollows
              obtain ⟨complaint, hcomplaint, hblames⟩ := hreads
              obtain rfl := SourceError.syntactic.inj hcomplaint
              exact hblames

/-- What reading a source comes to, unless the source is refused. -/
theorem parseSource_reads (limits : Limits) (maxBytes maxDepth : Option Int) (source : Text) :
    match parseSource limits maxBytes maxDepth source with
    | .ok program => ∃ tokens, Scans (Cursor.start source) tokens none ∧
        Statements (maxDepth.getD limits.maxDepth).toNat (tokens)
          program.statements
    | .error (.source error) => ∃ tokens ending, Scans (Cursor.start source) tokens ending ∧
        Explains tokens ending (maxDepth.getD limits.maxDepth).toNat error
    | .error _ => True := by
  have hscans := Lexer.drain_scans (Lexer.start source) rfl
  have hreads := program_start_reads limits maxDepth source
  unfold parseSource
  cases hlexer : Lexer.build limits maxBytes source with
  | error reason => trivial
  | ok lexer =>
      obtain rfl := Lexer.build_eq_ok hlexer
      simp only
      cases hrun : Parse.program (Parser.build limits maxDepth (Lexer.start source)) with
      | ok program parser =>
          rw [hrun] at hreads
          rw [hreads.1] at hscans
          exact ⟨_, hscans, hreads.2⟩
      | error error parser =>
          rw [hrun] at hreads
          exact ⟨_, _, hscans, hreads⟩

section Outcomes

variable {limits : Limits} {maxBytes maxDepth : Option Int} {source : Text}

/-- A program that is read from a source is one that its tokens derive. -/
theorem statements_of_parseSource_eq_ok {program : Program}
    (h : parseSource limits maxBytes maxDepth source = .ok program) :
    ∃ tokens, Scans (Cursor.start source) tokens none ∧
      Statements (maxDepth.getD limits.maxDepth).toNat (tokens)
        program.statements := by
  have hreads := parseSource_reads limits maxBytes maxDepth source
  rw [h] at hreads
  exact hreads

/-- An error that a source is rejected with says the truth about its tokens. -/
theorem explains_of_parseSource_eq_error {error : SourceError}
    (h : parseSource limits maxBytes maxDepth source = .error (.source error)) :
    ∃ tokens ending, Scans (Cursor.start source) tokens ending ∧
      Explains tokens ending (maxDepth.getD limits.maxDepth).toNat error := by
  have hreads := parseSource_reads limits maxBytes maxDepth source
  rw [h] at hreads
  exact hreads

end Outcomes

end ScriptFront
