import ScriptFront.Proofs.Lexer.Writing
import ScriptFront.Proofs.Lexer.Yield

set_option autoImplicit false

/-! # Where tokens end with an error

A source with a lexical error consists of the tokens that were given before the error, of the gaps
around them, and of a text that is at fault (`Interrupted`). In the other direction, a lexer that
comes to a fault behind a gap reports it. -/

namespace ScriptFront

open Utf8

/-- The source splits into a text that is made up of the tokens and of gaps, and a rest in which
    there is a fault at once. The error says what it is and where, and no other error fits. -/
structure Interrupted (source : Text) (items : List Item) (error : LexError)
    (before rest : Text) : Prop where
  splits : source = before ++ rest
  paved : Paved 0 before items
  starts : error.span.map Span.lo = some (size before : Int)
  fault : FaultAt (size before) rest error
  only : ∀ other, FaultAt (size before) rest other → other = error

/-- A source whose scan ends with an error is interrupted there. -/
theorem Scans.interrupted {source : Text} {items : List Item} {error : LexError}
    (h : Scans (Cursor.start source) items (some error)) :
    ∃ before rest, Interrupted source items error before rest := by
  have hlaid : LaidUntil (Ends (some error)) 0 source items := h.laidUntil
  obtain ⟨before, rest, hsplits, hpaved, hend⟩ := hlaid.split
  rw [Nat.zero_add] at hend
  have hfault : FaultAt (size before) rest error := hend
  obtain ⟨c, others, after, -, -, hspan⟩ := hfault.covered
  exact ⟨before, rest, hsplits, hpaved, by rw [hspan]; rfl, hfault,
    fun other hother => hother.unique hfault⟩

/-- The error of a source that is not tokenized ends the scan of it. -/
theorem scans_of_tokenize_eq_error {limits : Limits} {maxBytes : Option Int} {source : Text}
    {error : LexError} (h : tokenize limits maxBytes source = .error (.source (.lexical error))) :
    Scans (Cursor.start source) (Lexer.start source).drain.1.1 (some error) := by
  have hscans := Lexer.drain_scans (Lexer.start source) rfl
  unfold tokenize lexSource at h
  split at h
  · exact absurd h (by simp)
  · rcases hdrain : (Lexer.start source).drain with ⟨⟨items, ending⟩, lexer⟩
    rw [hdrain] at h hscans
    cases ending with
    | none => exact absurd h (by simp)
    | some other =>
        obtain rfl : other = error := by simpa using h
        exact hscans

namespace Lexer

variable {lexer : Lexer} {error : LexError}

/-- A lexer reports an error exactly if it comes to a fault behind a gap. -/
theorem nextToken_eq_error_iff (hdone : lexer.done = false) :
    (∃ lexer', lexer.nextToken = .error error lexer') ↔ ∃ gap rest,
      lexer.cursor.rest = gap ++ rest ∧ Trivia gap ∧
        FaultAt (lexer.cursor.offset + size gap) rest error := by
  constructor
  · rintro ⟨lexer', hrun⟩
    have hnext := nextToken_scans hdone (drain_scans lexer hdone)
    rw [hrun] at hnext
    have hscans := drain_scans lexer hdone
    rw [hnext.1, hnext.2] at hscans
    -- with no token given, what is laid out before the fault is one gap
    obtain ⟨before, rest, hsplit, hpaved, hend⟩ := hscans.laidUntil.split
    cases hpaved with
    | last hgap hnil =>
        rw [hnil, List.append_nil] at hsplit hend
        exact ⟨_, rest, hsplit, hgap, hend⟩
  · rintro ⟨gap, rest, hcursor, hgap, hfault⟩
    have hfault' : FaultAt (lexer.cursor.advance gap).offset (lexer.cursor.advance gap).rest
        error := by
      rw [Cursor.rest_advance hcursor]
      exact hfault
    have hscans := hfault'.scans.skip_trivia hgap hcursor
    have hnext := nextToken_scans hdone hscans
    cases hrun : lexer.nextToken with
    | ok item lexer' =>
        rw [hrun] at hnext
        exact absurd (hnext.2.2 rfl) (by simp)
    | error error' lexer' =>
        rw [hrun] at hnext
        obtain rfl := Option.some.inj hnext.2
        exact ⟨lexer', rfl⟩

end Lexer

/-- **A lexical error is reported exactly.** The source splits at the error into the tokens that
    were given, with gaps around them, and a text at fault; and a lexer that has not stopped reports
    an error whenever, and only if, it comes to a fault behind a gap. -/
theorem interrupted_of_tokenize_eq_error :
    (∀ (limits : Limits) (maxBytes : Option Int) (source : Text) (error : LexError),
      tokenize limits maxBytes source = .error (.source (.lexical error)) →
      ∃ before rest, Interrupted source (Lexer.start source).drain.1.1 error before rest) ∧
    ∀ (lexer : Lexer) (error : LexError), lexer.done = false →
      ((∃ lexer', lexer.nextToken = .error error lexer') ↔ ∃ gap rest,
        lexer.cursor.rest = gap ++ rest ∧ Trivia gap ∧
          FaultAt (lexer.cursor.offset + size gap) rest error) :=
  ⟨fun _ _ _ _ h => (scans_of_tokenize_eq_error h).interrupted,
    fun _ _ hdone => Lexer.nextToken_eq_error_iff hdone⟩

/-- An integer above the range behind a comment, and a quote that nothing closes on its line. -/
theorem interrupted_by_integer :
    (∃ before rest, Interrupted "n = /*é*/ 2147483648;".toList
      [⟨⟨.identifier, .text ['n']⟩, ⟨0, 1⟩⟩, ⟨⟨.equals, .none⟩, ⟨2, 3⟩⟩]
      ⟨.integerOverflow, "2147483648".toList, some ⟨11, 21⟩⟩ before rest) ∧
    ∃ lexer', (Lexer.start "//\n\"a\n\"".toList).nextToken =
      .error ⟨.unexpectedCharacter, ['"'], some ⟨3, 4⟩⟩ lexer' := by
  have hrun : tokenize {} none "n = /*é*/ 2147483648;".toList = .error (.source (.lexical
      ⟨.integerOverflow, "2147483648".toList, some ⟨11, 21⟩⟩)) := by rfl
  have hgap : Trivia "//\n".toList := @Trivia.lineComment "//".toList [] ⟨[], rfl, by simp⟩ .nil
  have hquote : FaultAt 3 "\"a\n\"".toList ⟨.unexpectedCharacter, ['"'], some ⟨3, 4⟩⟩ :=
    .unexpectedCharacter (by decide) (by decide) (by decide) (by decide)
  exact ⟨interrupted_of_tokenize_eq_error.1 {} none _ _ hrun,
    (interrupted_of_tokenize_eq_error.2 (Lexer.start "//\n\"a\n\"".toList) _ rfl).2
      ⟨_, _, rfl, hgap, hquote⟩⟩

end ScriptFront
