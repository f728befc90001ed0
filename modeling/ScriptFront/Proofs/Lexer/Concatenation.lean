import ScriptFront.Proofs.Lexer.Writing
import ScriptFront.Proofs.Relabelling

set_option autoImplicit false

/-! # Sources that are put together

A newline ends every lexeme that could go on behind it but a run of blanks and a block comment, and
a run of blanks gives no token. So a source and another one behind a newline are scanned one after
the other (`Scans.append_line`): the tokens of the first are followed by those of the second, which
only stand further to the right. An error of the first source stays the same, unless it is a
comment that is left open, which may be closed in the second one. -/

namespace ScriptFront

open Utf8

/-! ## Lexemes before a newline -/

theorem blockOpen_prefix_of_newline {input more : Text}
    (h : blockOpen <+: input ++ '\n' :: more) : blockOpen <+: input := by
  have hopen : ['/', '*'] <+: input ++ '\n' :: more := h
  show ['/', '*'] <+: input
  rcases input with _ | ⟨c, _ | ⟨d, input⟩⟩
  · simp at hopen
  · simp at hopen
  · simpa using hopen

namespace Munches

variable {input text more : Text} {rule : Rule}

/-- What is taken from a text that begins neither with a blank nor with a block comment stays the
    same when a newline and more text are put behind. -/
theorem before_newline (h : Munches input rule text)
    (hblank : ∀ c, input.head? = some c → ¬ isBlank c) (hopen : ¬ blockOpen <+: input) :
    Munches (input ++ '\n' :: more) rule text := by
  refine ⟨h.begins.trans (List.prefix_append ..), h.described, ?_, h.earliest⟩
  intro other hmem text' hbegins hmatches
  refine h.longest other hmem text' ?_ hmatches
  refine (List.prefix_or_prefix_of_prefix hbegins (List.prefix_append ..)).elim id ?_
  rintro ⟨beyond, rfl⟩
  cases beyond with
  | nil => exact ⟨[], by simp⟩
  | cons c beyond =>
      -- a text that goes over the newline is a run of blanks or a block comment
      obtain ⟨rfl, -⟩ := List.cons_prefix_cons.1 ((List.prefix_append_right_inj input).1 hbegins)
      rcases Rule.of_newline hmem hmatches (by simp) with rfl | rfl
      · obtain ⟨c, others, rfl⟩ : ∃ c others, input = c :: others :=
          List.exists_cons_of_ne_nil fun hnil => h.described.ne_nil (by simpa [hnil] using h.begins)
        exact absurd (hmatches.2 c (by simp)) (hblank c rfl)
      · obtain ⟨body, heq, -⟩ := hmatches
        have hbegins' : blockOpen <+: input ++ '\n' :: beyond := ⟨body ++ blockClose, by
          rw [heq, List.append_assoc]⟩
        exact absurd (blockOpen_prefix_of_newline hbegins') hopen

end Munches

/-! ## Scanning on behind a newline -/

namespace Cursor

/-- The same place with more text at the end. -/
def followedBy (cursor : Cursor) (more : Text) : Cursor :=
  { cursor with rest := cursor.rest ++ more }

/-- The place behind all that is unread and a newline. -/
def onNextLine (cursor : Cursor) (more : Text) : Cursor :=
  (cursor.followedBy ('\n' :: more)).advance (cursor.rest ++ ['\n'])

variable {cursor : Cursor} {text : Text}

theorem advance_followedBy (h : text <+: cursor.rest) (more : Text) :
    (cursor.followedBy more).advance text = (cursor.advance text).followedBy more := by
  simp [followedBy, advance, List.drop_append_of_le_length h.length_le]

theorem advance_onNextLine (h : text <+: cursor.rest) (more : Text) :
    (cursor.advance text).onNextLine more = cursor.onNextLine more := by
  obtain ⟨rest, hrest⟩ := h
  rw [onNextLine, ← advance_followedBy ⟨rest, hrest⟩, ← advance_append,
    rest_advance hrest.symm, ← List.append_assoc, hrest, onNextLine]

end Cursor

theorem takeWhile_before_newline (text more : Text) :
    (text ++ '\n' :: more).takeWhile (· ≠ '\n') = text.takeWhile (· ≠ '\n') := by
  induction text with
  | nil => rfl
  | cons c text ih => simp only [List.cons_append, List.takeWhile_cons, ih]

/-- An error stays the same when a newline and more text are put behind, unless a comment is left
    open. -/
theorem FaultAt.before_newline {offset : Nat} {rest more : Text} {error : LexError}
    (h : FaultAt offset rest error) (hfault : error.fault ≠ .unterminatedComment) :
    FaultAt offset (rest ++ '\n' :: more) error := by
  cases h with
  | @integerOverflow digits after hdigits hafter hover =>
      rw [List.append_assoc]
      refine .integerOverflow hdigits (fun c hc => ?_) hover
      cases after with
      | nil => obtain rfl := Option.some.inj hc; decide
      | cons d after => exact hafter c hc
  | unterminatedComment => exact absurd rfl hfault
  | @unexpectedCharacter c after hblank hpart hsymbol hquote =>
      refine .unexpectedCharacter hblank hpart hsymbol fun hc => ?_
      show doubleQuote ∉ (after ++ '\n' :: more).takeWhile (· ≠ '\n')
      rw [takeWhile_before_newline]
      exact hquote hc

/-- How a scan goes on when a newline and more text are put behind what is scanned: on the next
    line if there was no error, and not at all behind an error that stays the same. -/
inductive GoesOn (nextLine : Cursor) : Option LexError → List Item → Option LexError → Prop
  | onNextLine {items : List Item} {ending : Option LexError} :
      Scans nextLine items ending → GoesOn nextLine none items ending
  | error {error : LexError} : error.fault ≠ .unterminatedComment →
      GoesOn nextLine (some error) [] (some error)

namespace Scans

variable {cursor : Cursor} {items items' : List Item} {ending ending' : Option LexError}

/-- A token is the same when a newline and more text are put behind. -/
theorem token_before_newline {kind : TokenKind} {text : Text}
    (h : Lexer.lexemeAt cursor = .ok (.token kind, text)) (more : Text) :
    Lexer.lexemeAt (cursor.followedBy ('\n' :: more)) = .ok (.token kind, text) := by
  have hopen : ¬ blockOpen <+: cursor.rest := fun hopen =>
    absurd (Lexer.comment_of_blockOpen h hopen) (by simp)
  obtain ⟨rule, hrule, hmunches⟩ := Lexer.munches_of_lexemeAt h
  have hblank : ∀ c, cursor.rest.head? = some c → ¬ isBlank c := by
    intro c hc hblank
    obtain ⟨d, others, rfl⟩ := List.exists_cons_of_ne_nil hmunches.described.ne_nil
    obtain ⟨rest, hrest⟩ := hmunches.begins
    obtain rfl : d = c := by simpa [← hrest] using hc
    obtain rfl := Rule.of_blank hmunches.mem hmunches.described hblank
    exact absurd hrule (by simp)
  rw [← hrule]
  exact Lexer.lexemeAt_of_munches (hmunches.before_newline hblank hopen) fun hopen' =>
    absurd (blockOpen_prefix_of_newline hopen') hopen

/-- What is skipped is skipped when a newline and more text are put behind. -/
theorem skip_before_newline {kind : LexemeKind} {text more : Text}
    (hlexeme : Lexer.lexemeAt cursor = .ok (kind, text)) (hkind : kind ∈ LexemeKind.skipped)
    (h : Scans ((cursor.advance text).followedBy ('\n' :: more)) items ending) :
    Scans (cursor.followedBy ('\n' :: more)) items ending := by
  obtain ⟨rule, rfl, hmunches⟩ := Lexer.munches_of_lexemeAt hlexeme
  rw [← Cursor.advance_followedBy hmunches.begins] at h
  obtain ⟨rest, hrest⟩ := hmunches.begins
  have hcursor : (cursor.followedBy ('\n' :: more)).rest = text ++ (rest ++ '\n' :: more) := by
    rw [← List.append_assoc, hrest]
    rfl
  rcases Rule.mem_table hmunches.mem with rfl | rfl | rfl | rfl | rfl | rfl | ⟨entry, -, rfl⟩
  · have hgap : Trivia (text ++ []) := .blanks hmunches.described.2 .nil
    rw [List.append_nil] at hgap
    exact h.skip_trivia hgap hcursor
  · exact h.skip_blockComment hmunches.described hcursor
  · rw [← hrest] at hmunches
    obtain ⟨others, hothers⟩ : ∃ others, rest ++ '\n' :: more = '\n' :: others := by
      cases rest with
      | nil => exact ⟨more, rfl⟩
      | cons c rest => obtain rfl := hmunches.lineComment_end c rfl; exact ⟨_, rfl⟩
    rw [hothers] at hcursor
    exact h.skip_lineComment hmunches.described hcursor
  all_goals exact absurd hkind (by simp [LexemeKind.skipped, Rule.ofWord])

/-- A text is scanned as before when a newline and more text are put behind, and then the scan goes
    on. -/
theorem before_newline (h : Scans cursor items ending) {more : Text}
    (hmore : GoesOn (cursor.onNextLine more) ending items' ending') :
    Scans (cursor.followedBy ('\n' :: more)) (items ++ items') ending' := by
  induction h with
  | @atEnd cursor hrest =>
      cases hmore with
      | onNextLine hscans =>
          have hcursor : (cursor.followedBy ('\n' :: more)).rest = '\n' :: more := by
            simp [Cursor.followedBy, hrest]
          rw [Cursor.onNextLine, hrest] at hscans
          exact hscans.cons_blank (by decide) hcursor
  | @skipped cursor kind text items ending hlexeme hkind _ ih =>
      obtain ⟨_, -, hmunches⟩ := Lexer.munches_of_lexemeAt hlexeme
      rw [← Cursor.advance_onNextLine hmunches.begins] at hmore
      exact (ih hmore).skip_before_newline hlexeme hkind
  | @token cursor kind text token items ending hlexeme hspells _ ih =>
      obtain ⟨_, -, hmunches⟩ := Lexer.munches_of_lexemeAt hlexeme
      rw [← Cursor.advance_onNextLine hmunches.begins] at hmore
      have hrest := ih hmore
      rw [← Cursor.advance_followedBy hmunches.begins] at hrest
      exact .token (token_before_newline hlexeme more) hspells hrest
  | @outOfRange cursor text hlexeme hdigits hover =>
      cases hmore with
      | error hfault =>
          exact ((Lexer.faultAt_of_overflow hlexeme hdigits hover).before_newline hfault).scans
  | @noLexeme cursor error hrest hlexeme =>
      cases hmore with
      | error hfault =>
          exact ((Lexer.faultAt_of_lexemeAt hrest hlexeme).before_newline hfault).scans

end Scans

/-! ## Scanning further to the right -/

namespace Cursor

/-- The same text in another place of a source. -/
def moved (cursor : Cursor) (characters bytes : Nat) : Cursor :=
  ⟨cursor.rest, cursor.position + characters, cursor.offset + bytes⟩

variable (cursor : Cursor) (characters bytes : Nat) (text : Text)

theorem rest_moved : (cursor.moved characters bytes).rest = cursor.rest := rfl

theorem startsWith_moved : (cursor.moved characters bytes).startsWith text =
    cursor.startsWith text := rfl

theorem current?_moved : (cursor.moved characters bytes).current? = cursor.current? := rfl

theorem advance_moved : (cursor.moved characters bytes).advance text =
    (cursor.advance text).moved characters bytes := by
  simp only [moved, advance, Cursor.mk.injEq, true_and]
  omega

theorem spanOf_moved : (cursor.moved characters bytes).spanOf text =
    (Relabelling.shift bytes).span (cursor.spanOf text) := by
  simp only [moved, spanOf, Relabelling.shift, Relabelling.span, Span.mk.injEq]
  omega

theorem onNextLine_start (first second : Text) : (start first).onNextLine second =
    (start second).moved (first.length + 1) (size first + 1) := by
  have hnewline : '\n'.utf8Size = 1 := rfl
  simp [onNextLine, followedBy, advance, start, moved, hnewline]

end Cursor

theorem Lexer.lexemeAt_moved (cursor : Cursor) (characters bytes : Nat) :
    lexemeAt (cursor.moved characters bytes) =
      (lexemeAt cursor).mapError (Relabelling.shift bytes).lexError := by
  simp only [lexemeAt, Cursor.remainingSpan, Cursor.spanOf_moved, Cursor.rest_moved,
    Cursor.startsWith_moved, Cursor.current?_moved]
  by_cases hopen : cursor.startsWith blockOpen = true ∧
      (Rule.select cursor.rest).map (·.1.kind) ≠ some .comment
  · rw [if_pos hopen, if_pos hopen]
    rfl
  · rw [if_neg hopen, if_neg hopen]
    cases Rule.select cursor.rest <;> rfl

/-- The same text is scanned alike wherever it stands. -/
theorem Scans.moved {cursor : Cursor} {items : List Item} {ending : Option LexError}
    (h : Scans cursor items ending) (characters bytes : Nat) :
    Scans (cursor.moved characters bytes) (items.map (Relabelling.shift bytes).item)
      (ending.map (Relabelling.shift bytes).lexError) := by
  have hlexeme {cursor : Cursor} {found : LexemeKind × Text}
      (h : Lexer.lexemeAt cursor = .ok found) :
      Lexer.lexemeAt (cursor.moved characters bytes) = .ok found := by
    rw [Lexer.lexemeAt_moved, h]
    rfl
  induction h with
  | atEnd hrest => exact .atEnd hrest
  | skipped h hkind _ ih =>
      rw [← Cursor.advance_moved] at ih
      exact .skipped (hlexeme h) hkind ih
  | token h hspells _ ih =>
      rw [← Cursor.advance_moved] at ih
      rw [List.map_cons, Relabelling.item, Relabelling.token_shift, ← Cursor.spanOf_moved]
      exact .token (hlexeme h) hspells ih
  | outOfRange h hdigits hover =>
      rw [Option.map_some, Relabelling.lexError, Option.map_some, ← Cursor.spanOf_moved]
      exact .outOfRange (hlexeme h) hdigits hover
  | noLexeme hrest h => exact .noLexeme hrest (by rw [Lexer.lexemeAt_moved, h]; rfl)

/-! ## Whole sources -/

/-- Behind a source without lexical errors a newline and another source are scanned like this
    source, further to the right. -/
theorem Scans.append_line {first second : Text} {items items' : List Item}
    {ending : Option LexError} (h : Scans (Cursor.start first) items none)
    (h' : Scans (Cursor.start second) items' ending) :
    Scans (Cursor.start (first ++ '\n' :: second))
      (items ++ items'.map (Relabelling.shift (size first + 1)).item)
      (ending.map (Relabelling.shift (size first + 1)).lexError) := by
  refine h.before_newline (.onNextLine ?_)
  rw [Cursor.onNextLine_start]
  exact h'.moved ..

/-- **Lexing is compositional at newlines.** Behind a source that is tokenized, a newline and
    another source give the tokens of this one, and the error that ends them, if one does, as many
    bytes further to the right as stand before it. A source that is ended by an integer out of range
    or by an unexpected character gives the same tokens and the same error whatever stands behind
    it. -/
theorem drain_append_line (limits : Limits) (maxBytes : Option Int) (first second : Text) :
    (∀ items, tokenize limits maxBytes first = .ok items →
      (Lexer.start (first ++ '\n' :: second)).drain.1 =
        (items ++ (Lexer.start second).drain.1.1.map (Relabelling.shift (size first + 1)).item,
          (Lexer.start second).drain.1.2.map (Relabelling.shift (size first + 1)).lexError)) ∧
    ∀ items error, (Lexer.start first).drain.1 = (items, some error) →
      error.fault = .integerOverflow ∨ error.fault = .unexpectedCharacter →
      (Lexer.start (first ++ '\n' :: second)).drain.1 = (items, some error) := by
  constructor
  · intro items h
    obtain ⟨-, hfirst⟩ := tokenize_eq_ok_iff.1 h
    exact Lexer.drain_eq_of_scans (hfirst.append_line (Lexer.drain_scans (Lexer.start second) rfl))
  · intro items error h hfault
    have hfirst := Lexer.drain_scans (Lexer.start first) rfl
    rw [h] at hfirst
    have hscans : Scans (Cursor.start (first ++ '\n' :: second)) (items ++ []) (some error) :=
      hfirst.before_newline (.error fun hopen => by simp [hopen] at hfault)
    rw [List.append_nil] at hscans
    exact Lexer.drain_eq_of_scans hscans

/-- A line comment ends before the newline and a block comment is left open behind it; a quote
    finds no other one on its line. -/
theorem drain_append_line_comment :
    (Lexer.start "\"é\" // x\n1 /*".toList).drain.1 =
      ([⟨⟨.string, .text ['é']⟩, ⟨0, 4⟩⟩, ⟨⟨.integer, .integer 1⟩, ⟨10, 11⟩⟩],
        some ⟨.unterminatedComment, "/*".toList, some ⟨12, 14⟩⟩) ∧
    (Lexer.start "\"\n\"".toList).drain.1 =
      ([], some ⟨.unexpectedCharacter, ['"'], some ⟨0, 1⟩⟩) := by
  have hfirst : tokenize {} none "\"é\" // x".toList =
      .ok [⟨⟨.string, .text ['é']⟩, ⟨0, 4⟩⟩] := by rfl
  have hquote : (Lexer.start "\"".toList).drain.1 =
      ([], some ⟨.unexpectedCharacter, ['"'], some ⟨0, 1⟩⟩) := by rfl
  exact ⟨(drain_append_line {} none "\"é\" // x".toList "1 /*".toList).1 _ hfirst,
    (drain_append_line {} none ['"'] ['"']).2 _ _ hquote (.inr rfl)⟩

end ScriptFront
