import ScriptFront.Proofs.Lexer.Scan

set_option autoImplicit false

/-! # Lexical faults

There are three ways in which no token can be read at a place, and each of them shows in the text
there (`FaultAt`): a run of digits with too great a value, a block comment that is never closed, and
a character that begins no lexeme. The lexer stops at a place exactly if one of them is met there,
and its error says which. -/

namespace ScriptFront

open Utf8

/-- What is wrong with the unread text at an offset, and the error that says so. -/
inductive FaultAt (offset : Nat) : Text → LexError → Prop
  /-- All digits that stand there make up an integer that is out of range. -/
  | integerOverflow {digits after : Text} : Pattern.digits.Matches digits →
      (∀ c, after.head? = some c → ¬ Numeral.isDigit c) →
      intMax < (Numeral.value digits : Int) →
      FaultAt offset (digits ++ after)
        ⟨.integerOverflow, digits, some ⟨offset, (offset + size digits : Nat)⟩⟩
  /-- A block comment is opened, and there is no closing behind the opening. -/
  | unterminatedComment {after : Text} : ¬ blockClose <:+: after →
      FaultAt offset (blockOpen ++ after)
        ⟨.unterminatedComment, blockOpen,
          some ⟨offset, (offset + size (blockOpen ++ after) : Nat)⟩⟩
  /-- The character is no blank, belongs to no name or integer and is no symbol; if it is a quote,
      its line has no other quote behind it. -/
  | unexpectedCharacter {c : Char} {after : Text} : ¬ isBlank c → ¬ isNamePart c →
      [c] ∉ punctuation.map Prod.fst →
      (c = doubleQuote → doubleQuote ∉ after.takeWhile (· ≠ '\n')) →
      FaultAt offset (c :: after)
        ⟨.unexpectedCharacter, [c], some ⟨offset, (offset + size [c] : Nat)⟩⟩

namespace FaultAt

variable {offset : Nat} {rest : Text} {error : LexError}

/-- A fault is marked by a span that covers some piece of the text, from its beginning, which is no
    blank, on. -/
theorem covered (h : FaultAt offset rest error) : ∃ c others after, rest = c :: others ++ after ∧
    ¬ isBlank c ∧ error.span = some ⟨offset, (offset + size (c :: others) : Nat)⟩ := by
  cases h with
  | @integerOverflow digits after hdigits =>
      obtain ⟨c, others, rfl⟩ := List.exists_cons_of_ne_nil hdigits.1
      have hpart := isNamePart_of_isDigit (hdigits.2 c List.mem_cons_self)
      exact ⟨c, others, after, rfl, fun hblank => not_isNamePart_of_isBlank hblank hpart, rfl⟩
  | @unterminatedComment after =>
      exact ⟨'/', '*' :: after, [], (List.append_nil _).symm, by decide, rfl⟩
  | @unexpectedCharacter c after hblank => exact ⟨c, [], after, rfl, hblank, rfl⟩

/-- The text that an error reports is on one line, even if the text that its span covers is not. -/
theorem not_mem_lexeme (h : FaultAt offset rest error) : '\n' ∉ error.lexeme := by
  cases h with
  | integerOverflow hdigits => exact fun hmem => absurd (hdigits.2 _ hmem) (by decide)
  | unterminatedComment => exact show '\n' ∉ blockOpen by decide
  | unexpectedCharacter hblank =>
      intro hmem
      obtain rfl := List.mem_singleton.1 hmem
      exact hblank (by decide)

end FaultAt

/-! ## From the lexer to the text -/

/-- A character that no rule begins with is unexpected. -/
theorem Undescribed.faultAt {c : Char} {after : Text} (h : Undescribed (c :: after))
    (offset : Nat) :
    FaultAt offset (c :: after)
      ⟨.unexpectedCharacter, [c], some ⟨offset, (offset + size [c] : Nat)⟩⟩ := by
  have hno : ∀ rule ∈ Rule.table, ∀ text, text <+: c :: after → ¬ rule.pattern.Matches text := by
    intro rule hrule text hbegins hmatches
    exact h rule hrule text hmatches.ne_nil hbegins hmatches
  have hsingle : [c] <+: c :: after := ⟨after, rfl⟩
  refine .unexpectedCharacter (fun hblank => ?_) (fun hpart => ?_) (fun hsymbol => ?_)
    (fun hquote hline => ?_)
  · exact hno ⟨.whitespace, .blanks⟩ (by decide) [c] hsingle ⟨by simp, by simpa using hblank⟩
  · rcases Bool.or_eq_true_iff.1 hpart with hstart | hdigit
    · exact hno ⟨.token .identifier, .name⟩ (by decide) [c] hsingle
        ⟨c, [], rfl, hstart, by simp⟩
    · exact hno ⟨.token .integer, .digits⟩ (by decide) [c] hsingle
        ⟨by simp, by simpa using hdigit⟩
  · obtain ⟨entry, hentry, hc⟩ := List.mem_map.1 hsymbol
    have htable : ∀ entry ∈ punctuation, Rule.ofWord entry ∈ Rule.table := by decide
    exact hno _ (htable entry hentry) [c] hsingle ⟨hc.symm, by rw [hc]; simp⟩
  · obtain ⟨body, others, hsplit⟩ := List.append_of_mem hline
    have hbody : ∀ d ∈ body, d ≠ '\n' := by
      intro d hd
      have hmem : d ∈ after.takeWhile (· ≠ '\n') := by
        rw [hsplit]; exact List.mem_append_left _ hd
      simpa using List.mem_takeWhile_imp hmem
    refine hno ⟨.token .string, .quoted⟩ (by decide) (doubleQuote :: (body ++ [doubleQuote]))
      ?_ ⟨body, rfl, fun hnewline => hbody _ hnewline rfl⟩
    have hbegins : body ++ [doubleQuote] <+: after :=
      List.IsPrefix.trans ⟨others, by rw [hsplit]; simp⟩ (List.takeWhile_prefix _)
    exact List.cons_prefix_cons.2 ⟨hquote.symm, hbegins⟩

/-- Where the lexer finds no lexeme there is a fault. -/
theorem Lexer.faultAt_of_lexemeAt {cursor : Cursor} {error : LexError} (hrest : cursor.rest ≠ [])
    (h : lexemeAt cursor = .error error) : FaultAt cursor.offset cursor.rest error := by
  obtain ⟨rest, position, offset⟩ := cursor
  have hchosen := lexemeAt_eq_iff.1 h
  cases hchosen with
  | leftOpen hopen =>
      obtain ⟨after, hrest', hclose⟩ := hopen
      obtain rfl : rest = blockOpen ++ after := hrest'
      exact .unterminatedComment hclose
  | undescribed hundescribed =>
      obtain ⟨c, after, rfl⟩ := List.exists_cons_of_ne_nil hrest
      exact hundescribed.faultAt offset

/-- All digits that stand together are taken together. -/
theorem Munches.digits_end {text after : Text} {rule : Rule} (h : Munches (text ++ after) rule text)
    (hdigits : Pattern.digits.Matches text) :
    ∀ c, after.head? = some c → ¬ Numeral.isDigit c := by
  intro c hc hdigit
  obtain ⟨others, rfl⟩ := List.head?_eq_some_iff.1 hc
  have hmatches : Pattern.digits.Matches (text ++ [c]) := by
    refine ⟨by simp, fun d hd => ?_⟩
    rcases List.mem_append.1 hd with hd | hd
    · exact hdigits.2 d hd
    · exact List.mem_singleton.1 hd ▸ hdigit
  have hle := h.longest ⟨.token .integer, .digits⟩ (by decide) _ ⟨others, by simp⟩ hmatches
  rw [List.length_append, List.length_singleton] at hle
  omega

/-- Where the lexer takes an integer that is out of range there is a fault. -/
theorem Lexer.faultAt_of_overflow {cursor : Cursor} {kind : LexemeKind} {text : Text}
    (h : lexemeAt cursor = .ok (kind, text)) (hdigits : Pattern.digits.Matches text)
    (hover : intMax < (Numeral.value text : Int)) :
    FaultAt cursor.offset cursor.rest
      ⟨.integerOverflow, text, some (cursor.spanOf text)⟩ := by
  obtain ⟨rule, -, hmunches⟩ := munches_of_lexemeAt h
  obtain ⟨rest, position, offset⟩ := cursor
  obtain ⟨after, rfl⟩ := hmunches.begins
  exact .integerOverflow hdigits (hmunches.digits_end hdigits) hover

/-! ## From the text to the lexer -/

/-- Only the rule of integers takes anything from a text that begins with a digit. -/
theorem Rule.of_digit {rule : Rule} {c : Char} {others : Text} (hmem : rule ∈ Rule.table)
    (h : rule.pattern.Matches (c :: others)) (hc : Numeral.isDigit c) :
    rule = ⟨.token .integer, .digits⟩ := by
  have hstarts := h.starts
  rcases Rule.mem_table hmem with rfl | rfl | rfl | rfl | rfl | rfl | ⟨entry, hentry, rfl⟩
  · exact absurd (isNamePart_of_isDigit hc) (not_isNamePart_of_isBlank hstarts)
  · obtain rfl : c = '/' := hstarts
    exact absurd hc (by decide)
  · obtain rfl : c = '/' := hstarts
    exact absurd hc (by decide)
  · rfl
  · obtain rfl : c = doubleQuote := hstarts
    exact absurd hc (by decide)
  · exact absurd hstarts (not_isNameStart_of_isDigit hc)
  · obtain ⟨text, kind⟩ := entry
    obtain rfl : c :: others = text := h.1
    exact absurd hc (word_head hentry).2.2.1

/-- A run of digits is taken up to its end. -/
theorem Munches.of_digits {run rest text : Text} {rule : Rule}
    (hrun : Pattern.digits.Matches run) (hrest : ∀ c, rest.head? = some c → ¬ Numeral.isDigit c)
    (h : Munches (run ++ rest) rule text) : rule = ⟨.token .integer, .digits⟩ ∧ text = run := by
  obtain ⟨more, rfl⟩ := h.extends ⟨.token .integer, .digits⟩ (by decide)
    (List.prefix_append ..) hrun
  obtain ⟨c, others, rfl⟩ := List.exists_cons_of_ne_nil hrun.1
  obtain rfl := Rule.of_digit h.mem h.described (hrun.2 c List.mem_cons_self)
  refine ⟨rfl, ?_⟩
  cases more with
  | nil => rw [List.append_nil]
  | cons d more =>
      -- a longer run would go on with what is no digit
      obtain ⟨others', hothers⟩ := (List.prefix_append_right_inj _).1 h.begins
      have hd := h.described.2 d (List.mem_append_right _ List.mem_cons_self)
      exact absurd hd (hrest d (by rw [← hothers]; rfl))

/-- No rule begins with a character that is unexpected. -/
theorem undescribed_of_unexpected {c : Char} {after : Text} (hblank : ¬ isBlank c)
    (hpart : ¬ isNamePart c) (hsymbol : [c] ∉ punctuation.map Prod.fst)
    (hquote : c = doubleQuote → doubleQuote ∉ after.takeWhile (· ≠ '\n')) :
    Undescribed (c :: after) := by
  intro rule hrule text hne hbegins hmatches
  obtain ⟨d, others, rfl⟩ := List.exists_cons_of_ne_nil hne
  obtain ⟨rfl, hothers⟩ := List.cons_prefix_cons.1 hbegins
  have hstarts := hmatches.starts
  have hslash : d ≠ '/' := by rintro rfl; exact hsymbol (by decide)
  rcases Rule.mem_table hrule with rfl | rfl | rfl | rfl | rfl | rfl | ⟨entry, hentry, rfl⟩
  · exact hblank hstarts
  · exact hslash hstarts
  · exact hslash hstarts
  · exact hpart (isNamePart_of_isDigit hstarts)
  · -- the quote that ends a string stands behind the first one on the same line
    obtain ⟨body, heq, hline⟩ := hmatches
    obtain ⟨rfl, rfl⟩ := List.cons.inj heq
    obtain ⟨more, rfl⟩ := hothers
    refine hquote rfl ?_
    have hbody : ∀ e ∈ body ++ [doubleQuote], decide (e ≠ '\n') = true := by
      intro e he
      rw [decide_eq_true_eq]
      rintro rfl
      rcases List.mem_append.1 he with he | he
      · exact hline he
      · exact absurd (List.mem_singleton.1 he) (by decide)
    rw [List.takeWhile_append_of_pos hbody]
    simp
  · exact hpart (isNamePart_of_isNameStart hstarts)
  · have hwords : ∀ entry ∈ words, isNameStart (entry.1.headD ' ') ∨
        [entry.1.headD ' '] ∈ punctuation.map Prod.fst := by decide
    obtain ⟨text, kind⟩ := entry
    obtain rfl : d :: others = text := hmatches.1
    rcases hwords _ hentry with hstart | hmem
    · exact hpart (isNamePart_of_isNameStart hstart)
    · exact hsymbol hmem

/-- A fault is where a scan ends, with the error that says what is wrong. -/
theorem FaultAt.scans {cursor : Cursor} {error : LexError}
    (h : FaultAt cursor.offset cursor.rest error) : Scans cursor [] (some error) := by
  obtain ⟨rest, position, offset⟩ := cursor
  cases h with
  | @integerOverflow digits after hdigits hafter hover =>
      have hopen : ¬ blockOpen <+: digits ++ after := by
        rintro ⟨more, hmore⟩
        obtain ⟨c, others, rfl⟩ := List.exists_cons_of_ne_nil hdigits.1
        obtain ⟨rfl, -⟩ := List.cons.inj hmore
        exact absurd (hdigits.2 '/' List.mem_cons_self) (by decide)
      have hlexeme := @Lexer.lexemeAt_taken ⟨digits ++ after, position, offset⟩ digits after
        ⟨.token .integer, .digits⟩ (by decide) hdigits rfl (fun h => absurd h hopen)
        fun _ _ => Munches.of_digits hdigits hafter
      exact .outOfRange hlexeme hdigits hover
  | @unterminatedComment after hclose =>
      exact .noLexeme (by simp) (Lexer.lexemeAt_eq_iff.2 (.leftOpen ⟨after, rfl, hclose⟩))
  | unexpectedCharacter hblank hpart hsymbol hquote =>
      have hundescribed := undescribed_of_unexpected hblank hpart hsymbol hquote
      exact .noLexeme (by simp) (Lexer.lexemeAt_eq_iff.2 (.undescribed hundescribed))

/-- There is only one fault at a place. -/
theorem FaultAt.unique {offset : Nat} {rest : Text} {error error' : LexError}
    (h : FaultAt offset rest error) (h' : FaultAt offset rest error') : error = error' := by
  have hscans := @FaultAt.scans ⟨rest, 0, offset⟩ error h
  have hscans' := @FaultAt.scans ⟨rest, 0, offset⟩ error' h'
  exact Option.some.inj (hscans.unique hscans').2

end ScriptFront
