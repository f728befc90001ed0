import ScriptFront.Lexer
import ScriptFront.Proofs.Lexer.Munch
import ScriptFront.Proofs.Text.Numeral

set_option autoImplicit false

/-! # How tokens are spelled

`Spells` says which texts stand for which tokens. It is a function of the text (`Spells.unique`),
and what a rule of the table takes from the input either spells the token that the lexer makes of
it or is an integer out of range (`Munches.makeToken`). -/

namespace ScriptFront

/-- The texts with a meaning of their own. -/
def words : List (Text × TokenKind) := keywords ++ punctuation

/-- The text stands for the token. -/
inductive Spells : Text → Token → Prop
  | word {text : Text} {kind : TokenKind} : (text, kind) ∈ words → Spells text ⟨kind, .none⟩
  | integer {digits : Text} : Pattern.digits.Matches digits →
      (Numeral.value digits : Int) ≤ intMax →
      Spells digits ⟨.integer, .integer (Numeral.value digits)⟩
  | identifier {name : Text} : Pattern.name.Matches name → name ∉ keywords.map Prod.fst →
      Spells name ⟨.identifier, .text name⟩
  | string {body : Text} : '\n' ∉ body →
      Spells (doubleQuote :: (body ++ [doubleQuote])) ⟨.string, .text body⟩

/-! ## Classes of characters -/

theorem isBlank_iff {c : Char} : isBlank c ↔ c = ' ' ∨ c = '\t' ∨ c = '\r' ∨ c = '\n' := by
  simp [isBlank, or_assoc]

theorem isNameStart_iff {c : Char} : isNameStart c ↔
    (97 ≤ c.toNat ∧ c.toNat ≤ 122 ∨ 65 ≤ c.toNat ∧ c.toNat ≤ 90) ∨ c = '_' := by
  simp only [isNameStart, Bool.and_eq_true, Bool.or_eq_true, decide_eq_true_eq]
  exact Iff.rfl

theorem not_isNameStart_of_isDigit {c : Char} (h : Numeral.isDigit c) : ¬ isNameStart c := by
  rw [Numeral.isDigit_iff] at h
  rw [isNameStart_iff]
  rintro (hletter | rfl)
  · omega
  · exact absurd h (by decide)

/-- A blank is no part of a name, and so no digit either. -/
theorem not_isNamePart_of_isBlank {c : Char} (h : isBlank c) : ¬ isNamePart c := by
  rcases isBlank_iff.1 h with rfl | rfl | rfl | rfl <;> decide

theorem isNamePart_of_isDigit {c : Char} (h : Numeral.isDigit c) : isNamePart c := by
  simp [isNamePart, h]

theorem isNamePart_of_isNameStart {c : Char} (h : isNameStart c) : isNamePart c := by
  simp [isNamePart, h]

/-! ## Integers -/

/-- An integer token carries the value of its digits, unless that is out of range: then the lexer
    stops and reports the digits as they are written. -/
theorem Lexer.makeToken_integer {digits : Text} (h : ∀ c ∈ digits, Numeral.isDigit c)
    (span : Option Span) (lexer : Lexer) : makeToken .integer digits span lexer =
      if intMax < (Numeral.value digits : Int) then
        .error ⟨.integerOverflow, digits, span⟩ { lexer with done := true }
      else .ok (.ok ⟨.integer, .integer (Numeral.value digits)⟩) lexer := by
  simp only [makeToken, readInteger_eq h (show 10 ≤ conversionLimit by decide)]
  by_cases hover : intMax < (Numeral.value digits : Int)
  · rw [if_pos hover, if_pos hover]
    rfl
  · rw [if_neg hover, if_neg hover]
    rfl

/-! ## The words -/

theorem word_kind_unique : ∀ a ∈ words, ∀ b ∈ words, a.1 = b.1 → a.2 = b.2 := by decide

theorem word_ne_nil : ∀ entry ∈ words, entry.1 ≠ [] := by decide

/-- A keyword begins like a name, a symbol begins like no other token, and of all words only the
    slash begins with a slash. -/
theorem word_head {c : Char} {others : Text} {kind : TokenKind} (h : (c :: others, kind) ∈ words) :
    ((c :: others, kind) ∈ keywords ∨ ¬ isNameStart c) ∧ ¬ isBlank c ∧ ¬ Numeral.isDigit c ∧
      c ≠ doubleQuote ∧ (c = '/' → others = []) := by
  have hwords : ∀ entry ∈ words, (entry ∈ keywords ∨ ¬ isNameStart (entry.1.headD ' ')) ∧
      ¬ isBlank (entry.1.headD ' ') ∧ ¬ Numeral.isDigit (entry.1.headD ' ') ∧
      entry.1.headD ' ' ≠ doubleQuote ∧ (entry.1.headD ' ' = '/' → entry.1.tail = []) := by
    decide
  exact hwords _ h

theorem word_kind : ∀ entry ∈ words,
    entry.2 ≠ .integer ∧ entry.2 ≠ .identifier ∧ entry.2 ≠ .string := by decide

theorem word_not_blank {text : Text} {kind : TokenKind} (h : (text, kind) ∈ words) {c : Char}
    (hc : c ∈ text) : ¬ isBlank c := by
  have hwords : ∀ entry ∈ words, entry.1.all (!isBlank ·) = true := by decide
  simpa using List.all_eq_true.1 (hwords _ h) c hc

/-! ## The token that a text spells -/

namespace Spells

variable {text : Text} {token token' : Token}

/-- No token begins with a blank, only a string with a quote, and with a slash only the slash. -/
theorem head (h : Spells text token) : ∃ c others, text = c :: others ∧ ¬ isBlank c ∧
    (c = doubleQuote → token.kind = .string) ∧ (c = '/' → others = []) := by
  cases h with
  | @word _ kind hmem =>
      obtain ⟨c, others, rfl⟩ := List.exists_cons_of_ne_nil (word_ne_nil _ hmem)
      obtain ⟨-, hblank, -, hquote, hslash⟩ := word_head hmem
      exact ⟨c, others, rfl, hblank, fun h => absurd h hquote, hslash⟩
  | integer hdigits =>
      obtain ⟨c, others, rfl⟩ := List.exists_cons_of_ne_nil hdigits.1
      have hc := hdigits.2 c List.mem_cons_self
      refine ⟨c, others, rfl, fun hblank => ?_, ?_, ?_⟩
      · exact not_isNamePart_of_isBlank hblank (isNamePart_of_isDigit hc)
      · rintro rfl; exact absurd hc (by decide)
      · rintro rfl; exact absurd hc (by decide)
  | identifier hname =>
      obtain ⟨c, others, rfl, hc, -⟩ := hname
      refine ⟨c, others, rfl, fun hblank => ?_, ?_, ?_⟩
      · exact not_isNamePart_of_isBlank hblank (isNamePart_of_isNameStart hc)
      · rintro rfl; exact absurd hc (by decide)
      · rintro rfl; exact absurd hc (by decide)
  | string => exact ⟨doubleQuote, _, rfl, by decide, fun _ => rfl, fun h => absurd h (by decide)⟩

theorem ne_nil (h : Spells text token) : text ≠ [] := by
  obtain ⟨c, others, rfl, -⟩ := h.head
  simp

/-- Whatever spells a token is described by a rule. -/
theorem rule (h : Spells text token) : ∃ rule ∈ Rule.table, rule.pattern.Matches text := by
  have hnil := h.ne_nil
  cases h with
  | @word _ kind hmem =>
      have hwords : ∀ entry ∈ words, Rule.ofWord entry ∈ Rule.table := by decide
      exact ⟨_, hwords _ hmem, rfl, hnil⟩
  | integer hdigits => exact ⟨⟨.token .integer, .digits⟩, by decide, hdigits⟩
  | identifier hname => exact ⟨⟨.token .identifier, .name⟩, by decide, hname⟩
  | string hline => exact ⟨⟨.token .string, .quoted⟩, by decide, _, rfl, hline⟩

/-- A run of digits spells its value. -/
theorem of_digits (h : Spells text token) (hdigits : Pattern.digits.Matches text) :
    token = ⟨.integer, .integer (Numeral.value text)⟩ ∧ (Numeral.value text : Int) ≤ intMax := by
  obtain ⟨c, others, rfl⟩ := List.exists_cons_of_ne_nil hdigits.1
  have hc := hdigits.2 c List.mem_cons_self
  cases h with
  | word hmem => exact absurd hc (word_head hmem).2.2.1
  | integer _ hrange => exact ⟨rfl, hrange⟩
  | identifier hname => exact absurd hname.starts (not_isNameStart_of_isDigit hc)
  | string => exact absurd hc (by decide)

/-- A name that is no keyword spells an identifier. -/
theorem of_name (h : Spells text token) (hname : Pattern.name.Matches text)
    (hkeyword : text ∉ keywords.map Prod.fst) : token = ⟨.identifier, .text text⟩ := by
  obtain ⟨c, others, rfl, hc, -⟩ := hname
  cases h with
  | @word _ kind hmem =>
      rcases (word_head hmem).1 with hmem' | hstart
      · exact absurd (List.mem_map_of_mem hmem') hkeyword
      · exact absurd hc hstart
  | integer hdigits =>
      exact absurd hc (not_isNameStart_of_isDigit (hdigits.2 c List.mem_cons_self))
  | identifier => rfl
  | string => exact absurd hc (by decide)

/-- A text in quotes spells a string. -/
theorem of_quoted {body : Text} (h : Spells (doubleQuote :: (body ++ [doubleQuote])) token) :
    token = ⟨.string, .text body⟩ := by
  generalize htext : doubleQuote :: (body ++ [doubleQuote]) = text at h
  cases h with
  | word hmem =>
      rw [← htext] at hmem
      exact absurd rfl (word_head hmem).2.2.2.1
  | integer hdigits =>
      exact absurd (hdigits.2 doubleQuote (htext ▸ List.mem_cons_self)) (by decide)
  | identifier hname =>
      rw [← htext] at hname
      exact absurd hname.starts (by decide)
  | string => rw [List.append_cancel_right (List.cons.inj htext).2]

/-- A word spells its own kind. -/
theorem of_word {kind : TokenKind} (h : Spells text token) (hmem : (text, kind) ∈ words) :
    token = ⟨kind, .none⟩ := by
  cases h with
  | word hmem' => exact congrArg (Token.mk · .none) (word_kind_unique _ hmem' _ hmem rfl)
  | integer hdigits => exact ((word hmem).of_digits hdigits).1.symm
  | identifier hname hkeyword => exact ((word hmem).of_name hname hkeyword).symm
  | string => exact (word hmem).of_quoted.symm

/-- A text spells one token only. -/
theorem unique (h : Spells text token) (h' : Spells text token') : token = token' := by
  cases h' with
  | word hmem => exact h.of_word hmem
  | integer hdigits => exact (h.of_digits hdigits).1
  | identifier hname hkeyword => exact h.of_name hname hkeyword
  | string => exact h.of_quoted

end Spells

/-! ## What the rules take -/

theorem Rule.mem_table {rule : Rule} (h : rule ∈ Rule.table) :
    rule = ⟨.whitespace, .blanks⟩ ∨ rule = ⟨.comment, .blockComment⟩ ∨
    rule = ⟨.comment, .lineComment⟩ ∨ rule = ⟨.token .integer, .digits⟩ ∨
    rule = ⟨.token .string, .quoted⟩ ∨ rule = ⟨.token .identifier, .name⟩ ∨
    ∃ entry ∈ words, rule = Rule.ofWord entry := by
  simp only [Rule.table, List.mem_append, List.mem_cons, List.not_mem_nil, or_false,
    List.mem_map] at h
  simp only [words, List.mem_append]
  grind

/-- Only a run of blanks begins with a blank. -/
theorem Rule.of_blank {rule : Rule} {c : Char} {others : Text} (hmem : rule ∈ Rule.table)
    (h : rule.pattern.Matches (c :: others)) (hc : isBlank c) :
    rule = ⟨.whitespace, .blanks⟩ := by
  have hpart := not_isNamePart_of_isBlank hc
  have hstarts := h.starts
  rcases Rule.mem_table hmem with rfl | rfl | rfl | rfl | rfl | rfl | ⟨entry, hentry, rfl⟩
  · rfl
  · obtain rfl : c = '/' := hstarts
    exact absurd hc (by decide)
  · obtain rfl : c = '/' := hstarts
    exact absurd hc (by decide)
  · exact absurd (isNamePart_of_isDigit hstarts) hpart
  · obtain rfl : c = doubleQuote := hstarts
    exact absurd hc (by decide)
  · exact absurd (isNamePart_of_isNameStart hstarts) hpart
  · exact absurd hc (word_not_blank hentry (List.mem_of_head? hstarts))

/-- Only blanks and block comments go over the end of a line. -/
theorem Rule.of_newline {rule : Rule} {text : Text} (hmem : rule ∈ Rule.table)
    (h : rule.pattern.Matches text) (hline : '\n' ∈ text) :
    rule = ⟨.whitespace, .blanks⟩ ∨ rule = ⟨.comment, .blockComment⟩ := by
  rcases Rule.mem_table hmem with rfl | rfl | rfl | rfl | rfl | rfl | ⟨entry, hentry, rfl⟩
  · exact .inl rfl
  · exact .inr rfl
  · obtain ⟨body, rfl, hbody⟩ := h
    rcases List.mem_append.1 hline with hline | hline
    · exact absurd hline (by decide)
    · exact absurd hline hbody
  · exact absurd (h.2 _ hline) (by decide)
  · obtain ⟨body, rfl, hbody⟩ := h
    have hquotes : '\n' ∉ doubleQuote :: (body ++ [doubleQuote]) := by
      simp [hbody, doubleQuote]
    exact absurd hline hquotes
  · obtain ⟨first, others, rfl, hstart, hothers⟩ := h
    rcases List.mem_cons.1 hline with rfl | hline
    · exact absurd hstart (by decide)
    · exact absurd (hothers _ hline) (by decide)
  · obtain ⟨rfl, -⟩ := h
    exact absurd (by decide) (word_not_blank hentry hline)

/-- Only comments begin with a slash and something else. -/
theorem Rule.of_slash {rule : Rule} {c : Char} {others : Text} (hmem : rule ∈ Rule.table)
    (h : rule.pattern.Matches ('/' :: c :: others)) :
    rule = ⟨.comment, .blockComment⟩ ∧ c = '*' ∨ rule = ⟨.comment, .lineComment⟩ ∧ c = '/' := by
  have hstarts := h.starts
  rcases Rule.mem_table hmem with rfl | rfl | rfl | rfl | rfl | rfl | ⟨entry, hentry, rfl⟩
  · exact absurd hstarts (by decide)
  · obtain ⟨body, heq, -⟩ := h
    exact .inl ⟨rfl, (List.cons.inj (List.cons.inj heq).2).1⟩
  · obtain ⟨body, heq, -⟩ := h
    exact .inr ⟨rfl, (List.cons.inj (List.cons.inj heq).2).1⟩
  · exact absurd hstarts (by decide)
  · exact absurd hstarts (by decide)
  · exact absurd hstarts (by decide)
  · -- the slash is a word of its own, and no longer one begins with it
    obtain ⟨text, kind⟩ := entry
    obtain rfl : '/' :: c :: others = text := h.1
    exact absurd ((word_head hentry).2.2.2.2 rfl) (by simp)

namespace Munches

variable {input text : Text} {rule : Rule}

/-- Only what no keyword is goes by the rule of names, which is the last one. -/
theorem not_keyword (h : Munches input ⟨.token .identifier, .name⟩ text) :
    text ∉ keywords.map Prod.fst := by
  intro hkeyword
  obtain ⟨entry, hentry, rfl⟩ := List.mem_map.1 hkeyword
  obtain ⟨before, after, htable, hbefore⟩ := h.earliest
  have hearlier : ∀ entry ∈ keywords, Rule.ofWord entry ∈
      Rule.table.takeWhile (· ≠ ⟨.token .identifier, .name⟩) := by decide
  -- the keywords come before the first rule of names, and so before any split at one
  have hmem : Rule.ofWord entry ∈ before := by
    have h := hearlier entry hentry
    rw [htable, List.takeWhile_append] at h
    split at h
    · rw [List.takeWhile_cons_of_neg (by simp), List.append_nil] at h
      exact h
    · exact (List.takeWhile_subset _) h
  exact hbefore _ hmem ⟨rfl, h.described.ne_nil⟩

/-- The lexer makes of a taken text the token that it spells, unless it is an integer that is out of
    range. -/
theorem makeToken {kind : TokenKind} (h : Munches input rule text)
    (hkind : rule.kind = .token kind) :
    (∃ token, Spells text token ∧
      ∀ span lexer, Lexer.makeToken kind text span lexer = .ok (.ok token) lexer) ∨
    kind = .integer ∧ Pattern.digits.Matches text ∧ intMax < (Numeral.value text : Int) ∧
      ∀ span lexer, Lexer.makeToken kind text span lexer =
        .error ⟨.integerOverflow, text, span⟩ { lexer with done := true } := by
  have hmatches := h.described
  rcases Rule.mem_table h.mem with rfl | rfl | rfl | rfl | rfl | rfl | ⟨entry, hentry, rfl⟩
  · exact absurd hkind nofun
  · exact absurd hkind nofun
  · exact absurd hkind nofun
  · obtain rfl : TokenKind.integer = kind := by simpa using hkind
    by_cases hover : intMax < (Numeral.value text : Int)
    · refine .inr ⟨rfl, hmatches, hover, fun span lexer => ?_⟩
      rw [Lexer.makeToken_integer hmatches.2, if_pos hover]
    · refine .inl ⟨_, .integer hmatches (by omega), fun span lexer => ?_⟩
      rw [Lexer.makeToken_integer hmatches.2, if_neg hover]
  · obtain rfl : TokenKind.string = kind := by simpa using hkind
    obtain ⟨body, rfl, hline⟩ := hmatches
    refine .inl ⟨_, .string hline, fun span lexer => ?_⟩
    have hbody : (body ++ [doubleQuote]).dropLast = body := List.dropLast_concat
    show EStateM.Result.ok _ _ = _
    rw [List.tail_cons, hbody]
  · obtain rfl : TokenKind.identifier = kind := by simpa using hkind
    exact .inl ⟨_, .identifier hmatches h.not_keyword, fun span lexer => rfl⟩
  · obtain ⟨rfl, -⟩ := hmatches
    obtain ⟨text, kind'⟩ := entry
    obtain rfl : kind' = kind := by simpa [Rule.ofWord] using hkind
    obtain ⟨hinteger, hidentifier, hstring⟩ := word_kind _ hentry
    refine .inl ⟨_, .word hentry, fun span lexer => ?_⟩
    unfold Lexer.makeToken
    split
    · exact absurd rfl hinteger
    · exact absurd rfl hidentifier
    · exact absurd rfl hstring
    · rfl

end Munches

end ScriptFront
