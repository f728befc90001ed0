import ScriptFront.Proofs.Lexer.Layout

set_option autoImplicit false

/-! # Written tokens

Tokens that are written one after another, each with a blank behind it, are read back as they were
written, whatever comments stand between them. A blank ends every lexeme but a string, a newline
ends every string, and a comment ends where it is closed. -/

namespace ScriptFront

open Utf8

theorem Cursor.rest_advance {cursor : Cursor} {text rest : Text}
    (h : cursor.rest = text ++ rest) : (cursor.advance text).rest = rest := by
  rw [advance, h]
  exact List.drop_left

/-! ## Where a lexeme ends -/

namespace Spells

variable {lexeme others : Text} {token : Token} {c : Char}

/-- No rule describes a text that goes on behind the lexeme with a blank, or behind a string with a
    newline. -/
theorem not_beyond (h : Spells lexeme token) (hblank : isBlank c)
    (hline : token.kind = .string → c = '\n') {rule : Rule} {text : Text}
    (hmem : rule ∈ Rule.table) (hbegins : text <+: lexeme ++ c :: others)
    (hmatches : rule.pattern.Matches text) : text.length ≤ lexeme.length := by
  refine Nat.le_of_not_lt fun hlt => ?_
  obtain ⟨more, rfl⟩ : lexeme ++ [c] <+: text := by
    refine List.prefix_of_prefix_length_le ⟨others, by simp⟩ hbegins ?_
    rw [List.length_append, List.length_singleton]
    omega
  -- a longer text would hold the blank, and it begins like the lexeme
  have hc : c ∈ lexeme ++ [c] ++ more := by simp
  have hpart := not_isNamePart_of_isBlank hblank
  obtain ⟨d, tail, rfl, hhead, hquote, hslash⟩ := h.head
  by_cases hd : d = '/'
  · -- a slash, which is the whole lexeme, and a blank open no comment
    subst hd
    rw [hslash rfl] at hmatches
    rcases Rule.of_slash hmem hmatches with ⟨-, hc'⟩ | ⟨-, hc'⟩ <;>
      exact absurd (hc' ▸ hblank) (by decide)
  have hstarts := hmatches.starts
  rcases Rule.mem_table hmem with rfl | rfl | rfl | rfl | rfl | rfl | ⟨entry, hentry, rfl⟩
  · exact hhead hstarts
  · exact hd hstarts
  · exact hd hstarts
  · exact hpart (isNamePart_of_isDigit (hmatches.2 c hc))
  · obtain ⟨body, heq, hbody⟩ := hmatches
    have hnewline := hline (hquote hstarts)
    rw [heq, hnewline] at hc
    simp [doubleQuote, hbody] at hc
  · obtain ⟨first, others', heq, hstart, hothers⟩ := hmatches
    rw [heq] at hc
    rcases List.mem_cons.1 hc with hc | hc
    · exact hpart (isNamePart_of_isNameStart (hc ▸ hstart))
    · exact hpart (hothers c hc)
  · exact word_not_blank hentry (hmatches.1 ▸ hc) hblank

/-- Before such a character the lexeme is all that is taken, and it is not skipped. -/
theorem munches_eq (h : Spells lexeme token) (hblank : isBlank c)
    (hline : token.kind = .string → c = '\n') {rule : Rule} {text : Text}
    (hmunches : Munches (lexeme ++ c :: others) rule text) :
    text = lexeme ∧ rule.kind ∉ LexemeKind.skipped := by
  obtain ⟨own, hown, hmatches⟩ := h.rule
  have hextends := hmunches.extends own hown (List.prefix_append ..) hmatches
  have hle := h.not_beyond hblank hline hmunches.mem hmunches.begins hmunches.described
  obtain rfl := hextends.eq_of_length_le hle
  refine ⟨rfl, fun hskipped => ?_⟩
  have hdescribed := hmunches.described
  obtain ⟨d, tail, rfl, hhead, -, hslash⟩ := h.head
  rcases Rule.mem_table hmunches.mem with rfl | rfl | rfl | rfl | rfl | rfl | ⟨entry, -, rfl⟩
  · exact hhead hdescribed.starts
  · obtain rfl := hslash hdescribed.starts
    obtain ⟨body, heq, -⟩ := hdescribed
    exact absurd (List.cons.inj heq).2 (by simp)
  · obtain rfl := hslash hdescribed.starts
    obtain ⟨body, heq, -⟩ := hdescribed
    exact absurd (List.cons.inj heq).2 (by simp)
  all_goals exact absurd hskipped (by simp [LexemeKind.skipped, Rule.ofWord])

/-- Before such a character the lexeme opens no comment. -/
theorem not_blockOpen (h : Spells lexeme token) (hblank : isBlank c) :
    ¬ blockOpen <+: lexeme ++ c :: others := by
  intro hopen
  obtain ⟨more, hmore⟩ := hopen
  obtain ⟨d, tail, rfl, -, -, hslash⟩ := h.head
  obtain ⟨hd, htail⟩ := List.cons.inj hmore
  rw [hslash hd.symm] at htail
  exact absurd ((List.cons.inj htail).1 ▸ hblank) (by decide)

/-- A written token is scanned as it was written. -/
theorem scans (h : Spells lexeme token) (hblank : isBlank c)
    (hline : token.kind = .string → c = '\n') {cursor : Cursor} {items : List Item}
    {ending : Option LexError} (hrest : cursor.rest = lexeme ++ c :: others)
    (hscans : Scans (cursor.advance lexeme) items ending) :
    Scans cursor (⟨token, cursor.spanOf lexeme⟩ :: items) ending := by
  obtain ⟨own, hown, hmatches⟩ := h.rule
  obtain ⟨rule, text, hmunches⟩ := Rule.exists_munches hown hmatches ⟨c :: others, hrest.symm⟩
  have hlexeme := Lexer.lexemeAt_of_munches hmunches fun hopen =>
    absurd (hrest ▸ hopen) (h.not_blockOpen hblank)
  rw [hrest] at hmunches
  obtain ⟨rfl, hkind⟩ := h.munches_eq hblank hline hmunches
  cases hrule : rule.kind with
  | token kind =>
      rw [hrule] at hlexeme
      exact .token hlexeme h hscans
  | whitespace | comment => exact absurd (by rw [hrule]; decide) hkind

end Spells

/-! ## Where a gap ends -/

namespace Munches

variable {rest text : Text} {rule : Rule}

/-- A run of blanks is taken whole. -/
theorem of_blanks {run : Text} (hrun : Pattern.blanks.Matches run)
    (hrest : ∀ c, rest.head? = some c → ¬ isBlank c) (h : Munches (run ++ rest) rule text) :
    rule = ⟨.whitespace, .blanks⟩ ∧ text = run := by
  have hextends := h.extends ⟨.whitespace, .blanks⟩ (by decide) (List.prefix_append ..) hrun
  obtain ⟨more, rfl⟩ := hextends
  obtain ⟨c, others, rfl⟩ := List.exists_cons_of_ne_nil hrun.1
  obtain rfl := Rule.of_blank h.mem h.described (hrun.2 c List.mem_cons_self)
  refine ⟨rfl, ?_⟩
  cases more with
  | nil => rw [List.append_nil]
  | cons d more =>
      -- a longer run would go on with what is no blank
      obtain ⟨others', hothers⟩ := (List.prefix_append_right_inj _).1 h.begins
      have hd := h.described.2 d (List.mem_append_right _ List.mem_cons_self)
      exact absurd hd (hrest d (by rw [← hothers]; rfl))

/-- A block comment is taken up to its first closing. -/
theorem of_blockComment {comment : Text} (hcomment : Pattern.blockComment.Matches comment)
    (h : Munches (comment ++ rest) rule text) :
    rule = ⟨.comment, .blockComment⟩ ∧ text = comment := by
  have hextends := h.extends ⟨.comment, .blockComment⟩ (by decide) (List.prefix_append ..) hcomment
  obtain ⟨more, rfl⟩ := hextends
  obtain ⟨body, rfl, -⟩ := hcomment
  rcases Rule.of_slash h.mem h.described with ⟨rfl, -⟩ | ⟨-, hslash⟩
  · obtain ⟨body', heq, hfirst⟩ := h.described
    have hbody : body ++ blockClose ++ more = body' ++ blockClose :=
      (List.append_right_inj blockOpen).1 (by simpa using heq)
    rw [hfirst body more hbody.symm, List.append_nil]
    exact ⟨rfl, rfl⟩
  · exact absurd hslash (by decide)

/-- A line comment is taken up to the newline. -/
theorem of_lineComment {comment : Text} (hcomment : Pattern.lineComment.Matches comment)
    (h : Munches (comment ++ '\n' :: rest) rule text) :
    rule = ⟨.comment, .lineComment⟩ ∧ text = comment := by
  have hextends := h.extends ⟨.comment, .lineComment⟩ (by decide) (List.prefix_append ..) hcomment
  obtain ⟨more, rfl⟩ := hextends
  obtain ⟨body, rfl, -⟩ := hcomment
  rcases Rule.of_slash h.mem h.described with ⟨-, hstar⟩ | ⟨rfl, -⟩
  · exact absurd hstar (by decide)
  · refine ⟨rfl, ?_⟩
    cases more with
    | nil => rw [List.append_nil]
    | cons d more =>
        obtain ⟨others, hothers⟩ := (List.prefix_append_right_inj _).1 h.begins
        obtain ⟨rfl, -⟩ := List.cons.inj hothers
        obtain ⟨body', heq, hline⟩ := h.described
        have hbody : body ++ '\n' :: more = body' :=
          (List.append_right_inj lineOpen).1 (by simpa using heq)
        exact absurd (by simp [← hbody]) hline

end Munches

section Gaps

variable {cursor : Cursor} {items : List Item} {ending : Option LexError}

theorem Lexer.lexemeAt_blanks {run rest : Text} (hrun : Pattern.blanks.Matches run)
    (hcursor : cursor.rest = run ++ rest) (hrest : ∀ c, rest.head? = some c → ¬ isBlank c) :
    lexemeAt cursor = .ok (.whitespace, run) := by
  have hopen : ¬ blockOpen <+: run ++ rest := by
    intro hopen
    obtain ⟨more, hmore⟩ := hopen
    obtain ⟨c, others, rfl⟩ := List.exists_cons_of_ne_nil hrun.1
    obtain ⟨rfl, -⟩ := List.cons.inj hmore
    exact absurd (hrun.2 '/' List.mem_cons_self) (by decide)
  exact lexemeAt_taken ⟨.whitespace, .blanks⟩ (by decide) hrun hcursor (fun h => absurd h hopen)
    fun _ _ => Munches.of_blanks hrun hrest

namespace Scans

theorem skip_blockComment {comment rest : Text} (hcomment : Pattern.blockComment.Matches comment)
    (hcursor : cursor.rest = comment ++ rest) (h : Scans (cursor.advance comment) items ending) :
    Scans cursor items ending := by
  have hlexeme := Lexer.lexemeAt_taken ⟨.comment, .blockComment⟩ (by decide) hcomment hcursor
    (fun _ => rfl) fun _ _ => Munches.of_blockComment hcomment
  exact .skipped hlexeme (by decide) h

theorem skip_lineComment {comment rest : Text} (hcomment : Pattern.lineComment.Matches comment)
    (hcursor : cursor.rest = comment ++ '\n' :: rest)
    (h : Scans (cursor.advance comment) items ending) : Scans cursor items ending := by
  have hlexeme := Lexer.lexemeAt_taken ⟨.comment, .lineComment⟩ (by decide) hcomment hcursor
    (fun _ => rfl) fun _ _ => Munches.of_lineComment hcomment
  exact .skipped hlexeme (by decide) h

theorem skip_blanks {run rest : Text} (hrun : Pattern.blanks.Matches run)
    (hcursor : cursor.rest = run ++ rest) (hrest : ∀ c, rest.head? = some c → ¬ isBlank c)
    (h : Scans (cursor.advance run) items ending) : Scans cursor items ending :=
  .skipped (Lexer.lexemeAt_blanks hrun hcursor hrest) (by decide) h

/-- Behind the blanks that begin it a scan goes on. -/
theorem behind_blanks {run rest : Text} (hrun : Pattern.blanks.Matches run)
    (hcursor : cursor.rest = run ++ rest) (hrest : ∀ c, rest.head? = some c → ¬ isBlank c)
    (h : Scans cursor items ending) : Scans (cursor.advance run) items ending := by
  have hlexeme := Lexer.lexemeAt_blanks hrun hcursor hrest
  have hkind : LexemeKind.whitespace ∈ LexemeKind.skipped := by decide
  rcases of_lexeme hlexeme h with ⟨-, hscans⟩ | ⟨_, _, hne, -⟩ | ⟨hne, -⟩
  · exact hscans
  · exact absurd hkind hne
  · exact absurd hkind hne

/-- A blank may be put before a scan, even before one that begins with blanks. -/
theorem cons_blank {c : Char} {rest : Text} (hc : isBlank c) (hcursor : cursor.rest = c :: rest)
    (h : Scans (cursor.advance [c]) items ending) : Scans cursor items ending := by
  have hsplit : rest.takeWhile isBlank ++ rest.dropWhile isBlank = rest :=
    List.takeWhile_append_dropWhile
  have hstop : ∀ d, (rest.dropWhile isBlank).head? = some d → ¬ isBlank d := by
    intro d hd
    have hhead := List.head?_dropWhile_not isBlank rest
    rw [hd] at hhead
    simpa using hhead
  have hblanks : ∀ d ∈ rest.takeWhile isBlank, isBlank d := fun _ => List.mem_takeWhile_imp
  have hcons : ∀ d ∈ c :: rest.takeWhile isBlank, isBlank d := List.forall_mem_cons.2 ⟨hc, hblanks⟩
  have hcursor' : cursor.rest = c :: rest.takeWhile isBlank ++ rest.dropWhile isBlank := by
    rw [hcursor, List.cons_append, hsplit]
  -- a run of blanks is one lexeme, so the blank is skipped with those that follow it
  refine skip_blanks ⟨by simp, hcons⟩ hcursor' hstop ?_
  by_cases hnil : rest.takeWhile isBlank = []
  · rw [hnil]
    exact h
  · have hadvanced : (cursor.advance [c]).rest =
        rest.takeWhile isBlank ++ rest.dropWhile isBlank := Cursor.rest_advance hcursor'
    have hscans := h.behind_blanks ⟨hnil, hblanks⟩ hadvanced hstop
    rw [← Cursor.advance_append] at hscans
    exact hscans

/-- A gap is skipped. -/
theorem skip_trivia {gap rest : Text} (hgap : Trivia gap) (hcursor : cursor.rest = gap ++ rest)
    (h : Scans (cursor.advance gap) items ending) : Scans cursor items ending := by
  induction hgap generalizing cursor with
  | nil => rw [Cursor.advance_nil] at h; exact h
  | @blank c gap hc _ ih =>
      have hadvanced : (cursor.advance [c]).rest = gap ++ rest := Cursor.rest_advance hcursor
      rw [← List.singleton_append, Cursor.advance_append] at h
      exact cons_blank hc hcursor (ih hadvanced h)
  | @blockComment comment gap hcomment _ ih =>
      rw [List.append_assoc] at hcursor
      rw [Cursor.advance_append] at h
      exact skip_blockComment hcomment hcursor (ih (Cursor.rest_advance hcursor) h)
  | @lineComment comment gap hcomment _ ih =>
      rw [List.append_assoc, List.cons_append] at hcursor
      rw [← List.singleton_append, Cursor.advance_append, Cursor.advance_append] at h
      have hnewline := Cursor.rest_advance hcursor
      have hadvanced : ((cursor.advance comment).advance ['\n']).rest = gap ++ rest :=
        Cursor.rest_advance hnewline
      exact skip_lineComment hcomment hcursor (cons_blank (by decide) hnewline (ih hadvanced h))

end Scans

end Gaps

/-! ## Whole sources -/

/-- A token as it is written, with what separates it from the next one: trivia that begins with a
    blank, and behind a string with a newline. -/
structure Written where
  lexeme : Text
  separator : Text
  token : Token
  spells : Spells lexeme token
  trivia : Trivia separator
  separates : ∃ c others, separator = c :: others ∧ isBlank c ∧ (token.kind = .string → c = '\n')

namespace Written

/-- The text of written tokens. -/
def text (tokens : List Written) : Text := tokens.flatMap fun written =>
  written.lexeme ++ written.separator

/-- Written tokens in their places from an offset on. -/
def placed : Nat → List Written → List Item
  | _, [] => []
  | offset, written :: tokens =>
    ⟨written.token, ⟨offset, (offset + size written.lexeme : Nat)⟩⟩ ::
      placed (offset + size written.lexeme + size written.separator) tokens

/-- Written tokens are scanned in their places. -/
theorem scans (tokens : List Written) : ∀ cursor : Cursor, cursor.rest = text tokens →
    Scans cursor (placed cursor.offset tokens) none := by
  induction tokens with
  | nil => intro cursor hcursor; exact .atEnd hcursor
  | cons written tokens ih =>
      intro cursor hcursor
      obtain ⟨c, others, hseparator, hblank, hline⟩ := written.separates
      have hlexeme : cursor.rest = written.lexeme ++ (written.separator ++ text tokens) := by
        rw [hcursor, text, List.flatMap_cons, List.append_assoc]
        rfl
      have hgap := Cursor.rest_advance hlexeme
      have hrest := ih _ (Cursor.rest_advance hgap)
      have hscans := hrest.skip_trivia written.trivia hgap
      rw [hseparator, List.cons_append] at hlexeme
      exact written.spells.scans hblank hline hlexeme hscans

end Written

/-- **Written tokens are read back.** Behind any trivia, tokens that are written with separators
    are tokenized as they were written, each in its place, if the limit admits the source. -/
theorem tokenize_written {limits : Limits} {maxBytes : Option Int} {leading : Text}
    {tokens : List Written} (hleading : Trivia leading)
    (hlimit : ∀ limit, (maxBytes <|> limits.maxBytes) = some limit →
      (size (leading ++ Written.text tokens) : Int) ≤ limit) :
    tokenize limits maxBytes (leading ++ Written.text tokens) =
      .ok (Written.placed (size leading) tokens) := by
  rw [tokenize_eq_ok_iff]
  refine ⟨hlimit, ?_⟩
  have hcursor : (Cursor.start (leading ++ Written.text tokens)).rest =
      leading ++ Written.text tokens := rfl
  have hscans := Written.scans tokens _ (Cursor.rest_advance hcursor)
  have hoffset : ((Cursor.start (leading ++ Written.text tokens)).advance leading).offset =
      size leading := Nat.zero_add _
  rw [hoffset] at hscans
  exact hscans.skip_trivia hleading hcursor

/-- A keyword before a comment, and a string with a quote in it. -/
theorem tokenize_written_print : tokenize {} none "\tprint /**/\"é\"\"\n".toList =
    .ok [⟨⟨.print, .none⟩, ⟨1, 6⟩⟩, ⟨⟨.string, .text ['é', '"']⟩, ⟨11, 16⟩⟩] := by
  have hgap : Trivia " /**/".toList :=
    .blank rfl (.blockComment ⟨[], rfl, Pattern.EndsFirst.nil⟩ .nil)
  have hstring : Spells ['"', 'é', '"', '"'] ⟨.string, .text ['é', '"']⟩ :=
    @Spells.string ['é', '"'] (by decide)
  exact @tokenize_written {} none ['\t']
    [⟨"print".toList, " /**/".toList, ⟨.print, .none⟩, .word (by decide), hgap,
        _, _, rfl, rfl, nofun⟩,
      ⟨['"', 'é', '"', '"'], ['\n'], ⟨.string, .text ['é', '"']⟩, hstring, .blank rfl .nil,
        _, _, rfl, rfl, fun _ => rfl⟩]
    (.blank rfl .nil) nofun

end ScriptFront
