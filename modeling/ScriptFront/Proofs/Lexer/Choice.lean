import ScriptFront.Proofs.Lexer.Spelling
import ScriptFront.Proofs.Run

set_option autoImplicit false

/-! # The choice of a lexeme

What the lexer makes of the unread text before it depends on that text alone (`Chosen`): if a block
comment is opened there and never closed, it says so; if no rule describes any beginning of the
text, the first character is unexpected; and else the lexeme is the longest beginning that any rule
describes, by the earliest of the rules that describe it. The opening of a comment has to be looked
at first, since its first character is a lexeme too. -/

namespace ScriptFront

/-- A block comment is opened, and there is no closing behind the opening. -/
def LeftOpen (input : Text) : Prop := ∃ after, input = blockOpen ++ after ∧ ¬ blockClose <:+: after

/-- No rule describes any beginning of the input, short of the empty one. -/
def Undescribed (input : Text) : Prop :=
  ∀ rule ∈ Rule.table, ∀ text, text ≠ [] → text <+: input → ¬ rule.pattern.Matches text

variable {input : Text}

theorem Munches.not_undescribed {rule : Rule} {text : Text} (h : Munches input rule text) :
    ¬ Undescribed input := by
  intro hundescribed
  exact hundescribed rule h.mem text h.described.ne_nil h.begins h.described

theorem undescribed_iff : Undescribed input ↔ Rule.select input = none := by
  constructor
  · intro hundescribed
    refine Option.eq_none_iff_forall_ne_some.2 fun found hfound => ?_
    obtain ⟨text, -, hmunches⟩ := Rule.select_eq_some hfound
    exact hmunches.not_undescribed hundescribed
  · intro hnone rule hmem text _ hbegins hmatches
    exact Rule.select_ne_none hmem hmatches hbegins hnone

/-! ## Comments that are opened -/

/-- The slash of an opening is described, be the comment closed or not. -/
theorem not_undescribed_of_opened (hopen : blockOpen <+: input) : ¬ Undescribed input := by
  intro hundescribed
  obtain ⟨after, rfl⟩ := hopen
  have hslash : Rule.ofWord (['/'], .slash) ∈ Rule.table := by decide
  have hbegins : ['/'] <+: blockOpen ++ after := ⟨'*' :: after, rfl⟩
  exact hundescribed _ hslash ['/'] (by simp) hbegins ⟨rfl, by simp⟩

/-- A closing that stands somewhere in a text closes a comment before it for the first time. -/
theorem exists_blockComment {after : Text} (h : blockClose <:+: after) :
    ∃ comment, Pattern.blockComment.Matches comment ∧ comment <+: blockOpen ++ after := by
  obtain ⟨before, others, hafter⟩ := h
  obtain ⟨n, hclosing⟩ := Pattern.closing?_isSome ⟨others, hafter⟩
  obtain ⟨body, hbegins, -, hfirst⟩ := Pattern.closing?_eq_some hclosing
  refine ⟨blockOpen ++ body ++ blockClose, ⟨body, rfl, hfirst⟩, ?_⟩
  rw [List.append_assoc]
  exact (List.prefix_append_right_inj blockOpen).2 hbegins

/-- What is taken from a text that begins with a block comment is a comment. -/
theorem Munches.comment_of_blockComment {text comment : Text} {rule : Rule}
    (h : Munches input rule text) (hcomment : Pattern.blockComment.Matches comment)
    (hbegins : comment <+: input) : rule.kind = .comment := by
  obtain ⟨more, rfl⟩ := h.extends ⟨.comment, .blockComment⟩ (by decide) hbegins hcomment
  obtain ⟨body, rfl, -⟩ := hcomment
  rcases Rule.of_slash h.mem h.described with ⟨rfl, -⟩ | ⟨rfl, -⟩ <;> rfl

/-- Where a comment is opened and not left open, only a comment can be taken. -/
theorem Munches.comment_of_opened {rule : Rule} {text : Text} (h : Munches input rule text)
    (hopen : blockOpen <+: input) (hclosed : ¬ LeftOpen input) : rule.kind = .comment := by
  obtain ⟨after, rfl⟩ := hopen
  by_cases hclose : blockClose <:+: after
  · obtain ⟨comment, hcomment, hbegins⟩ := exists_blockComment hclose
    exact h.comment_of_blockComment hcomment hbegins
  · exact absurd ⟨after, rfl, hclose⟩ hclosed

namespace LeftOpen

theorem opened (h : LeftOpen input) : blockOpen <+: input := by
  obtain ⟨after, rfl, -⟩ := h
  exact List.prefix_append ..

theorem not_undescribed (h : LeftOpen input) : ¬ Undescribed input :=
  not_undescribed_of_opened h.opened

/-- What is taken from a comment that is left open is no comment. -/
theorem not_comment {rule : Rule} {text : Text} (h : LeftOpen input)
    (hmunches : Munches input rule text) : rule.kind ≠ .comment := by
  obtain ⟨after, rfl, hclose⟩ := h
  intro hkind
  have hbegins := hmunches.begins
  have hdescribed := hmunches.described
  rcases Rule.mem_table hmunches.mem with rfl | rfl | rfl | rfl | rfl | rfl | ⟨entry, -, rfl⟩
  case inr.inl =>
    obtain ⟨body, rfl, -⟩ := hdescribed
    rw [List.append_assoc] at hbegins
    obtain ⟨others, hothers⟩ := (List.prefix_append_right_inj blockOpen).1 hbegins
    exact hclose ⟨body, others, hothers⟩
  case inr.inr.inl =>
    obtain ⟨body, rfl, -⟩ := hdescribed
    obtain ⟨others, hothers⟩ := hbegins
    have hslash : '/' = '*' := (List.cons.inj (List.cons.inj hothers).2).1
    exact absurd hslash (by decide)
  all_goals exact absurd hkind (by simp [Rule.ofWord])

end LeftOpen

/-- A comment is left open if what is found where it is opened is no comment. -/
theorem select_not_comment_iff (hopen : blockOpen <+: input) :
    (Rule.select input).map (·.1.kind) ≠ some .comment ↔ LeftOpen input := by
  constructor
  · intro hkind
    by_contra hclosed
    cases hfound : Rule.select input with
    | none => exact not_undescribed_of_opened hopen (undescribed_iff.2 hfound)
    | some found =>
        obtain ⟨text, -, hmunches⟩ := Rule.select_eq_some hfound
        rw [hfound] at hkind
        exact hkind (congrArg some (hmunches.comment_of_opened hopen hclosed))
  · intro hleft hkind
    obtain ⟨found, hfound, hkind⟩ := Option.map_eq_some_iff.1 hkind
    obtain ⟨text, -, hmunches⟩ := Rule.select_eq_some hfound
    exact hleft.not_comment hmunches hkind

/-! ## The lexeme at a cursor -/

/-- What is to be made of the text at a cursor. -/
inductive Chosen (cursor : Cursor) : Except LexError (LexemeKind × Text) → Prop
  | leftOpen : LeftOpen cursor.rest →
      Chosen cursor (.error ⟨.unterminatedComment, blockOpen, some cursor.remainingSpan⟩)
  | undescribed : Undescribed cursor.rest →
      Chosen cursor (.error ⟨.unexpectedCharacter, cursor.current?.toList,
        some (cursor.spanOf cursor.current?.toList)⟩)
  | taken {rule : Rule} {text : Text} : ¬ LeftOpen cursor.rest → Munches cursor.rest rule text →
      Chosen cursor (.ok (rule.kind, text))

/-- There is only one thing to be made of a text. -/
theorem Chosen.unique {cursor : Cursor} {result result' : Except LexError (LexemeKind × Text)}
    (h : Chosen cursor result) (h' : Chosen cursor result') : result = result' := by
  cases h with
  | leftOpen hopen =>
      cases h' with
      | leftOpen => rfl
      | undescribed hundescribed => exact absurd hundescribed hopen.not_undescribed
      | taken hclosed => exact absurd hopen hclosed
  | undescribed hundescribed =>
      cases h' with
      | leftOpen hopen => exact absurd hundescribed hopen.not_undescribed
      | undescribed => rfl
      | taken _ hmunches => exact absurd hundescribed hmunches.not_undescribed
  | taken hclosed hmunches =>
      cases h' with
      | leftOpen hopen => exact absurd hopen hclosed
      | undescribed hundescribed => exact absurd hundescribed hmunches.not_undescribed
      | taken _ hmunches' =>
          obtain ⟨rfl, rfl⟩ := hmunches.unique hmunches'
          rfl

namespace Lexer

theorem lexemeAt_chosen (cursor : Cursor) : Chosen cursor (lexemeAt cursor) := by
  unfold lexemeAt
  simp only
  split
  · next hunclosed =>
      have hopened := List.isPrefixOf_iff_prefix.1 hunclosed.1
      exact .leftOpen ((select_not_comment_iff hopened).1 hunclosed.2)
  · next hclosed =>
      have hnot : ¬ LeftOpen cursor.rest := by
        intro hopen
        have hopened := hopen.opened
        exact hclosed ⟨List.isPrefixOf_iff_prefix.2 hopened,
          (select_not_comment_iff hopened).2 hopen⟩
      split
      · next rule n hfound =>
          obtain ⟨text, rfl, hmunches⟩ := Rule.select_eq_some hfound
          rw [← List.prefix_iff_eq_take.1 hmunches.begins]
          exact .taken hnot hmunches
      · next hnone => exact .undescribed (undescribed_iff.2 hnone)

theorem lexemeAt_eq_iff {cursor : Cursor} {result : Except LexError (LexemeKind × Text)} :
    lexemeAt cursor = result ↔ Chosen cursor result := by
  constructor
  · rintro rfl
    exact lexemeAt_chosen cursor
  · exact (lexemeAt_chosen cursor).unique

/-- The lexeme at a cursor is what a rule of its kind takes from the unread text. -/
theorem munches_of_lexemeAt {cursor : Cursor} {kind : LexemeKind} {text : Text}
    (h : lexemeAt cursor = .ok (kind, text)) :
    ∃ rule, rule.kind = kind ∧ Munches cursor.rest rule text := by
  have hchosen := lexemeAt_eq_iff.1 h
  cases hchosen with
  | @taken rule _ _ hmunches => exact ⟨rule, rfl, hmunches⟩

/-- Where a block comment is opened, only a comment can be the lexeme. -/
theorem comment_of_blockOpen {cursor : Cursor} {kind : LexemeKind} {text : Text}
    (h : lexemeAt cursor = .ok (kind, text)) (hopen : blockOpen <+: cursor.rest) :
    kind = .comment := by
  have hchosen := lexemeAt_eq_iff.1 h
  cases hchosen with
  | taken hclosed hmunches => exact hmunches.comment_of_opened hopen hclosed

/-- What a rule takes is the lexeme, unless it is a comment that is left open. -/
theorem lexemeAt_of_munches {cursor : Cursor} {rule : Rule} {text : Text}
    (h : Munches cursor.rest rule text)
    (hopen : blockOpen <+: cursor.rest → rule.kind = .comment) :
    lexemeAt cursor = .ok (rule.kind, text) := by
  refine lexemeAt_eq_iff.2 (.taken ?_ h)
  intro hleft
  exact hleft.not_comment h (hopen hleft.opened)

/-- What is sure to be taken is the lexeme. -/
theorem lexemeAt_taken {cursor : Cursor} {piece rest : Text} (rule : Rule)
    (hmem : rule ∈ Rule.table) (hmatches : rule.pattern.Matches piece)
    (hcursor : cursor.rest = piece ++ rest)
    (hopen : blockOpen <+: piece ++ rest → rule.kind = .comment)
    (htaken : ∀ other text, Munches (piece ++ rest) other text → other = rule ∧ text = piece) :
    lexemeAt cursor = .ok (rule.kind, piece) := by
  rw [← hcursor] at hopen htaken
  obtain ⟨other, text, hmunches⟩ := Rule.exists_munches hmem hmatches ⟨rest, hcursor.symm⟩
  obtain ⟨rfl, rfl⟩ := htaken other text hmunches
  exact lexemeAt_of_munches hmunches hopen

/-! ## Matching a rule -/

theorem matchRule_ok {lexer : Lexer} {found : LexemeKind × Text}
    (h : lexemeAt lexer.cursor = .ok found) : matchRule lexer = .ok found lexer := by
  have hget : (get : Lexing Lexer) lexer = .ok lexer lexer := rfl
  unfold matchRule
  rw [Run.bind_of_ok hget, h]
  rfl

theorem matchRule_error {lexer : Lexer} {error : LexError}
    (h : lexemeAt lexer.cursor = .error error) :
    matchRule lexer = .error error { lexer with done := true } := by
  have hget : (get : Lexing Lexer) lexer = .ok lexer lexer := rfl
  unfold matchRule
  rw [Run.bind_of_ok hget, h]
  rfl

theorem matchRule_eq_ok_iff {lexer later : Lexer} {found : LexemeKind × Text} :
    matchRule lexer = .ok found later ↔ Chosen lexer.cursor (.ok found) ∧ later = lexer := by
  rw [← lexemeAt_eq_iff]
  cases hlexeme : lexemeAt lexer.cursor with
  | ok found' => simp [matchRule_ok hlexeme, eq_comm]
  | error error => simp [matchRule_error hlexeme]

theorem matchRule_eq_error_iff {lexer later : Lexer} {error : LexError} :
    matchRule lexer = .error error later ↔
      Chosen lexer.cursor (.error error) ∧ later = { lexer with done := true } := by
  rw [← lexemeAt_eq_iff]
  cases hlexeme : lexemeAt lexer.cursor with
  | ok found => simp [matchRule_ok hlexeme]
  | error error' => simp [matchRule_error hlexeme, eq_comm]

/-- **The longest lexeme, by the earliest rule.** At every place of every source the lexer takes the
    longest beginning of the unread text that any rule describes, which is not empty, by the
    earliest rule that describes it, and stays where it is. It reports a comment that is not
    terminated exactly if one is opened there and not closed, and an unexpected character exactly
    if no rule describes any beginning of the text. -/
theorem matchRule_longest (lexer : Lexer) :
    (∀ kind text later, matchRule lexer = .ok (kind, text) later ↔
      ¬ LeftOpen lexer.cursor.rest ∧ text ≠ [] ∧
        (∃ rule, rule.kind = kind ∧ Munches lexer.cursor.rest rule text) ∧ later = lexer) ∧
    (∀ error later,
      matchRule lexer = .error error later ∧ error.fault = .unterminatedComment ↔
      LeftOpen lexer.cursor.rest ∧
        error = ⟨.unterminatedComment, blockOpen, some lexer.cursor.remainingSpan⟩ ∧
        later = { lexer with done := true }) ∧
    ∀ error later,
      matchRule lexer = .error error later ∧ error.fault = .unexpectedCharacter ↔
      Undescribed lexer.cursor.rest ∧
        error = ⟨.unexpectedCharacter, lexer.cursor.current?.toList,
          some (lexer.cursor.spanOf lexer.cursor.current?.toList)⟩ ∧
        later = { lexer with done := true } := by
  refine ⟨fun kind text later => ?_, fun error later => ?_, fun error later => ?_⟩
  · rw [matchRule_eq_ok_iff]
    constructor
    · rintro ⟨hchosen, rfl⟩
      cases hchosen with
      | @taken rule _ hclosed hmunches =>
          exact ⟨hclosed, hmunches.described.ne_nil, ⟨rule, rfl, hmunches⟩, rfl⟩
    · rintro ⟨hclosed, -, ⟨rule, rfl, hmunches⟩, rfl⟩
      exact ⟨.taken hclosed hmunches, rfl⟩
  · rw [matchRule_eq_error_iff]
    constructor
    · rintro ⟨⟨hchosen, rfl⟩, hfault⟩
      cases hchosen with
      | leftOpen hopen => exact ⟨hopen, rfl, rfl⟩
      | undescribed => exact absurd hfault (by simp)
    · rintro ⟨hopen, rfl, rfl⟩
      exact ⟨⟨.leftOpen hopen, rfl⟩, rfl⟩
  · rw [matchRule_eq_error_iff]
    constructor
    · rintro ⟨⟨hchosen, rfl⟩, hfault⟩
      cases hchosen with
      | leftOpen => exact absurd hfault (by simp)
      | undescribed hundescribed => exact ⟨hundescribed, rfl, rfl⟩
    · rintro ⟨hundescribed, rfl, rfl⟩
      exact ⟨⟨.undescribed hundescribed, rfl⟩, rfl⟩

/-- A keyword that goes on is no keyword. -/
example : lexemeAt (.start "printer".toList) = .ok (.token .identifier, "printer".toList) := by
  decide +kernel

end Lexer

end ScriptFront
