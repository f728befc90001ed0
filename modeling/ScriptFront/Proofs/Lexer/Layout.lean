import ScriptFront.Proofs.Lexer.Fault
import ScriptFront.Proofs.Text.Utf8

set_option autoImplicit false

/-! # The layout of a source

A source that is tokenized consists of its tokens and of the gaps around them, and nothing else:
every token stands where its span says and is what the text there spells, and every gap is made of
blanks and comments (`Laid`, `Covers`). -/

namespace ScriptFront

open Utf8

/-! ## Gaps -/

/-- What may stand between tokens: blanks, closed block comments, and line comments with the
    newlines that end them. -/
inductive Trivia : Text → Prop
  | nil : Trivia []
  | blank {c : Char} {gap : Text} : isBlank c → Trivia gap → Trivia (c :: gap)
  | blockComment {comment gap : Text} : Pattern.blockComment.Matches comment → Trivia gap →
      Trivia (comment ++ gap)
  | lineComment {comment gap : Text} : Pattern.lineComment.Matches comment → Trivia gap →
      Trivia (comment ++ '\n' :: gap)

namespace Trivia

theorem blanks {run gap : Text} (hrun : ∀ c ∈ run, isBlank c) (hgap : Trivia gap) :
    Trivia (run ++ gap) := by
  induction run with
  | nil => exact hgap
  | cons c run ih =>
      exact .blank (hrun c List.mem_cons_self)
        (ih fun d hd => hrun d (List.mem_cons_of_mem _ hd))

/-- Comments begin with a slash. -/
theorem of_cons {c : Char} {gap : Text} (h : Trivia (c :: gap)) (hc : c ≠ '/') :
    isBlank c ∧ Trivia gap := by
  -- the text that the rules build is only equal to the one at hand
  generalize htext : c :: gap = text at h
  cases h with
  | nil => exact absurd htext (by simp)
  | blank hblank hgap =>
      obtain ⟨rfl, rfl⟩ := List.cons.inj htext
      exact ⟨hblank, hgap⟩
  | blockComment hcomment =>
      obtain ⟨body, rfl, -⟩ := hcomment
      exact absurd (List.cons.inj htext).1 hc
  | lineComment hcomment =>
      obtain ⟨body, rfl, -⟩ := hcomment
      exact absurd (List.cons.inj htext).1 hc

end Trivia

/-! ## Tokens and gaps -/

/-- From an offset on, the text consists of gaps and of the items in order, each spelled out where
    it stands. Only the last gap may end with a line comment that nothing ends. -/
inductive Laid : Nat → Text → List Item → Prop
  | last {offset : Nat} {gap comment : Text} : Trivia gap →
      comment = [] ∨ Pattern.lineComment.Matches comment → Laid offset (gap ++ comment) []
  | cons {offset : Nat} {gap lexeme rest : Text} {token : Token} {items : List Item} :
      Trivia gap → Spells lexeme token →
      Laid (offset + size gap + size lexeme) rest items →
      Laid offset (gap ++ (lexeme ++ rest))
        (⟨token, ⟨(offset + size gap : Nat), (offset + size gap + size lexeme : Nat)⟩⟩ :: items)

/-- From an offset on, the text consists of gaps and of the items in order, each spelled out where
    it stands, and of a tail at its end. -/
inductive LaidUntil (tail : Nat → Text → Prop) : Nat → Text → List Item → Prop
  | last {offset : Nat} {gap rest : Text} : Trivia gap → tail (offset + size gap) rest →
      LaidUntil tail offset (gap ++ rest) []
  | cons {offset : Nat} {gap lexeme rest : Text} {token : Token} {items : List Item} :
      Trivia gap → Spells lexeme token →
      LaidUntil tail (offset + size gap + size lexeme) rest items →
      LaidUntil tail offset (gap ++ (lexeme ++ rest))
        (⟨token, ⟨(offset + size gap : Nat), (offset + size gap + size lexeme : Nat)⟩⟩ :: items)

/-- From an offset on, the text consists of gaps and of the items, and nothing else. -/
abbrev Paved : Nat → Text → List Item → Prop := LaidUntil fun _ rest => rest = []

/-- Where a text that is scanned may end: a newline is never left over, and a line comment may be
    the last thing. -/
structure IsTail (tail : Nat → Text → Prop) : Prop where
  newline : ∀ {offset : Nat} {rest : Text}, ¬ tail offset ('\n' :: rest)
  comment : ∀ {offset : Nat} {comment : Text}, Pattern.lineComment.Matches comment →
    tail (offset + size comment) [] → tail offset comment

namespace LaidUntil

variable {tail : Nat → Text → Prop} {offset : Nat} {text rest : Text} {items : List Item}

/-- What is trivia before every gap may be put before a layout. -/
theorem prepend {piece : Text} (hpiece : ∀ gap, Trivia gap → Trivia (piece ++ gap))
    (h : LaidUntil tail (offset + size piece) rest items) :
    LaidUntil tail offset (piece ++ rest) items := by
  generalize hoffset : offset + size piece = offset' at h
  cases h with
  | @last _ gap rest hgap htail =>
      have hoffset' : offset' + size gap = offset + size (piece ++ gap) := by
        rw [size_append]; omega
      rw [← List.append_assoc]
      exact .last (hpiece _ hgap) (hoffset' ▸ htail)
  | @cons _ gap lexeme rest token items hgap hspells hrest =>
      have hoffset' : offset' + size gap = offset + size (piece ++ gap) := by
        rw [size_append]; omega
      rw [← List.append_assoc, hoffset']
      rw [hoffset'] at hrest
      exact .cons (hpiece _ hgap) hspells hrest

/-- A newline is in the gap before the first token. -/
theorem of_newline (hend : IsTail tail) (h : LaidUntil tail offset ('\n' :: rest) items) :
    LaidUntil tail (offset + size ['\n']) rest items := by
  generalize htext : '\n' :: rest = text at h
  have hoffset (gap : Text) :
      offset + size ('\n' :: gap) = offset + size ['\n'] + size gap := by simp [Nat.add_assoc]
  cases h with
  | @last _ gap rest' hgap htail =>
      cases gap with
      | nil =>
          obtain rfl : '\n' :: rest = rest' := htext
          exact absurd htail hend.newline
      | cons c gap =>
          obtain ⟨rfl, rfl⟩ := List.cons.inj htext
          exact .last (hgap.of_cons (by decide)).2 (hoffset gap ▸ htail)
  | @cons _ gap lexeme rest' token items hgap hspells hrest =>
      cases gap with
      | nil =>
          obtain ⟨c, others, rfl, hblank, -⟩ := hspells.head
          obtain ⟨rfl, -⟩ := List.cons.inj htext
          exact absurd hblank (by decide)
      | cons c gap =>
          obtain ⟨rfl, rfl⟩ := List.cons.inj htext
          rw [hoffset gap] at hrest ⊢
          exact .cons (hgap.of_cons (by decide)).2 hspells hrest

/-- A line comment may be put before a newline and before the end. -/
theorem lineComment (hend : IsTail tail) {comment : Text}
    (hcomment : Pattern.lineComment.Matches comment) (hrest : ∀ c, rest.head? = some c → c = '\n')
    (h : LaidUntil tail (offset + size comment) rest items) :
    LaidUntil tail offset (comment ++ rest) items := by
  cases rest with
  | nil =>
      generalize htext : ([] : Text) = text at h
      cases h with
      | @last _ gap rest' hgap htail =>
          obtain ⟨rfl, rfl⟩ := List.append_eq_nil_iff.1 htext.symm
          rw [← htext, List.append_nil]
          exact .last .nil (hend.comment hcomment htail)
      | cons _ hspells =>
          have hnil := List.append_eq_nil_iff.1 (List.append_eq_nil_iff.1 htext.symm).2
          exact absurd hnil.1 hspells.ne_nil
  | cons c rest =>
      obtain rfl := hrest c rfl
      have hnewline := h.of_newline hend
      rw [Nat.add_assoc, ← size_append] at hnewline
      have hlaid := hnewline.prepend fun gap hgap => by
        simpa using Trivia.lineComment hcomment hgap
      simpa using hlaid

theorem token {lexeme : Text} {token : Token} (hspells : Spells lexeme token)
    (h : LaidUntil tail (offset + size lexeme) rest items) :
    LaidUntil tail offset (lexeme ++ rest)
      (⟨token, ⟨offset, (offset + size lexeme : Nat)⟩⟩ :: items) :=
  .cons .nil hspells h

/-- What stands before the tail is laid out up to the end, and the tail follows. -/
theorem split (h : LaidUntil tail offset text items) : ∃ before rest, text = before ++ rest ∧
    Paved offset before items ∧ tail (offset + size before) rest := by
  induction h with
  | @last offset gap rest hgap htail =>
      have hpaved : Paved offset (gap ++ []) [] := .last hgap rfl
      rw [List.append_nil] at hpaved
      exact ⟨gap, rest, rfl, hpaved, htail⟩
  | @cons offset gap lexeme rest token items hgap hspells _ ih =>
      obtain ⟨before, rest, rfl, hpaved, htail⟩ := ih
      refine ⟨gap ++ (lexeme ++ before), rest, by simp, .cons hgap hspells hpaved, ?_⟩
      rw [size_append, size_append]
      simpa [Nat.add_assoc] using htail

/-- A layout up to the end of a text, or up to a line comment there. -/
theorem laid (htail : ∀ offset rest, tail offset rest →
    rest = [] ∨ Pattern.lineComment.Matches rest) (h : LaidUntil tail offset text items) :
    Laid offset text items := by
  induction h with
  | last hgap hrest => exact .last hgap (htail _ _ hrest)
  | cons hgap hspells _ ih => exact .cons hgap hspells ih

end LaidUntil

/-- A line comment is taken up to the end of its line. -/
theorem Munches.lineComment_end {text rest : Text}
    (h : Munches (text ++ rest) ⟨.comment, .lineComment⟩ text) :
    ∀ c, rest.head? = some c → c = '\n' := by
  intro c hc
  refine Decidable.byContradiction fun hne => ?_
  obtain ⟨others, rfl⟩ := List.head?_eq_some_iff.1 hc
  obtain ⟨body, rfl, hline⟩ := h.described
  -- otherwise the comment with one more character would have been taken
  have hmatches : Pattern.lineComment.Matches (lineOpen ++ body ++ [c]) :=
    ⟨body ++ [c], List.append_assoc .., by simpa [hline] using fun h => hne h.symm⟩
  have hle := h.longest _ h.mem _ ⟨others, by simp⟩ hmatches
  have hlength : (lineOpen ++ body ++ [c]).length = (lineOpen ++ body).length + 1 :=
    List.length_append
  omega

/-- What is skipped belongs to the gap before the next token. -/
theorem Munches.laid_skipped {rule : Rule} {tail : Nat → Text → Prop} {offset : Nat}
    {text rest : Text} {items : List Item} (h : Munches (text ++ rest) rule text)
    (hkind : rule.kind ∈ LexemeKind.skipped) (hend : IsTail tail)
    (hlaid : LaidUntil tail (offset + size text) rest items) :
    LaidUntil tail offset (text ++ rest) items := by
  rcases Rule.mem_table h.mem with rfl | rfl | rfl | rfl | rfl | rfl | ⟨entry, -, rfl⟩
  · exact hlaid.prepend fun gap hgap => .blanks h.described.2 hgap
  · exact hlaid.prepend fun gap hgap => .blockComment h.described hgap
  · exact hlaid.lineComment hend h.described h.lineComment_end
  all_goals exact absurd hkind (by simp [LexemeKind.skipped, Rule.ofWord])

/-- What is left at the end of a scan: at most a line comment, or what is at fault. -/
def Ends : Option LexError → Nat → Text → Prop
  | none, _, rest => rest = [] ∨ Pattern.lineComment.Matches rest
  | some error, offset, rest => FaultAt offset rest error

theorem isTail_ends (ending : Option LexError) : IsTail (Ends ending) := by
  cases ending with
  | none =>
      refine ⟨fun h => ?_, fun hcomment _ => .inr hcomment⟩
      rcases h with h | ⟨body, h, -⟩
      · exact absurd h (by simp)
      · exact absurd (List.cons.inj h).1 (by decide)
  | some error =>
      refine ⟨fun h => ?_, fun _ h => ?_⟩
      · obtain ⟨c, others, after, heq, hblank, -⟩ := FaultAt.covered h
        obtain ⟨rfl, -⟩ := List.cons.inj heq
        exact hblank (by decide)
      · obtain ⟨c, others, after, heq, -⟩ := FaultAt.covered h
        exact absurd heq (by simp)

/-- What is scanned is laid out from the cursor on, up to where the scan ends. -/
theorem Scans.laidUntil {cursor : Cursor} {items : List Item} {ending : Option LexError}
    (h : Scans cursor items ending) :
    LaidUntil (Ends ending) cursor.offset cursor.rest items := by
  induction h with
  | atEnd hrest => rw [hrest]; exact .last .nil (.inl rfl)
  | outOfRange hlexeme hdigits hover =>
      exact .last .nil (Lexer.faultAt_of_overflow hlexeme hdigits hover)
  | noLexeme hrest hlexeme => exact .last .nil (Lexer.faultAt_of_lexemeAt hrest hlexeme)
  | @token cursor kind text token items ending hlexeme hspells _ ih =>
      obtain ⟨rule, -, hmunches⟩ := Lexer.munches_of_lexemeAt hlexeme
      rw [← List.prefix_iff_eq_append.1 hmunches.begins]
      exact ih.token hspells
  | @skipped cursor kind text items ending hlexeme hkind _ ih =>
      obtain ⟨rule, rfl, hmunches⟩ := Lexer.munches_of_lexemeAt hlexeme
      have hsplit := List.prefix_iff_eq_append.1 hmunches.begins
      rw [← hsplit] at hmunches ⊢
      exact hmunches.laid_skipped hkind (isTail_ends ending) ih

/-- What is scanned without an error is laid out to the end. -/
theorem Scans.laid {cursor : Cursor} {items : List Item} (h : Scans cursor items none) :
    Laid cursor.offset cursor.rest items :=
  h.laidUntil.laid fun _ _ hrest => hrest

/-! ## Where the tokens stand -/

namespace Laid

variable {offset : Nat} {text : Text} {items : List Item}

/-- The spans are not empty and lie within the text. -/
theorem inside (h : Laid offset text items) : ∀ item ∈ items, (offset : Int) ≤ item.span.lo ∧
    item.span.lo < item.span.hi ∧ item.span.hi ≤ (offset + size text : Nat) := by
  induction h with
  | last => simp
  | @cons offset gap lexeme rest token items _ hspells _ ih =>
      have hpos := size_pos hspells.ne_nil
      intro item hitem
      rw [size_append, size_append]
      rcases List.mem_cons.1 hitem with rfl | hitem
      · simp only
        omega
      · obtain ⟨hlo, hlt, hhi⟩ := ih item hitem
        omega

/-- No span begins before those of the tokens before it have ended. -/
theorem ordered (h : Laid offset text items) :
    items.Pairwise fun a b => a.span.hi ≤ b.span.lo := by
  induction h with
  | last => exact .nil
  | cons _ _ hrest ih => exact .cons (fun item hitem => (hrest.inside item hitem).1) ih

/-- Every span covers what spells its token. -/
theorem spelled (h : Laid offset text items) (read : Text) (hread : size read = offset) :
    ∀ item ∈ items, ∃ before lexeme after, read ++ text = before ++ lexeme ++ after ∧
      item.span = ⟨size before, (size before + size lexeme : Nat)⟩ ∧
      Spells lexeme item.token := by
  induction h generalizing read with
  | last => simp
  | @cons offset gap lexeme rest token items _ hspells _ ih =>
      intro item hitem
      rcases List.mem_cons.1 hitem with rfl | hitem
      · refine ⟨read ++ gap, lexeme, rest, by simp, ?_, hspells⟩
        rw [size_append, hread]
      · obtain ⟨before, lexeme', after, htext, hspan, hspells'⟩ :=
          ih (read ++ gap ++ lexeme) (by rw [size_append, size_append, hread]) item hitem
        exact ⟨before, lexeme', after, by rw [← htext]; simp, hspan, hspells'⟩

end Laid

/-- The spans of what is scanned from the start of a source cover what spells the tokens, even if an
    error ends them. -/
theorem Scans.spelled {source : Text} {items : List Item} {ending : Option LexError}
    (h : Scans (Cursor.start source) items ending) :
    ∀ item ∈ items, ∃ before lexeme after, source = before ++ lexeme ++ after ∧
      item.span = ⟨size before, (size before + size lexeme : Nat)⟩ ∧
      Spells lexeme item.token := by
  have hlaid : LaidUntil (Ends ending) 0 source items := h.laidUntil
  obtain ⟨paved, rest, rfl, hpaved, -⟩ := hlaid.split
  intro item hitem
  obtain ⟨before, lexeme, after, htext, hspan, hspells⟩ :=
    (hpaved.laid fun _ _ => .inl).spelled [] rfl item hitem
  have htext : paved = before ++ lexeme ++ after := htext
  exact ⟨before, lexeme, after ++ rest, by rw [htext, List.append_assoc], hspan, hspells⟩

/-- The items cover the source: with the gaps around them they make up the whole of it, their spans
    follow each other, and every span is cut out of the source as what spells its token. -/
structure Covers (source : Text) (items : List Item) : Prop where
  laid : Laid 0 source items
  inside : ∀ item ∈ items, 0 ≤ item.span.lo ∧ item.span.lo < item.span.hi ∧
    item.span.hi ≤ size source
  ordered : items.Pairwise fun a b => a.span.hi ≤ b.span.lo
  spelled : ∀ item ∈ items, ∃ before lexeme after, source = before ++ lexeme ++ after ∧
    item.span = ⟨size before, (size before + size lexeme : Nat)⟩ ∧
    item.span.slice? source = some lexeme ∧ Spells lexeme item.token

/-- **The tokens of a source cover it.** -/
theorem covers_of_tokenize_eq_ok {limits : Limits} {maxBytes : Option Int} {source : Text}
    {items : List Item} (h : tokenize limits maxBytes source = .ok items) :
    Covers source items := by
  obtain ⟨-, hscans⟩ := tokenize_eq_ok_iff.1 h
  have hlaid : Laid 0 source items := hscans.laid
  refine ⟨hlaid, fun item hitem => ?_, hlaid.ordered, fun item hitem => ?_⟩
  · simpa using hlaid.inside item hitem
  · obtain ⟨before, lexeme, after, hsource, hspan, hspells⟩ :=
      hlaid.spelled [] rfl item hitem
    have hsource : source = before ++ lexeme ++ after := hsource
    refine ⟨before, lexeme, after, hsource, hspan, ?_, hspells⟩
    rw [hspan, hsource]
    exact Span.slice?_append before lexeme after

/-- A string with a character of two bytes and a name right behind it, and an integer behind a
    comment. -/
theorem covers_commented_string :
    Covers "/**/\"é\"x /*+*/ 007;// ü".toList
      [⟨⟨.string, .text ['é']⟩, ⟨4, 8⟩⟩, ⟨⟨.identifier, .text ['x']⟩, ⟨8, 9⟩⟩,
        ⟨⟨.integer, .integer 7⟩, ⟨16, 19⟩⟩, ⟨⟨.semicolon, .none⟩, ⟨19, 20⟩⟩] := by
  have hrun : tokenize {} none "/**/\"é\"x /*+*/ 007;// ü".toList =
      .ok [⟨⟨.string, .text ['é']⟩, ⟨4, 8⟩⟩, ⟨⟨.identifier, .text ['x']⟩, ⟨8, 9⟩⟩,
        ⟨⟨.integer, .integer 7⟩, ⟨16, 19⟩⟩, ⟨⟨.semicolon, .none⟩, ⟨19, 20⟩⟩] := by rfl
  exact covers_of_tokenize_eq_ok hrun

end ScriptFront
