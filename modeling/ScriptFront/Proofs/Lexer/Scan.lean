import ScriptFront.Proofs.Lexer.Choice

set_option autoImplicit false

/-! # Scanning a source

`Scans` tells what a lexer gives from a place on, lexeme by lexeme: the tokens in order and the
error that ends them, if one does. A lexer that is not done scans the text before it
(`Lexer.drain_scans`), and there is only one way to scan a text (`Scans.unique`). -/

namespace ScriptFront

/-- The tokens from a place on, and the error that ends them. -/
inductive Scans : Cursor → List Item → Option LexError → Prop
  | atEnd {cursor : Cursor} : cursor.rest = [] → Scans cursor [] none
  | skipped {cursor : Cursor} {kind : LexemeKind} {text : Text} {items : List Item}
      {ending : Option LexError} : Lexer.lexemeAt cursor = .ok (kind, text) →
      kind ∈ LexemeKind.skipped → Scans (cursor.advance text) items ending →
      Scans cursor items ending
  | token {cursor : Cursor} {kind : TokenKind} {text : Text} {token : Token}
      {items : List Item} {ending : Option LexError} :
      Lexer.lexemeAt cursor = .ok (.token kind, text) → Spells text token →
      Scans (cursor.advance text) items ending →
      Scans cursor (⟨token, cursor.spanOf text⟩ :: items) ending
  | outOfRange {cursor : Cursor} {text : Text} :
      Lexer.lexemeAt cursor = .ok (.token .integer, text) → Pattern.digits.Matches text →
      intMax < (Numeral.value text : Int) →
      Scans cursor [] (some ⟨.integerOverflow, text, some (cursor.spanOf text)⟩)
  | noLexeme {cursor : Cursor} {error : LexError} : cursor.rest ≠ [] →
      Lexer.lexemeAt cursor = .error error → Scans cursor [] (some error)

/-- Tokens are not skipped. -/
theorem token_not_skipped (kind : TokenKind) : .token kind ∉ LexemeKind.skipped := by
  simp [LexemeKind.skipped]

namespace Lexer

/-- A lexer behind a lexeme. -/
def behind (lexer : Lexer) (text : Text) : Lexer :=
  { lexer with cursor := lexer.cursor.advance text }

section Next

variable {lexer : Lexer} {fuel : Nat}

theorem consume_eq (text : Text) :
    consume text lexer = .ok (lexer.cursor.spanOf text) (lexer.behind text) := rfl

theorem nextWithin_atEnd (hdone : lexer.done = false) (hrest : lexer.cursor.rest = []) :
    nextWithin (fuel + 1) lexer = .ok none { lexer with done := true } := by
  have hget : (get : Lexing Lexer) lexer = .ok lexer lexer := rfl
  have hend : lexer.cursor.atEnd = true := by rw [Cursor.atEnd, hrest]; rfl
  unfold nextWithin
  rw [Run.bind_of_ok hget, if_neg (by simp [hdone]), if_pos hend]
  rfl

theorem nextWithin_noLexeme {error : LexError} (hdone : lexer.done = false)
    (hrest : lexer.cursor.rest ≠ []) (h : lexemeAt lexer.cursor = .error error) :
    nextWithin (fuel + 1) lexer = .error error { lexer with done := true } := by
  have hget : (get : Lexing Lexer) lexer = .ok lexer lexer := rfl
  have hend : lexer.cursor.atEnd = false := by simpa [Cursor.atEnd] using hrest
  rw [nextWithin, Run.bind_of_ok hget, if_neg (by simp [hdone]), if_neg (by simp [hend]),
    Run.bind_of_error (matchRule_error h)]

/-- Before the end a lexer takes a lexeme, and goes on behind it. -/
theorem nextWithin_lexeme {kind : LexemeKind} {text : Text} (hdone : lexer.done = false)
    (hrest : lexer.cursor.rest ≠ []) (h : lexemeAt lexer.cursor = .ok (kind, text)) :
    nextWithin (fuel + 1) lexer = (match kind with
      | .token kind => do
        match ← makeToken kind text (some (lexer.cursor.spanOf text)) with
        | .ok token =>
          modify fun (lexer : Lexer) => { lexer with emitted := lexer.emitted + 1 }
          pure (some ⟨token, lexer.cursor.spanOf text⟩)
        | .error _ => pure none
      | _ => nextWithin fuel : Lexing (Option Item)) (lexer.behind text) := by
  have hget : (get : Lexing Lexer) lexer = .ok lexer lexer := rfl
  have hend : lexer.cursor.atEnd = false := by simpa [Cursor.atEnd] using hrest
  rw [nextWithin, Run.bind_of_ok hget, if_neg (by simp [hdone]), if_neg (by simp [hend]),
    Run.bind_of_ok (matchRule_ok h)]
  refine (Run.bind_of_ok (consume_eq text)).trans ?_
  cases kind <;> rfl

theorem nextWithin_skipped {kind : LexemeKind} {text : Text} (hdone : lexer.done = false)
    (hrest : lexer.cursor.rest ≠ []) (h : lexemeAt lexer.cursor = .ok (kind, text))
    (hkind : kind ∈ LexemeKind.skipped) :
    nextWithin (fuel + 1) lexer = nextWithin fuel (lexer.behind text) := by
  rw [nextWithin_lexeme hdone hrest h]
  cases kind with
  | token kind => exact absurd hkind (token_not_skipped kind)
  | whitespace | comment => rfl

theorem nextWithin_token {kind : TokenKind} {text : Text} {token : Token}
    (hdone : lexer.done = false) (hrest : lexer.cursor.rest ≠ [])
    (h : lexemeAt lexer.cursor = .ok (.token kind, text))
    (htoken : makeToken kind text (some (lexer.cursor.spanOf text)) (lexer.behind text) =
      .ok (.ok token) (lexer.behind text)) :
    nextWithin (fuel + 1) lexer = .ok (some ⟨token, lexer.cursor.spanOf text⟩)
      { lexer.behind text with emitted := lexer.emitted + 1 } := by
  rw [nextWithin_lexeme hdone hrest h]
  exact Run.bind_of_ok htoken

theorem nextWithin_outOfRange {kind : TokenKind} {text : Text} {error : LexError}
    (hdone : lexer.done = false) (hrest : lexer.cursor.rest ≠ [])
    (h : lexemeAt lexer.cursor = .ok (.token kind, text))
    (herror : makeToken kind text (some (lexer.cursor.spanOf text)) (lexer.behind text) =
      .error error { lexer.behind text with done := true }) :
    nextWithin (fuel + 1) lexer = .error error { lexer.behind text with done := true } := by
  rw [nextWithin_lexeme hdone hrest h]
  exact Run.bind_of_error herror

end Next

theorem length_behind_lt {lexer : Lexer} {kind : LexemeKind} {text : Text}
    (h : lexemeAt lexer.cursor = .ok (kind, text)) :
    (lexer.behind text).cursor.rest.length < lexer.cursor.rest.length := by
  obtain ⟨rule, -, hmunches⟩ := munches_of_lexemeAt h
  have hpos := List.length_pos_iff.2 hmunches.described.ne_nil
  have hle := hmunches.begins.length_le
  show (lexer.cursor.rest.drop text.length).length < _
  rw [List.length_drop]
  omega

/-- The next token is the first one that a scan gives, and behind it the scan goes on. -/
theorem nextWithin_scans (fuel : Nat) : ∀ lexer : Lexer, lexer.done = false →
    lexer.cursor.rest.length < fuel →
    Run.Ensures
      (fun item lexer' => match item with
        | none => Scans lexer.cursor [] none ∧ lexer'.done = true
        | some item => lexer'.done = false ∧
          lexer'.cursor.rest.length < lexer.cursor.rest.length ∧
          ∀ items ending, Scans lexer'.cursor items ending →
            Scans lexer.cursor (item :: items) ending)
      (fun error => Scans lexer.cursor [] (some error)) (nextWithin fuel lexer) := by
  induction fuel with
  | zero => intro lexer _ hfuel; exact absurd hfuel (by omega)
  | succ fuel ih =>
      intro lexer hdone hfuel
      by_cases hrest : lexer.cursor.rest = []
      · rw [nextWithin_atEnd hdone hrest]
        exact ⟨.atEnd hrest, rfl⟩
      cases h : lexemeAt lexer.cursor with
      | error error =>
          rw [nextWithin_noLexeme hdone hrest h]
          exact .noLexeme hrest h
      | ok found =>
          obtain ⟨kind, text⟩ := found
          have hlt := length_behind_lt h
          by_cases hkind : kind ∈ LexemeKind.skipped
          · -- the rest of the run starts behind the lexeme, and so does its scan
            rw [nextWithin_skipped hdone hrest h hkind]
            have hnext := ih (lexer.behind text) hdone (by omega)
            cases hrun : nextWithin fuel (lexer.behind text) with
            | error error lexer' =>
                rw [hrun] at hnext
                exact .skipped h hkind hnext
            | ok item lexer' =>
                rw [hrun] at hnext
                cases item with
                | none => exact ⟨.skipped h hkind hnext.1, hnext.2⟩
                | some item =>
                    obtain ⟨hdone', hlt', hscans⟩ := hnext
                    exact ⟨hdone', Nat.lt_trans hlt' hlt,
                      fun items ending hrest => .skipped h hkind (hscans items ending hrest)⟩
          · obtain ⟨kind, rfl⟩ : ∃ token, kind = .token token := by
              cases kind with
              | token kind => exact ⟨kind, rfl⟩
              | whitespace | comment => exact absurd (by decide) hkind
            obtain ⟨rule, hrule, hmunches⟩ := munches_of_lexemeAt h
            rcases hmunches.makeToken hrule with
              ⟨token, hspells, hmake⟩ | ⟨rfl, hdigits, hover, hmake⟩
            · rw [nextWithin_token hdone hrest h (hmake _ _)]
              exact ⟨hdone, hlt, fun items ending hrest => .token h hspells hrest⟩
            · rw [nextWithin_outOfRange hdone hrest h (hmake _ _)]
              exact .outOfRange h hdigits hover

theorem drainWithin_scans (fuel : Nat) : ∀ lexer : Lexer, lexer.done = false →
    lexer.cursor.rest.length < fuel →
    Scans lexer.cursor (drainWithin fuel lexer).1.1 (drainWithin fuel lexer).1.2 := by
  induction fuel with
  | zero => intro lexer _ hfuel; exact absurd hfuel (by omega)
  | succ fuel ih =>
      intro lexer hdone hfuel
      have hnext := nextWithin_scans (lexer.cursor.rest.length + 1) lexer hdone
        (Nat.lt_succ_self _)
      have hrun : nextToken lexer = nextWithin (lexer.cursor.rest.length + 1) lexer := rfl
      rw [← hrun] at hnext
      unfold drainWithin
      cases h : nextToken lexer with
      | error error lexer' => rw [h] at hnext; exact hnext
      | ok item lexer' =>
          rw [h] at hnext
          cases item with
          | none => exact hnext.1
          | some item =>
              obtain ⟨hdone', hlt, hscans⟩ := hnext
              exact hscans _ _ (ih lexer' hdone' (by omega))

/-- A lexer that is not done gives what is scanned from its cursor on. -/
theorem drain_scans (lexer : Lexer) (hdone : lexer.done = false) :
    Scans lexer.cursor lexer.drain.1.1 lexer.drain.1.2 :=
  drainWithin_scans _ lexer hdone (Nat.lt_succ_self _)

end Lexer

namespace Scans

/-- There is no lexeme at the end of a text. -/
theorem rest_ne_nil {cursor : Cursor} {found : LexemeKind × Text}
    (h : Lexer.lexemeAt cursor = .ok found) : cursor.rest ≠ [] := by
  obtain ⟨rule, -, hmunches⟩ := Lexer.munches_of_lexemeAt h
  intro hrest
  have hbegins := hmunches.begins
  rw [hrest, List.prefix_nil] at hbegins
  exact hmunches.described.ne_nil hbegins

theorem lexeme_inj {cursor : Cursor} {kind kind' : LexemeKind} {text text' : Text}
    (h : Lexer.lexemeAt cursor = .ok (kind, text))
    (h' : Lexer.lexemeAt cursor = .ok (kind', text')) : kind = kind' ∧ text = text' := by
  rw [h] at h'
  exact Prod.mk.inj (Except.ok.inj h')

/-- What a scan does at a lexeme: it goes on behind it, with or without a token, or it ends with an
    integer that is out of range. -/
theorem of_lexeme {cursor : Cursor} {kind : LexemeKind} {text : Text} {items : List Item}
    {ending : Option LexError} (hlexeme : Lexer.lexemeAt cursor = .ok (kind, text))
    (h : Scans cursor items ending) :
    (kind ∈ LexemeKind.skipped ∧ Scans (cursor.advance text) items ending) ∨
    (∃ token others, kind ∉ LexemeKind.skipped ∧ Spells text token ∧
      items = ⟨token, cursor.spanOf text⟩ :: others ∧
      Scans (cursor.advance text) others ending) ∨
    (kind ∉ LexemeKind.skipped ∧ Pattern.digits.Matches text ∧
      intMax < (Numeral.value text : Int) ∧ items = [] ∧
      ending = some ⟨.integerOverflow, text, some (cursor.spanOf text)⟩) := by
  cases h with
  | atEnd hrest => exact absurd hrest (rest_ne_nil hlexeme)
  | noLexeme _ herror => exact absurd (hlexeme.symm.trans herror) (by simp)
  | skipped hlexeme' hkind hscans =>
      obtain ⟨rfl, rfl⟩ := lexeme_inj hlexeme hlexeme'
      exact .inl ⟨hkind, hscans⟩
  | token hlexeme' hspells hscans =>
      obtain ⟨rfl, rfl⟩ := lexeme_inj hlexeme hlexeme'
      exact .inr (.inl ⟨_, _, token_not_skipped _, hspells, rfl, hscans⟩)
  | outOfRange hlexeme' hdigits hover =>
      obtain ⟨rfl, rfl⟩ := lexeme_inj hlexeme hlexeme'
      exact .inr (.inr ⟨token_not_skipped _, hdigits, hover, rfl, rfl⟩)

/-- There is only one way to scan a text. -/
theorem unique {cursor : Cursor} {items items' : List Item}
    {ending ending' : Option LexError} (h : Scans cursor items ending)
    (h' : Scans cursor items' ending') : items = items' ∧ ending = ending' := by
  induction h generalizing items' ending' with
  | atEnd hrest =>
      cases h' with
      | atEnd => exact ⟨rfl, rfl⟩
      | noLexeme hne => exact absurd hrest hne
      | skipped hlexeme | token hlexeme | outOfRange hlexeme =>
          exact absurd hrest (rest_ne_nil hlexeme)
  | noLexeme hne herror =>
      cases h' with
      | atEnd hrest => exact absurd hrest hne
      | noLexeme _ herror' =>
          obtain rfl := Except.error.inj (herror.symm.trans herror')
          exact ⟨rfl, rfl⟩
      | skipped hlexeme | token hlexeme | outOfRange hlexeme =>
          exact absurd (hlexeme.symm.trans herror) (by simp)
  | skipped hlexeme hkind _ ih =>
      rcases of_lexeme hlexeme h' with ⟨-, hscans⟩ | ⟨_, _, hne, -⟩ | ⟨hne, -⟩
      · exact ih hscans
      · exact absurd hkind hne
      · exact absurd hkind hne
  | token hlexeme hspells _ ih =>
      rcases of_lexeme hlexeme h' with ⟨hkind, -⟩ | ⟨_, _, -, hspells', rfl, hscans⟩ |
        ⟨-, hdigits, hover, -⟩
      · exact absurd hkind (token_not_skipped _)
      · obtain ⟨rfl, rfl⟩ := ih hscans
        rw [hspells.unique hspells']
        exact ⟨rfl, rfl⟩
      · have := (hspells.of_digits hdigits).2
        omega
  | outOfRange hlexeme hdigits hover =>
      rcases of_lexeme hlexeme h' with ⟨hkind, -⟩ | ⟨_, _, -, hspells, -⟩ | ⟨-, -, -, rfl, rfl⟩
      · exact absurd hkind (token_not_skipped _)
      · have := (hspells.of_digits hdigits).2
        omega
      · exact ⟨rfl, rfl⟩

end Scans

/-! ## Whole sources -/

theorem Lexer.drain_eq_of_scans {source : Text} {items : List Item}
    {ending : Option LexError} (h : Scans (Cursor.start source) items ending) :
    (start source).drain.1 = (items, ending) := by
  obtain ⟨hitems, hending⟩ := (drain_scans (start source) rfl).unique h
  exact Prod.ext hitems hending

theorem lexSource_eq_ok_iff {source : Text} {items : List Item} :
    lexSource source = .ok items ↔ Scans (Cursor.start source) items none := by
  have hscans := Lexer.drain_scans (Lexer.start source) rfl
  unfold lexSource
  rcases hdrain : (Lexer.start source).drain with ⟨⟨items', ending⟩, lexer⟩
  rw [hdrain] at hscans
  constructor
  · intro h
    cases ending with
    | none => rw [← Except.ok.inj h]; exact hscans
    | some error => exact absurd h (by simp)
  · intro h
    obtain ⟨rfl, rfl⟩ := h.unique hscans
    rfl

/-- A source is tokenized if it is within the limit on its size and scanned without an error. -/
theorem tokenize_eq_ok_iff {limits : Limits} {maxBytes : Option Int} {source : Text}
    {items : List Item} : tokenize limits maxBytes source = .ok items ↔
      (∀ limit, (maxBytes <|> limits.maxBytes) = some limit → (Utf8.size source : Int) ≤ limit) ∧
        Scans (Cursor.start source) items none := by
  rw [← lexSource_eq_ok_iff]
  unfold tokenize Lexer.build
  cases hlimit : maxBytes <|> limits.maxBytes with
  | none => cases lexSource source <;> simp
  | some limit =>
      simp only
      by_cases hsize : (Utf8.size source : Int) > limit
      · rw [if_pos hsize]
        simp
        omega
      · rw [if_neg hsize]
        cases lexSource source <;> simp
        omega

end ScriptFront
