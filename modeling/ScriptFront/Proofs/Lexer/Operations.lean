import ScriptFront.Proofs.Lexer.Layout
import ScriptFront.Proofs.Lexer.Yield

set_option autoImplicit false

/-! # Sequences of lexer operations

Whatever is done with a lexer, it keeps its place: the cursor has read some beginning of the source
and knows how many characters and bytes that has, and the count of tokens is the number of tokens
that were given (`Lexer.KeepsTrack`). There are five ways in which asking for a token can end
(`Lexer.Asked`); of the other operations none moves the cursor, and draining is asking for tokens
until there are no more. -/

namespace ScriptFront

open Utf8

/-! ## Skipping -/

/-- Between two cursors there is nothing but lexemes that give no token. -/
inductive Skips : Cursor → Cursor → Prop
  | refl {cursor : Cursor} : Skips cursor cursor
  | step {cursor behind : Cursor} {kind : LexemeKind} {text : Text} :
      Lexer.lexemeAt cursor = .ok (kind, text) → kind ∈ LexemeKind.skipped →
      Skips (cursor.advance text) behind → Skips cursor behind

namespace Skips

variable {cursor behind : Cursor}

theorem advance (h : Skips cursor behind) :
    ∃ gap, cursor.rest = gap ++ behind.rest ∧ behind = cursor.advance gap := by
  induction h with
  | refl => exact ⟨[], rfl, (Cursor.advance_nil _).symm⟩
  | @step cursor behind kind text hlexeme _ _ ih =>
      obtain ⟨gap, hrest, hbehind⟩ := ih
      obtain ⟨rule, -, hmunches⟩ := Lexer.munches_of_lexemeAt hlexeme
      refine ⟨text ++ gap, ?_, ?_⟩
      · rw [List.append_assoc, ← hrest]
        exact (List.prefix_iff_eq_append.1 hmunches.begins).symm
      · rw [hbehind, Cursor.advance_append]

/-- What is skipped before something that is no newline is trivia. A line comment is only skipped up
    to its newline, so the newline has to be skipped as well. -/
theorem trivia (h : Skips cursor behind) {c : Char} {others : Text}
    (hbehind : behind.rest = c :: others) (hc : c ≠ '\n') :
    ∃ gap, Trivia gap ∧ cursor.rest = gap ++ behind.rest ∧ behind = cursor.advance gap := by
  have htail : IsTail fun _ rest => rest = behind.rest := by
    refine ⟨fun hrest => ?_, fun _ hrest => ?_⟩
    · rw [hbehind] at hrest
      exact hc (List.cons.inj hrest).1.symm
    · rw [hbehind] at hrest
      exact absurd hrest (by simp)
  have hlaid : LaidUntil (fun _ rest => rest = behind.rest) cursor.offset cursor.rest [] := by
    clear hbehind
    induction h with
    | refl => exact .last .nil rfl
    | step hlexeme hkind _ ih =>
        obtain ⟨rule, rfl, hmunches⟩ := Lexer.munches_of_lexemeAt hlexeme
        have hsplit := List.prefix_iff_eq_append.1 hmunches.begins
        rw [← hsplit] at hmunches ⊢
        exact hmunches.laid_skipped hkind htail (ih htail)
  obtain ⟨gap, hrest, hadvance⟩ := h.advance
  generalize htext : cursor.rest = text at hlaid
  cases hlaid with
  | last hgap hend =>
      obtain rfl : _ = gap := List.append_cancel_right (hend ▸ htext.symm.trans hrest)
      exact ⟨_, hgap, hend ▸ rfl, hadvance⟩

end Skips

/-! ## Asking for a token -/

/-- Whether an operation asks for tokens. -/
def LexerStep.asks : LexerStep → Bool
  | .next | .nextToken | .drain => true
  | .matchRule | .makeToken .. | .fail .. => false

namespace Lexer

/-- How asking a lexer for a token can end. It may have stopped before; it may come to the end of
    the source; and behind what it skips it may come to a token, to an integer that is out of range,
    or to a place where there is no lexeme. -/
inductive Asked (lexer : Lexer) : EStateM.Result LexError Lexer (Option Item) → Prop
  | stopped : lexer.done = true → Asked lexer (.ok none lexer)
  | atEnd {cursor : Cursor} : lexer.done = false → Skips lexer.cursor cursor → cursor.rest = [] →
      Asked lexer (.ok none { lexer with cursor, done := true })
  | token {cursor : Cursor} {kind : TokenKind} {text : Text} {token : Token} :
      lexer.done = false → Skips lexer.cursor cursor →
      lexemeAt cursor = .ok (.token kind, text) → Spells text token →
      Asked lexer (.ok (some ⟨token, cursor.spanOf text⟩)
        { lexer with cursor := cursor.advance text, emitted := lexer.emitted + 1 })
  | outOfRange {cursor : Cursor} {text : Text} : lexer.done = false → Skips lexer.cursor cursor →
      lexemeAt cursor = .ok (.token .integer, text) →
      Asked lexer (.error ⟨.integerOverflow, text, some (cursor.spanOf text)⟩
        { lexer with cursor := cursor.advance text, done := true })
  | noLexeme {cursor : Cursor} {error : LexError} : lexer.done = false →
      Skips lexer.cursor cursor → cursor.rest ≠ [] → lexemeAt cursor = .error error →
      Asked lexer (.error error { lexer with cursor, done := true })

variable {lexer : Lexer} {result : EStateM.Result LexError Lexer (Option Item)}

/-- What is asked behind a skipped lexeme is asked before it. -/
theorem Asked.skip {kind : LexemeKind} {text : Text} (hdone : lexer.done = false)
    (hlexeme : lexemeAt lexer.cursor = .ok (kind, text)) (hkind : kind ∈ LexemeKind.skipped)
    (h : (lexer.behind text).Asked result) : lexer.Asked result := by
  have hskips {cursor : Cursor} (h : Skips (lexer.behind text).cursor cursor) :
      Skips lexer.cursor cursor := .step hlexeme hkind h
  cases h with
  | stopped hstopped => exact absurd (hdone.symm.trans hstopped) (by simp)
  | atEnd _ h hrest => exact .atEnd hdone (hskips h) hrest
  | token _ h htoken hspells => exact .token hdone (hskips h) htoken hspells
  | outOfRange _ h hinteger => exact .outOfRange hdone (hskips h) hinteger
  | noLexeme _ h hrest herror => exact .noLexeme hdone (hskips h) hrest herror

theorem nextWithin_asked (fuel : Nat) : ∀ lexer : Lexer, lexer.cursor.rest.length < fuel →
    lexer.Asked (nextWithin fuel lexer) := by
  induction fuel with
  | zero => intro lexer hfuel; exact absurd hfuel (Nat.not_lt_zero _)
  | succ fuel ih =>
      intro lexer hfuel
      cases hdone : lexer.done with
      | true => rw [nextWithin_done hdone]; exact .stopped hdone
      | false =>
          by_cases hrest : lexer.cursor.rest = []
          · rw [nextWithin_atEnd hdone hrest]
            exact .atEnd hdone .refl hrest
          cases hlexeme : lexemeAt lexer.cursor with
          | error error =>
              rw [nextWithin_noLexeme hdone hrest hlexeme]
              exact .noLexeme hdone .refl hrest hlexeme
          | ok found =>
              obtain ⟨kind, text⟩ := found
              by_cases hkind : kind ∈ LexemeKind.skipped
              · rw [nextWithin_skipped hdone hrest hlexeme hkind]
                have hlt := length_behind_lt hlexeme
                exact (ih (lexer.behind text) (by omega)).skip hdone hlexeme hkind
              cases kind with
              | whitespace | comment => exact absurd (by decide) hkind
              | token kind =>
                  obtain ⟨rule, hrule, hmunches⟩ := munches_of_lexemeAt hlexeme
                  rcases hmunches.makeToken hrule with ⟨token, hspells, hmake⟩ | ⟨rfl, -, -, hmake⟩
                  · rw [nextWithin_token hdone hrest hlexeme (hmake _ _)]
                    exact .token hdone .refl hlexeme hspells
                  · rw [nextWithin_outOfRange hdone hrest hlexeme (hmake _ _)]
                    exact .outOfRange hdone .refl hlexeme

theorem nextToken_asked (lexer : Lexer) : lexer.Asked (nextToken lexer) :=
  nextWithin_asked _ lexer (Nat.lt_succ_self _)

theorem drain_of_done {lexer : Lexer} (hdone : lexer.done = true) : lexer.drain.1.1 = [] :=
  (Yields.done hdone).drain.1

/-- A token that is given is counted and is the first of those that were left. -/
theorem nextToken_drain (lexer : Lexer) :
    match nextToken lexer with
    | .ok (some token) lexer' =>
      lexer'.emitted = lexer.emitted + 1 ∧ lexer.drain.1.1 = token :: lexer'.drain.1.1
    | .ok none lexer' => lexer'.emitted = lexer.emitted ∧ lexer'.drain.1.1 = lexer.drain.1.1
    | .error _ lexer' => lexer'.emitted = lexer.emitted ∧ lexer'.drain.1.1 = lexer.drain.1.1 := by
  cases hdone : lexer.done with
  | true =>
      rw [nextToken_done hdone]
      exact ⟨rfl, rfl⟩
  | false =>
      have hscans := nextToken_scans hdone (drain_scans lexer hdone)
      have hasked := lexer.nextToken_asked
      cases hrun : nextToken lexer with
      | error error lexer' =>
          rw [hrun] at hscans hasked
          rw [hscans.1]
          cases hasked <;> exact ⟨rfl, drain_of_done rfl⟩
      | ok token lexer' =>
          rw [hrun] at hscans hasked
          obtain ⟨htoken, hyields, -⟩ := hscans
          cases token with
          | none =>
              rw [List.head?_eq_none_iff.1 htoken.symm]
              cases hasked with
              | stopped hstopped => exact ⟨rfl, drain_of_done hstopped⟩
              | atEnd => exact ⟨rfl, drain_of_done rfl⟩
          | some token =>
              have hrest : lexer'.drain.1.1 = lexer.drain.1.1.tail := hyields.drain.1
              obtain ⟨rest, hdrain⟩ := List.head?_eq_some_iff.1 htoken.symm
              have hemitted : lexer'.emitted = lexer.emitted + 1 := by
                cases hasked
                rfl
              exact ⟨hemitted, by rw [hrest, hdrain, List.tail_cons]⟩

/-- Where there is no lexeme, the error marks a piece of the text from there on. -/
theorem span_of_lexemeAt_eq_error {cursor : Cursor} {error : LexError}
    (h : lexemeAt cursor = .error error) :
    error.fault ≠ .integerOverflow ∧ ∃ hi, error.span = some ⟨cursor.offset, hi⟩ := by
  have hchosen := lexemeAt_eq_iff.1 h
  cases hchosen with
  | leftOpen => exact ⟨nofun, _, rfl⟩
  | undescribed => exact ⟨nofun, _, rfl⟩

/-! ## Single operations -/

section Asking

variable {op : LexerStep} {lexer' : Lexer}

/-- Both operations that ask for a token leave the same lexer. -/
theorem step_snd_of_ok (hop : op = .next ∨ op = .nextToken) {item : Option Item}
    (h : nextToken lexer = .ok item lexer') : (lexer.step op).2 = lexer' := by
  rcases hop with rfl | rfl
  · simp only [step, h]
    cases item <;> rfl
  · simp only [step, h]
    rfl

/-- They give the same tokens. -/
theorem step_of_some (hop : op = .next ∨ op = .nextToken) {item : Item}
    (h : nextToken lexer = .ok (some item) lexer') :
    lexer.step op = (.ok (.item (some item)), lexer') := by
  rcases hop with rfl | rfl
  · simp only [step, h]
    rfl
  · simp only [step, h]
    rfl

/-- They report the same errors. -/
theorem step_of_error (hop : op = .next ∨ op = .nextToken) {error : LexError}
    (h : nextToken lexer = .error error lexer') :
    lexer.step op = (.error (.source (.lexical error)), lexer') := by
  rcases hop with rfl | rfl
  · simp only [step, h]
    rfl
  · simp only [step, h]
    rfl

/-- They only differ in what they answer when there are no more tokens. -/
theorem step_of_none (h : nextToken lexer = .ok none lexer') :
    (lexer.step .next).1 = .error .exhausted ∧ (lexer.step .nextToken).1 = .ok (.item none) := by
  simp only [step, h]
  exact ⟨rfl, rfl⟩

end Asking

/-- What does not ask for tokens can do no more to a lexer than stop it. -/
theorem step_stays (lexer : Lexer) {op : LexerStep} (hop : op.asks = false) :
    (lexer.step op).2 = lexer ∨ (lexer.step op).2 = { lexer with done := true } := by
  cases op with
  | next | nextToken | drain => exact absurd hop (by decide)
  | matchRule =>
      simp only [step]
      cases hlexeme : lexemeAt lexer.cursor with
      | ok found => rw [matchRule_ok hlexeme]; exact .inl rfl
      | error error => rw [matchRule_error hlexeme]; exact .inr rfl
  | makeToken name text span =>
      simp only [step]
      cases TokenKind.ofName? name with
      | none => exact .inl rfl
      | some kind =>
          rcases makeToken_cases kind text span lexer with ⟨made, hmake⟩ | ⟨error, hmake⟩
          · simp only [hmake]
            exact .inl rfl
          · simp only [hmake]
            exact .inr rfl
  | fail name lexeme span =>
      simp only [step]
      cases LexError.build name lexeme span with
      | ok error => exact .inr rfl
      | error reason => exact .inr rfl

/-- Making a token stops a lexer if that is an error of the source. If the token is made, or what
    was asked for is refused, the lexer stays as it is. -/
theorem step_makeToken (lexer : Lexer) (name text : Text) (span : Option Span) :
    (lexer.step (.makeToken name text span)).2 =
      match (lexer.step (.makeToken name text span)).1 with
      | .error (.source _) => { lexer with done := true }
      | _ => lexer := by
  simp only [step]
  cases TokenKind.ofName? name with
  | none => rfl
  | some kind =>
      rcases makeToken_cases kind text span lexer with ⟨made, hmake⟩ | ⟨error, hmake⟩
      · simp only [hmake]
        cases made <;> rfl
      · simp only [hmake]
        rfl

/-! ## Sequences -/

/-- The lexer after a sequence of operations. -/
def after (lexer : Lexer) : List LexerStep → Lexer
  | [] => lexer
  | op :: ops => (lexer.step op).2.after ops

/-- The tokens that an operation gives. When draining ends with an error, the tokens before it have
    been given all the same. -/
def given (lexer : Lexer) : LexerStep → List Item
  | .next | .nextToken =>
    match nextToken lexer with
    | .ok item _ => item.toList
    | .error .. => []
  | .drain => lexer.drain.1.1
  | .matchRule | .makeToken .. | .fail .. => []

/-- The tokens that a sequence of operations gives. -/
def givenBy (lexer : Lexer) : List LexerStep → List Item
  | [] => []
  | op :: ops => lexer.given op ++ (lexer.step op).2.givenBy ops

/-- The states that a sequence of operations goes through are those after its beginnings. -/
theorem after_of_runSteps {ops : List LexerStep} {k : Nat} {answer : Except Failure LexerAnswer}
    {lexer lexer' : Lexer} (h : (lexer.runSteps ops)[k]? = some (answer, lexer')) :
    lexer' = lexer.after (ops.take (k + 1)) := by
  induction ops generalizing lexer k with
  | nil => exact absurd h (by simp [runSteps])
  | cons op ops ih =>
      rw [runSteps] at h
      rw [List.take_succ_cons, after]
      cases k with
      | zero =>
          have hstep : lexer.step op = (answer, lexer') := Option.some.inj h
          rw [hstep, List.take_zero, after]
      | succ k => exact ih h

/-- Draining a lexer is asking it for tokens until it has no more. -/
theorem drainWithin_eq (fuel : Nat) : ∀ lexer : Lexer, ∃ count,
    (drainWithin fuel lexer).2 = lexer.after (List.replicate count .nextToken) ∧
      (drainWithin fuel lexer).1.1 = lexer.givenBy (List.replicate count .nextToken) := by
  induction fuel with
  | zero => exact fun lexer => ⟨0, rfl, rfl⟩
  | succ fuel ih =>
      intro lexer
      unfold drainWithin
      cases hrun : nextToken lexer with
      | error error lexer' =>
          have hstep := step_of_error (.inr rfl) hrun
          exact ⟨1, (congrArg Prod.snd hstep).symm, by simp [givenBy, given, hrun]⟩
      | ok item lexer' =>
          have hstep := step_snd_of_ok (.inr rfl) hrun
          cases item with
          | none => exact ⟨1, hstep.symm, by simp [givenBy, given, hrun]⟩
          | some item =>
              obtain ⟨count, hafter, hgiven⟩ := ih lexer'
              refine ⟨count + 1, ?_, ?_⟩
              · rw [List.replicate_succ, after, hstep]
                exact hafter
              · rw [List.replicate_succ, givenBy, hstep, ← hgiven]
                simp [given, hrun]

theorem step_drain (lexer : Lexer) : (lexer.step .drain).2 = lexer.drain.2 := by
  unfold step
  rcases lexer.drain with ⟨⟨items, ending⟩, lexer'⟩
  cases ending <;> rfl

end Lexer

/-! ## Keeping track -/

/-- The cursor stands in the source: what it has not read is what is left of it, and what it has
    read has that many characters and bytes. -/
structure Cursor.Tracks (source : Text) (cursor : Cursor) : Prop where
  position_le : cursor.position ≤ source.length
  offset_eq : cursor.offset = size (source.take cursor.position)
  rest_eq : cursor.rest = source.drop cursor.position

theorem Cursor.Tracks.advance {source text rest : Text} {cursor : Cursor} (h : cursor.Tracks source)
    (hrest : cursor.rest = text ++ rest) : (cursor.advance text).Tracks source := by
  have hlength : text.length ≤ (source.drop cursor.position).length := by
    rw [← h.rest_eq, hrest, List.length_append]
    exact Nat.le_add_right ..
  have htake : (source.drop cursor.position).take text.length = text := by
    rw [← h.rest_eq, hrest, List.take_left]
  refine ⟨?_, ?_, ?_⟩
  · rw [List.length_drop] at hlength
    have := h.position_le
    show cursor.position + text.length ≤ source.length
    omega
  · show cursor.offset + size text = size (source.take (cursor.position + text.length))
    rw [List.take_add, htake, size_append, h.offset_eq]
  · show cursor.rest.drop text.length = source.drop (cursor.position + text.length)
    rw [h.rest_eq, List.drop_drop]

namespace Lexer

/-- A lexer keeps track of a source: its cursor does, and it has counted the tokens that it gave. -/
structure KeepsTrack (source : Text) (count : Nat) (lexer : Lexer) : Prop where
  tracks : lexer.cursor.Tracks source
  emitted_eq : lexer.emitted = count

namespace KeepsTrack

variable {source : Text} {count : Nat} {lexer : Lexer}

theorem start (source : Text) : (Lexer.start source).KeepsTrack source 0 :=
  ⟨⟨Nat.zero_le _, rfl, rfl⟩, rfl⟩

/-- Whatever comes of it, asking for a token leaves a lexer that keeps track. -/
theorem ask (h : lexer.KeepsTrack source count) :
    (lexer.step .nextToken).2.KeepsTrack source (count + (lexer.given .nextToken).length) := by
  have hasked := lexer.nextToken_asked
  have hskip {cursor : Cursor} (hskips : Skips lexer.cursor cursor) : cursor.Tracks source := by
    obtain ⟨gap, hrest, rfl⟩ := hskips.advance
    exact h.tracks.advance hrest
  have htake {cursor : Cursor} {kind : LexemeKind} {text : Text}
      (hskips : Skips lexer.cursor cursor) (hlexeme : lexemeAt cursor = .ok (kind, text)) :
      (cursor.advance text).Tracks source := by
    obtain ⟨rule, -, hmunches⟩ := munches_of_lexemeAt hlexeme
    exact (hskip hskips).advance (List.prefix_iff_eq_append.1 hmunches.begins).symm
  simp only [given]
  cases hrun : nextToken lexer with
  | ok item lexer' =>
      rw [step_snd_of_ok (.inr rfl) hrun]
      rw [hrun] at hasked
      cases hasked with
      | stopped => exact h
      | atEnd _ hskips => exact ⟨hskip hskips, h.emitted_eq⟩
      | token _ hskips hlexeme => exact ⟨htake hskips hlexeme, congrArg (· + 1) h.emitted_eq⟩
  | error error lexer' =>
      rw [step_of_error (.inr rfl) hrun]
      rw [hrun] at hasked
      cases hasked with
      | outOfRange _ hskips hlexeme => exact ⟨htake hskips hlexeme, h.emitted_eq⟩
      | noLexeme _ hskips => exact ⟨hskip hskips, h.emitted_eq⟩

theorem asks (h : lexer.KeepsTrack source count) (times : Nat) :
    (lexer.after (List.replicate times .nextToken)).KeepsTrack source
      (count + (lexer.givenBy (List.replicate times .nextToken)).length) := by
  induction times generalizing lexer count with
  | zero => exact h
  | succ times ih =>
      rw [List.replicate_succ, after, givenBy, List.length_append, ← Nat.add_assoc]
      exact ih h.ask

theorem stays (h : lexer.KeepsTrack source count) {op : LexerStep} (hop : op.asks = false) :
    (lexer.step op).2.KeepsTrack source count := by
  rcases lexer.step_stays hop with hsame | hdone
  · rw [hsame]; exact h
  · rw [hdone]; exact ⟨h.tracks, h.emitted_eq⟩

/-- Every operation leaves a lexer that keeps track. -/
theorem step (h : lexer.KeepsTrack source count) (op : LexerStep) :
    (lexer.step op).2.KeepsTrack source (count + (lexer.given op).length) := by
  cases op with
  | nextToken => exact h.ask
  | next =>
      -- both ways of asking leave the same lexer behind
      have hsame : (lexer.step .next).2 = (lexer.step .nextToken).2 := by
        simp only [Lexer.step]
        cases nextToken lexer <;> rfl
      rw [hsame]
      exact h.ask
  | drain =>
      obtain ⟨times, hafter, hgiven⟩ := drainWithin_eq (lexer.cursor.rest.length + 1) lexer
      rw [step_drain, show lexer.given .drain = _ from hgiven, show lexer.drain.2 = _ from hafter]
      exact h.asks times
  | matchRule | makeToken | fail => exact h.stays rfl

theorem steps (h : lexer.KeepsTrack source count) (ops : List LexerStep) :
    (lexer.after ops).KeepsTrack source (count + (lexer.givenBy ops).length) := by
  induction ops generalizing lexer count with
  | nil => exact h
  | cons op ops ih =>
      rw [after, givenBy, List.length_append, ← Nat.add_assoc]
      exact ih (h.step op)

end KeepsTrack

/-! ## What single operations do -/

/-- A lexer that has stopped is not changed by anything. -/
theorem step_of_done {lexer : Lexer} (hdone : lexer.done = true) (op : LexerStep) :
    (lexer.step op).2 = lexer := by
  have hstays {op : LexerStep} (hop : op.asks = false) : (lexer.step op).2 = lexer := by
    rcases lexer.step_stays hop with h | h
    · exact h
    · rw [h, ← hdone]
  cases op with
  | next => exact step_snd_of_ok (.inl rfl) (nextToken_done hdone)
  | nextToken => exact step_snd_of_ok (.inr rfl) (nextToken_done hdone)
  | drain => rw [step_drain, drain, drainWithin, nextToken_done hdone]
  | matchRule | makeToken | fail => exact hstays rfl

theorem after_of_done {lexer : Lexer} (hdone : lexer.done = true) (ops : List LexerStep) :
    lexer.after ops = lexer := by
  induction ops with
  | nil => rfl
  | cons op ops ih => rw [after, step_of_done hdone, ih]

/-- What holds of a lexer when it is asked for a token: what it answers when it has stopped, and
    where its cursor stands otherwise. A token strictly moves the cursor and ends where the cursor
    then stands. An error leaves the count of tokens as it is; an integer that is out of range has
    been read, and the other errors are where the cursor stands behind the trivia before them. -/
structure Answers (lexer : Lexer) : Prop where
  stopped : lexer.done = true →
    (lexer.step .nextToken).1 = .ok (.item none) ∧ (lexer.step .next).1 = .error .exhausted
  token : ∀ op item, op = .next ∨ op = .nextToken →
    (lexer.step op).1 = .ok (.item (some item)) →
    lexer.cursor.position < (lexer.step op).2.cursor.position ∧
      item.span.hi = (lexer.step op).2.cursor.offset
  error : ∀ op error, op = .next ∨ op = .nextToken →
    (lexer.step op).1 = .error (.source (.lexical error)) →
    (lexer.step op).2.emitted = lexer.emitted ∧ ∃ span, error.span = some span ∧
      (error.fault = .integerOverflow → span.hi = (lexer.step op).2.cursor.offset) ∧
      (error.fault ≠ .integerOverflow → span.lo = (lexer.step op).2.cursor.offset ∧
        ∃ gap, Trivia gap ∧ (lexer.step op).2.cursor = lexer.cursor.advance gap)

/-- A token is only answered, and an error only reported, where asking for a token ends so. -/
theorem asked_of_step {op : LexerStep} (hop : op = .next ∨ op = .nextToken) (lexer : Lexer) :
    (∀ item, (lexer.step op).1 = .ok (.item (some item)) →
      lexer.Asked (.ok (some item) (lexer.step op).2)) ∧
    ∀ error, (lexer.step op).1 = .error (.source (.lexical error)) →
      lexer.Asked (.error error (lexer.step op).2) := by
  have hasked := lexer.nextToken_asked
  cases hrun : nextToken lexer with
  | error error lexer' =>
      rw [hrun] at hasked
      rw [step_of_error hop hrun]
      refine ⟨fun item h => absurd h (by simp), fun error h => ?_⟩
      obtain rfl := SourceError.lexical.inj (Failure.source.inj (Except.error.inj h))
      exact hasked
  | ok item lexer' =>
      rw [hrun] at hasked
      cases item with
      | some item =>
          rw [step_of_some hop hrun]
          refine ⟨fun item h => ?_, fun error h => absurd h (by simp)⟩
          obtain rfl := Option.some.inj (LexerAnswer.item.inj (Except.ok.inj h))
          exact hasked
      | none =>
          obtain ⟨hnext, hnextToken⟩ := step_of_none hrun
          rcases hop with rfl | rfl
          · rw [hnext]
            exact ⟨fun item h => absurd h (by simp), fun error h => absurd h (by simp)⟩
          · rw [hnextToken]
            exact ⟨fun item h => absurd h (by simp), fun error h => absurd h (by simp)⟩

theorem answers (lexer : Lexer) : lexer.Answers := by
  refine ⟨fun hdone => ?_, fun op item hop hanswer => ?_, fun op error hop hanswer => ?_⟩
  · exact (step_of_none (nextToken_done hdone)).symm
  · have hasked := (asked_of_step hop lexer).1 item hanswer
    generalize (lexer.step op).2 = lexer' at hasked ⊢
    cases hasked with
    | @token cursor kind text token hdone hskips hlexeme hspells =>
        obtain ⟨gap, -, rfl⟩ := hskips.advance
        have hlength := List.length_pos_iff.2 hspells.ne_nil
        refine ⟨?_, rfl⟩
        show lexer.cursor.position < lexer.cursor.position + gap.length + text.length
        omega
  · have hasked := (asked_of_step hop lexer).2 error hanswer
    generalize (lexer.step op).2 = lexer' at hasked ⊢
    cases hasked with
    | outOfRange => exact ⟨rfl, _, rfl, fun _ => rfl, fun hfault => absurd rfl hfault⟩
    | noLexeme _ hskips hrest hlexeme =>
        obtain ⟨hfault, hi, hspan⟩ := span_of_lexemeAt_eq_error hlexeme
        obtain ⟨c, others, after, hbehind, hblank, -⟩ := (faultAt_of_lexemeAt hrest hlexeme).covered
        have hnewline : c ≠ '\n' := by rintro rfl; exact hblank (by decide)
        obtain ⟨gap, hgap, -, hcursor⟩ := hskips.trivia hbehind hnewline
        exact ⟨rfl, _, hspan, fun h => absurd h hfault, fun _ => ⟨rfl, gap, hgap, hcursor⟩⟩

/-! ## What holds in every state -/

/-- What holds of a lexer of a source that has given some tokens: it keeps track; when it has
    stopped, it stays as it is for good; what does not ask for tokens does not move it; making a
    token changes nothing, unless it is an error of the source; it answers as it should; and
    draining it is asking it for tokens. -/
structure Orderly (source : Text) (items : List Item) (lexer : Lexer) : Prop where
  track : lexer.KeepsTrack source items.length
  still : lexer.done = true → ∀ ops, lexer.after ops = lexer
  unmoved : ∀ op : LexerStep, op.asks = false →
    (lexer.step op).2.cursor = lexer.cursor ∧ (lexer.step op).2.emitted = lexer.emitted
  made : ∀ name text span, (lexer.step (.makeToken name text span)).2 =
    match (lexer.step (.makeToken name text span)).1 with
    | .error (.source _) => { lexer with done := true }
    | _ => lexer
  answers : lexer.Answers
  drains : ∃ times, (lexer.step .drain).2 = lexer.after (List.replicate times .nextToken) ∧
    lexer.given .drain = lexer.givenBy (List.replicate times .nextToken)

/-- **Whatever is done with a lexer, it stays orderly.** After any sequence of operations, failed
    ones included, it keeps track of the source and of the tokens that it has given. These are all
    the states that a sequence goes through. -/
theorem orderly_after_operations (source : Text) (ops : List LexerStep) :
    Orderly source ((start source).givenBy ops) ((start source).after ops) ∧
      ∀ (k : Nat) (answer : Except Failure LexerAnswer) (lexer : Lexer),
        ((start source).runSteps ops)[k]? = some (answer, lexer) →
          lexer = (start source).after (ops.take (k + 1)) := by
  refine ⟨⟨?_, after_of_done, fun op hop => ?_, step_makeToken _, Lexer.answers _, ?_⟩, ?_⟩
  · simpa using (KeepsTrack.start source).steps ops
  · rcases step_stays _ hop with h | h
    · rw [h]; exact ⟨rfl, rfl⟩
    · rw [h]; exact ⟨rfl, rfl⟩
  · rw [step_drain]
    exact drainWithin_eq _ _
  · exact fun k answer lexer h => after_of_runSteps h

end Lexer

end ScriptFront
