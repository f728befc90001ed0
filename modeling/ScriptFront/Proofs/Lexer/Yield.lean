import ScriptFront.Parser.Buffer
import ScriptFront.Proofs.Lexer.Scan

set_option autoImplicit false

/-! # What a lexer still gives

A lexer that is asked for one token after another gives those that a scan from its cursor finds, and
then the error that ends them, if one does (`Lexer.Yields`). It counts the tokens that it gives, so
this count and the number of tokens that are left make up the same sum all the time
(`Lexer.Accounts`). -/

namespace ScriptFront

/-- No more tokens are scanned than there are characters. -/
theorem Scans.length_le {cursor : Cursor} {items : List Item} {ending : Option LexError}
    (h : Scans cursor items ending) : items.length ≤ cursor.rest.length := by
  induction h with
  | atEnd | outOfRange | noLexeme => exact Nat.zero_le _
  | @skipped cursor _ _ _ _ hlexeme _ _ ih =>
      have hlt := @Lexer.length_behind_lt { cursor } _ _ hlexeme
      exact Nat.le_trans ih (Nat.le_of_lt hlt)
  | @token cursor _ _ _ _ _ hlexeme _ _ ih =>
      have hlt := @Lexer.length_behind_lt { cursor } _ _ hlexeme
      exact Nat.lt_of_le_of_lt ih hlt

namespace Lexer

/-- The items that a lexer still gives, and the error that ends them. When it is done it gives
    nothing more. -/
inductive Yields (lexer : Lexer) : List Item → Option LexError → Prop
  | scanning {tokens : List Item} {ending : Option LexError} : lexer.done = false →
      Scans lexer.cursor tokens ending → Yields lexer tokens ending
  | done : lexer.done = true → Yields lexer [] none

/-- There is one scan from the cursor on, and the next token is the first one of it. -/
theorem nextToken_scans {lexer : Lexer} {tokens : List Item} {ending : Option LexError}
    (hdone : lexer.done = false) (hscans : Scans lexer.cursor tokens ending) :
    Run.Ensures
      (fun token lexer' => token = tokens.head? ∧
        lexer'.Yields tokens.tail ending ∧ (tokens = [] → ending = none))
      (fun error => tokens = [] ∧ ending = some error) (nextToken lexer) := by
  have hnext := nextWithin_scans (lexer.cursor.rest.length + 1) lexer hdone (Nat.lt_succ_self _)
  show Run.Ensures _ _ (nextWithin (lexer.cursor.rest.length + 1) lexer)
  cases hrun : nextWithin (lexer.cursor.rest.length + 1) lexer with
  | error error lexer' =>
      rw [hrun] at hnext
      exact hscans.unique hnext
  | ok token lexer' =>
      rw [hrun] at hnext
      cases token with
      | none =>
          obtain ⟨rfl, rfl⟩ := hscans.unique hnext.1
          exact ⟨rfl, .done hnext.2, fun _ => rfl⟩
      | some token =>
          obtain ⟨hdone', -, hbehind⟩ := hnext
          have hrest := drain_scans lexer' hdone'
          obtain ⟨rfl, rfl⟩ := hscans.unique (hbehind _ _ hrest)
          exact ⟨rfl, .scanning hdone' hrest, fun hnil => absurd hnil (by simp)⟩

/-- A lexer that is done gives nothing more. -/
theorem nextWithin_done {lexer : Lexer} (hdone : lexer.done = true) (fuel : Nat) :
    nextWithin (fuel + 1) lexer = .ok none lexer := by
  have hget : (get : Lexing Lexer) lexer = .ok lexer lexer := rfl
  rw [nextWithin, Run.bind_of_ok hget, if_pos hdone]
  rfl

theorem nextToken_done {lexer : Lexer} (hdone : lexer.done = true) :
    nextToken lexer = .ok none lexer := nextWithin_done hdone lexer.cursor.rest.length

namespace Yields

variable {lexer : Lexer} {items : List Item} {ending : Option LexError}

/-- A lexer at the start of a source gives what it gives when it is drained. -/
theorem start (source : Text) :
    (Lexer.start source).Yields (Lexer.start source).drain.1.1
      (Lexer.start source).drain.1.2 :=
  .scanning rfl (drain_scans _ rfl)

theorem length_le (h : lexer.Yields items ending) : items.length ≤ lexer.cursor.rest.length := by
  cases h with
  | scanning _ hscans => exact hscans.length_le
  | done => exact Nat.zero_le _

/-- The next token is the first item that is left, and the others are left behind it. When there is
    none, the error that ends the items is reported. -/
theorem next (h : lexer.Yields items ending) :
    Run.Ensures
      (fun item lexer' => item = items.head? ∧ lexer'.Yields items.tail ending ∧
        (items = [] → ending = none))
      (fun error => items = [] ∧ ending = some error) (Supply.next lexer) := by
  cases h with
  | done hdone =>
      show Run.Ensures _ _ (nextToken lexer)
      rw [nextToken_done hdone]
      exact ⟨rfl, .done hdone, fun _ => rfl⟩
  | scanning hdone hscans => exact nextToken_scans hdone hscans

/-- A lexer that is drained gives what it still gives. -/
theorem drain (h : lexer.Yields items ending) :
    lexer.drain.1.1 = items ∧ lexer.drain.1.2 = ending := by
  cases h with
  | scanning hdone hscans =>
      exact (drain_scans lexer hdone).unique hscans
  | done hdone =>
      have hdrain : lexer.drain = (([], none), lexer) := by
        rw [Lexer.drain, drainWithin, nextToken_done hdone]
      rw [hdrain]
      exact ⟨rfl, rfl⟩

theorem unique {items' : List Item} {ending' : Option LexError} (h : lexer.Yields items ending)
    (h' : lexer.Yields items' ending') : items = items' :=
  h.drain.1.symm.trans h'.drain.1

end Yields

/-! ## Counting the tokens -/

/-- Making a token leaves the lexer as it is, whether it is made or refused, or stops it with an
    error. -/
theorem makeToken_cases (kind : TokenKind) (text : Text) (span : Option Span) (lexer : Lexer) :
    (∃ made, makeToken kind text span lexer = .ok made lexer) ∨
      ∃ error, makeToken kind text span lexer = .error error { lexer with done := true } := by
  cases kind
  case integer =>
    unfold makeToken
    cases readInteger conversionLimit text with
    | ok n => exact .inl ⟨_, rfl⟩
    | error fault =>
        cases fault with
        | outOfRange => exact .inr ⟨_, rfl⟩
        | notANumeral => exact .inl ⟨_, rfl⟩
  all_goals exact .inl ⟨_, rfl⟩

theorem makeToken_emitted (kind : TokenKind) (text : Text) (span : Option Span) (lexer : Lexer) :
    Run.Ensures (fun _ lexer' => lexer'.emitted = lexer.emitted) (fun _ => True)
      (makeToken kind text span lexer) := by
  rcases makeToken_cases kind text span lexer with ⟨made, h⟩ | ⟨error, h⟩
  · rw [h]
    rfl
  · rw [h]
    trivial

/-- The count goes up with every token that is given. -/
theorem nextWithin_emitted (fuel : Nat) : ∀ lexer : Lexer,
    Run.Ensures (fun token lexer' => lexer'.emitted = lexer.emitted + token.toList.length)
      (fun _ => True) (nextWithin fuel lexer) := by
  induction fuel with
  | zero => exact fun _ => rfl
  | succ fuel ih =>
      intro lexer
      cases hdone : lexer.done with
      | true => rw [nextWithin_done hdone]; rfl
      | false =>
          by_cases hrest : lexer.cursor.rest = []
          · rw [nextWithin_atEnd hdone hrest]
            rfl
          cases h : lexemeAt lexer.cursor with
          | error error => rw [nextWithin_noLexeme hdone hrest h]; trivial
          | ok found =>
              obtain ⟨kind, text⟩ := found
              rw [nextWithin_lexeme hdone hrest h]
              cases kind with
              | whitespace | comment => exact ih (lexer.behind text)
              | token kind =>
                  refine (makeToken_emitted kind text _ (lexer.behind text)).bind
                    fun made lexer' hsame => ?_
                  cases made with
                  | ok token => exact congrArg (· + 1) hsame
                  | error reason => exact hsame

/-- With the tokens that the lexer has given and those that it still gives there are that many. -/
def Accounts (total : Nat) (lexer : Lexer) : Prop :=
  ∃ items, lexer.Yields items none ∧ lexer.emitted + items.length = total

theorem Accounts.next {total : Nat} {lexer : Lexer} (h : lexer.Accounts total) :
    ∃ item lexer', Supply.next lexer = .ok item lexer' ∧ lexer'.Accounts total := by
  obtain ⟨items, hyields, htotal⟩ := h
  have hnext := hyields.next
  have hcount : Run.Ensures
      (fun item lexer' => lexer'.emitted = lexer.emitted + item.toList.length) (fun _ => True)
      (Supply.next lexer) :=
    nextWithin_emitted _ lexer
  cases hrun : Supply.next lexer with
  | error error lexer' =>
      rw [hrun] at hnext
      exact absurd hnext.2 nofun
  | ok item lexer' =>
      rw [hrun] at hnext hcount
      obtain ⟨rfl, hrest, -⟩ := hnext
      refine ⟨_, _, rfl, items.tail, hrest, ?_⟩
      rw [show lexer'.emitted = _ from hcount, ← htotal]
      cases items with
      | nil => rfl
      | cons item items => simp; omega

end Lexer

end ScriptFront
