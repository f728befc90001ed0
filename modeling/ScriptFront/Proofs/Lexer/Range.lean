import ScriptFront.Proofs.Lexer.Operations
import ScriptFront.Proofs.Literal.Number

set_option autoImplicit false

/-! # The range of integers

Making an integer token is reading an integer (`Lexer.makeToken_readInteger`), and for runs of
digits the shortcut by their number reads exactly the values in the range of the language. Every
token that a lexer gives is spelled by some text (`Lexer.spells_of_givenBy`), so there is a literal
of the value of every integer token. -/

namespace ScriptFront

namespace Lexer

/-- Making an integer token of any text is reading an integer, on any machine that converts ten
    digits. What is out of range stops the lexer, and what is no numeral is refused and leaves the
    lexer as it is. -/
theorem makeToken_readInteger {limit : Nat} (hlimit : 10 ≤ limit) (text : Text)
    (span : Option Span) (lexer : Lexer) : makeToken .integer text span lexer =
      match readInteger limit text with
      | .ok n => .ok (.ok ⟨.integer, .integer n⟩) lexer
      | .error .outOfRange => .error ⟨.integerOverflow, text, span⟩ { lexer with done := true }
      | .error .notANumeral =>
        .ok (.error (.notANumeral (Numeral.significantDigits text))) lexer := by
  rw [readInteger_limit hlimit (show 10 ≤ conversionLimit by decide)]
  unfold makeToken
  cases readInteger conversionLimit text with
  | ok n => rfl
  | error fault => cases fault <;> rfl

/-- A sign counts as a character: of ten digits with a sign no value is asked for. -/
example : readInteger 10 "-1234567890".toList = .error .outOfRange ∧
    readInteger 10 "-123456789".toList = .ok (-123456789) ∧
    readInteger 10 "00_1".toList = .error .notANumeral := by decide

/-- There is a literal of the value of every integer token that is made. -/
theorem literal_of_makeToken {text : Text} {span : Option Span} {lexer lexer' : Lexer}
    {token : Token} (h : makeToken .integer text span lexer = .ok (.ok token) lexer') :
    ∃ n inRange, token.payload = .integer n ∧ Literal.ofInt n = .ok (.integer n inRange) := by
  rw [makeToken_readInteger (Nat.le_refl 10)] at h
  split at h
  · rename_i n hread
    obtain ⟨rfl⟩ := Except.ok.inj (EStateM.Result.ok.inj h).1
    have inRange := inRange_of_readInteger hread
    exact ⟨n, inRange, rfl, Literal.ofInt_of_inRange inRange⟩
  · cases h
  · exact absurd (EStateM.Result.ok.inj h).1 nofun

end Lexer

/-! ## The integers that a lexer gives -/

namespace Lexer

variable {lexer : Lexer} {item : Item}

theorem spells_of_ask (h : item ∈ lexer.given .nextToken) :
    ∃ text, Spells text item.token := by
  have hasked := lexer.nextToken_asked
  simp only [given] at h
  cases hrun : nextToken lexer with
  | error error lexer' => rw [hrun] at h; exact absurd h List.not_mem_nil
  | ok item lexer' =>
      rw [hrun] at h hasked
      obtain rfl := Option.mem_toList.1 h
      cases hasked with
      | token _ _ _ hspells => exact ⟨_, hspells⟩

theorem spells_of_asks {times : Nat}
    (h : item ∈ lexer.givenBy (List.replicate times .nextToken)) :
    ∃ text, Spells text item.token := by
  induction times generalizing lexer with
  | zero => exact absurd h List.not_mem_nil
  | succ times ih =>
      rw [List.replicate_succ, givenBy] at h
      exact (List.mem_append.1 h).elim spells_of_ask ih

theorem spells_of_given {op : LexerStep} (h : item ∈ lexer.given op) :
    ∃ text, Spells text item.token := by
  cases op with
  | next | nextToken => exact spells_of_ask h
  | drain =>
      obtain ⟨times, -, hgiven⟩ := drainWithin_eq (lexer.cursor.rest.length + 1) lexer
      rw [show lexer.given .drain = _ from hgiven] at h
      exact spells_of_asks h
  | matchRule | makeToken | fail => exact absurd h List.not_mem_nil

/-- Every token that a lexer gives is spelled by some text. -/
theorem spells_of_givenBy {ops : List LexerStep} (h : item ∈ lexer.givenBy ops) :
    ∃ text, Spells text item.token := by
  induction ops generalizing lexer with
  | nil => exact absurd h List.not_mem_nil
  | cons op ops ih => exact (List.mem_append.1 h).elim spells_of_given ih

end Lexer

/-- A token of the integer kind carries an integer of which there is a literal. -/
theorem Spells.integer_literal {text : Text} {token : Token} (h : Spells text token)
    (hkind : token.kind = .integer) :
    ∃ n inRange, token.payload = .integer n ∧ Literal.ofInt n = .ok (.integer n inRange) := by
  cases h with
  | word hmem => exact absurd hkind (word_kind _ hmem).1
  | integer _ hrange =>
      obtain ⟨inRange, hliteral⟩ := Literal.ofInt_natCast hrange
      exact ⟨_, inRange, rfl, hliteral⟩
  | identifier | string => exact absurd hkind nofun

namespace Lexer

/-- **The shortcut for large integers is exact.** A run of digits, of any length and with any number
    of leading zeros, stands for its positional value `v`; the empty run stands for zero. If `v` is
    at most the greatest integer, the token made of the run carries `v` and the lexer stays as it
    is. Otherwise the lexer stops, and the error has the run as it is written and the span that was
    given. On a machine that converts runs of ten digits no conversion is refused on the way. And
    there is a literal of the value of every integer token that is made, of whatever text, and of
    every one that a lexer gives, whatever is done with it. -/
theorem integer_shortcut_exact {text : Text} (h : ∀ c ∈ text, Numeral.isDigit c) {limit : Nat}
    (hlimit : 10 ≤ limit) (span : Option Span) (lexer : Lexer) :
    ((Numeral.positional text : Int) ≤ intMax →
      makeToken .integer text span lexer =
          .ok (.ok ⟨.integer, .integer (Numeral.positional text)⟩) lexer ∧
        readInteger limit text = .ok (Numeral.positional text) ∧
        ∃ inRange, Literal.ofInt (Numeral.positional text) =
          .ok (.integer (Numeral.positional text) inRange)) ∧
    (intMax < (Numeral.positional text : Int) →
      makeToken .integer text span lexer =
          .error ⟨.integerOverflow, text, span⟩ { lexer with done := true } ∧
        readInteger limit text = .error .outOfRange) ∧
    (readInteger limit text = .error .outOfRange ↔ intMax < (Numeral.positional text : Int)) ∧
    (∀ text' span' token lexer', makeToken .integer text' span' lexer = .ok (.ok token) lexer' →
      ∃ n inRange, token.payload = .integer n ∧ Literal.ofInt n = .ok (.integer n inRange)) ∧
    ∀ ops, ∀ item ∈ lexer.givenBy ops, item.token.kind = .integer →
      ∃ n inRange, item.token.payload = .integer n ∧
        Literal.ofInt n = .ok (.integer n inRange) := by
  rw [← Numeral.value_eq_positional, makeToken_readInteger hlimit, readInteger_eq h hlimit]
  refine ⟨fun hrange => ?_, fun hover => ?_, ?_, fun _ _ _ _ => literal_of_makeToken, ?_⟩
  · have hnot : ¬ intMax < (Numeral.value text : Int) := by omega
    simp only [if_neg hnot]
    exact ⟨trivial, trivial, Literal.ofInt_natCast hrange⟩
  · simp only [if_pos hover]
    exact ⟨trivial, trivial⟩
  · split
    · exact iff_of_true rfl ‹_›
    · exact iff_of_false nofun ‹_›
  · intro ops item hitem hkind
    obtain ⟨text, hspells⟩ := spells_of_givenBy hitem
    exact hspells.integer_literal hkind

/-- The greatest integer behind leading zeros, on a machine that would not convert all of these
    digits, and the integer after it. -/
theorem integer_shortcut_exact_zeros :
    (∀ c ∈ "00000000002147483647".toList, Numeral.isDigit c) ∧ 10 ≤ 10 ∧
    Lenient.integer? .unicode 10 "00000000002147483647".toList = none ∧
    readInteger 10 "00000000002147483647".toList = .ok 2147483647 ∧
    makeToken .integer "2147483648".toList (some ⟨0, 10⟩) (start []) =
      .error ⟨.integerOverflow, "2147483648".toList, some ⟨0, 10⟩⟩
        { start [] with done := true } := by
  have hzeros : ∀ c ∈ "00000000002147483647".toList, Numeral.isDigit c :=
    List.all_eq_true.1 (by decide)
  have hnext : ∀ c ∈ "2147483648".toList, Numeral.isDigit c :=
    List.all_eq_true.1 (by decide)
  have hten : 10 ≤ 10 := Nat.le_refl _
  have hfits := (integer_shortcut_exact hzeros hten none (start [])).1 (by decide)
  have hover := (integer_shortcut_exact hnext hten (some ⟨0, 10⟩) (start [])).2.1 (by decide)
  have hvalue : Numeral.positional "00000000002147483647".toList = 2147483647 := by decide
  have hread := hfits.2.1
  rw [hvalue] at hread
  exact ⟨hzeros, hten, by decide, hread, hover.1⟩

end Lexer

end ScriptFront
