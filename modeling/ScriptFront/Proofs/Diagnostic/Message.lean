import ScriptFront.Failure
import ScriptFront.Text.Numeral

set_option autoImplicit false

/-! # Messages have no newline

The messages of errors are put together from fixed words, numerals, names of kinds, and quoted
texts, in which a newline is written as an escape. The only text that is taken over as it stands is
the lexeme of a lexical error. -/

namespace ScriptFront

/-! ## Numerals and quoted texts -/

theorem not_mem_toDigits {base : Nat} (hbase : 1 < base) (n : Nat) :
    '\n' ∉ Nat.toDigits base n := by
  induction n using Nat.strongRecOn with
  | ind n ih =>
      rw [Nat.toDigits_eq_if hbase]
      split
      · simp
      · have hlt : n / base < n := Nat.div_lt_self (by omega) hbase
        simpa using ih _ hlt

namespace Numeral

theorem not_mem_ofNat (n : Nat) : '\n' ∉ ofNat n := not_mem_toDigits (by decide) n

theorem not_mem_ofInt (n : Int) : '\n' ∉ ofInt n := by
  cases n with
  | ofNat n => exact not_mem_ofNat n
  | negSucc n => simpa [ofInt] using not_mem_ofNat (n + 1)

end Numeral

namespace Quoted

theorem not_mem_hex (width n : Nat) : '\n' ∉ hex width n := by
  simpa [hex] using not_mem_toDigits (by decide) n

theorem not_mem_codePoint (c : Char) : '\n' ∉ codePoint c := by
  unfold codePoint
  split
  · simpa using not_mem_hex 2 c.toNat
  split
  · simpa using not_mem_hex 4 c.toNat
  · simpa using not_mem_hex 8 c.toNat

theorem not_mem_escape {quote : Char} (hquote : quote ≠ '\n') (c : Char) :
    '\n' ∉ escape quote c := by
  unfold escape
  split
  · next hc =>
      have hne : c ≠ '\n' := by
        rcases hc with rfl | rfl
        · exact hquote
        · decide
      simpa using hne.symm
  split
  · decide
  split
  · decide
  split
  · decide
  split
  · next hne _ _ _ => simpa using fun h => hne h.symm
  · exact not_mem_codePoint c

theorem not_mem_quote (text : Text) : '\n' ∉ quote text := by
  have hmark : quoteFor text ≠ '\n' := by
    unfold quoteFor
    split <;> decide
  simpa [quote, hmark.symm] using fun c _ => not_mem_escape hmark c

end Quoted

/-! ## Messages -/

theorem TokenKind.not_mem_name (kind : TokenKind) : '\n' ∉ kind.name := by
  cases kind <;> decide

theorem Payload.not_mem_display (payload : Payload) : '\n' ∉ payload.display := by
  cases payload with
  | none => decide
  | integer value => exact Numeral.not_mem_ofInt value
  | text value => exact Quoted.not_mem_quote value

theorem Token.not_mem_display (token : Token) : '\n' ∉ token.display := by
  obtain ⟨kind, payload⟩ := token
  have hpayload := payload.not_mem_display
  unfold display
  simp only [List.mem_append, not_or]
  refine ⟨⟨⟨by decide, kind.not_mem_name⟩, ?_⟩, by decide⟩
  cases payload with
  | none => decide
  | integer | text => exact fun h => (List.mem_append.1 h).elim (by decide) hpayload

theorem LexError.not_mem_message {error : LexError} (h : '\n' ∉ error.lexeme) :
    '\n' ∉ error.message := by
  unfold message
  split
  · simpa using h
  · simpa using h
  · decide

theorem SyntaxError.not_mem_message {error : SyntaxError} (h : '\n' ∉ error.complaint.text) :
    '\n' ∉ error.message := by
  unfold message
  split
  · next token span _ _ =>
      simpa using ⟨h, token.not_mem_display, Numeral.not_mem_ofInt span.lo,
        Numeral.not_mem_ofInt span.hi⟩
  · exact h

theorem SourceError.not_mem_label (error : SourceError) : '\n' ∉ error.label := by
  unfold label
  split <;> decide

end ScriptFront
