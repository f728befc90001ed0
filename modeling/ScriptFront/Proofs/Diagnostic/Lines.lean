import Mathlib.Data.List.TakeWhile
import ScriptFront.Diagnostic
import ScriptFront.Proofs.Text.Utf8

set_option autoImplicit false

/-! # Lines

The lines of a text are what is between its newlines: there is one more of them than there are
newlines, and the last one is what is behind the last newline. A newline is one byte that occurs in
no other character, so the lines can be told from the bytes. -/

namespace ScriptFront

open Utf8

/-! ## Lines -/

theorem lines_eq_splitOn (text : Text) : lines text = text.splitOn '\n' := by
  induction text with
  | nil => rfl
  | cons c rest ih =>
      rw [lines, List.splitOn_cons_eq_if_modifyHead, ← ih]
      by_cases hc : c = '\n'
      · simp [hc]
      · rw [if_neg hc, if_neg (by simpa using hc)]
        cases hrest : lines rest with
        | nil => exact absurd (ih.symm.trans hrest) (List.splitOn_ne_nil _ _)
        | cons first others => rfl

/-- A text without newlines is one line. -/
theorem lines_of_not_mem {text : Text} (h : '\n' ∉ text) : lines text = [text] := by
  rw [lines_eq_splitOn, List.splitOn_eq_singleton h]

theorem lines_append_newline (a b : Text) : lines (a ++ '\n' :: b) = lines a ++ lines b := by
  simp only [lines_eq_splitOn, List.splitOn_append_cons_self]

/-- There is one more line than there are newlines. -/
theorem length_lines (text : Text) : (lines text).length = text.count '\n' + 1 := by
  induction text with
  | nil => rfl
  | cons c rest ih =>
      rw [lines_eq_splitOn] at ih ⊢
      rw [List.splitOn_cons_eq_if_modifyHead, List.count_cons]
      split <;> simp [ih]

/-- The first line of a text. -/
theorem lines_getElem?_zero (text : Text) : (lines text)[0]? = some (firstLine text) := by
  induction text with
  | nil => rfl
  | cons c rest ih =>
      rw [lines_eq_splitOn] at ih ⊢
      rw [List.splitOn_cons_eq_if_modifyHead, firstLine]
      by_cases hc : c = '\n'
      · simp [hc]
      · simp [hc, ih, firstLine]

theorem firstLine_append {a : Text} (h : '\n' ∉ a) (b : Text) :
    firstLine (a ++ b) = a ++ firstLine b :=
  List.takeWhile_append_of_pos fun c hc => by
    rw [decide_eq_true_eq]
    rintro rfl
    exact h hc

/-- The first line of a beginning of a text begins the first line of the text. -/
theorem firstLine_begins (a b : Text) : firstLine a <+: firstLine (a ++ b) := by
  unfold firstLine
  rw [List.takeWhile_append]
  split
  · next hall =>
      rw [List.takeWhile_prefix _ |>.eq_of_length hall]
      exact List.prefix_append ..
  · exact List.prefix_rfl

theorem not_mem_firstLine (text : Text) : '\n' ∉ firstLine text := fun h => by
  simpa using List.mem_takeWhile_imp h

/-! ## The last line -/

/-- The last line of a text. -/
def lastLine : Text → Text
  | [] => []
  | c :: rest => if '\n' ∈ rest then lastLine rest else if c = '\n' then rest else c :: rest

theorem not_mem_lastLine (text : Text) : '\n' ∉ lastLine text := by
  induction text with
  | nil => simp [lastLine]
  | cons c rest ih =>
      rw [lastLine]
      split
      · exact ih
      · next hrest =>
          split
          · exact hrest
          · next hc => simpa [hrest] using fun h => hc h.symm

/-- A text ends with its last line, and a newline stands before that, if anything does. -/
theorem eq_lastLine (text : Text) :
    text = lastLine text ∨ ∃ upper, text = upper ++ '\n' :: lastLine text := by
  induction text with
  | nil => exact .inl rfl
  | cons c rest ih =>
      rw [lastLine]
      split
      · next hrest =>
          right
          rcases ih with ih | ⟨upper, ih⟩
          · rw [ih] at hrest
            exact absurd hrest (not_mem_lastLine rest)
          · exact ⟨c :: upper, congrArg (c :: ·) ih⟩
      · split
        · next hc => exact .inr ⟨[], by rw [hc]; rfl⟩
        · exact .inl rfl

theorem lastLine_of_not_mem {text : Text} (h : '\n' ∉ text) : lastLine text = text := by
  rcases eq_lastLine text with htext | ⟨upper, htext⟩
  · exact htext.symm
  · have hmem : '\n' ∈ text := by
      rw [htext]
      simp
    exact absurd hmem h

/-- Where a text goes on, its last line is continued. -/
theorem lines_getElem?_count (before rest : Text) :
    (lines (before ++ rest))[before.count '\n']? = some (lastLine before ++ firstLine rest) := by
  have hlast := not_mem_lastLine before
  rw [← firstLine_append hlast]
  rcases eq_lastLine before with hbefore | ⟨upper, hbefore⟩
  · rw [← hbefore] at hlast ⊢
    rw [List.count_eq_zero_of_not_mem hlast, lines_getElem?_zero]
  · have hcount : before.count '\n' = (lines upper).length := by
      rw [length_lines, hbefore, List.count_append, List.count_cons_self,
        List.count_eq_zero_of_not_mem hlast]
    have hsplit : before ++ rest = upper ++ '\n' :: (lastLine before ++ rest) := by
      rw [← List.cons_append, ← List.append_assoc, ← hbefore]
    rw [hcount, hsplit, lines_append_newline, List.getElem?_append_right (Nat.le_refl _),
      Nat.sub_self, lines_getElem?_zero]

theorem lines_getLast? (text : Text) : (lines text).getLast? = some (lastLine text) := by
  have hlast := lines_getElem?_count text []
  rw [List.append_nil] at hlast
  rw [List.getLast?_eq_getElem?, length_lines, Nat.add_sub_cancel, hlast]
  simp [firstLine]

/-! ## Newlines in bytes -/

/-- A line feed is the byte of a newline, and no other character has it among its bytes. -/
theorem count_encodeChar (c : Char) :
    (String.utf8EncodeChar c).count lineFeed = if c = '\n' then 1 else 0 := by
  have hnewline : c = '\n' ↔ c.val.toNat = 10 := by
    rw [Char.ext_iff, ← UInt32.toNat_inj]
    rfl
  have hbyte {n : Nat} (hn : n < 256) : UInt8.ofNat n = lineFeed ↔ n = 10 := by
    rw [← UInt8.toNat_inj, UInt8.toNat_ofNat', Nat.mod_eq_of_lt hn]
    rfl
  by_cases hshort : c.val.toNat ≤ 0x7F
  · rw [String.utf8EncodeChar, if_pos hshort, List.count_singleton]
    simp only [beq_iff_eq, hbyte (show c.val.toNat < 256 by omega), hnewline]
  · -- every byte of a longer form has its highest bit set
    have hlarge {n : Nat} (hn : 0x80 ≤ n) (hn' : n < 256) : lineFeed ≠ UInt8.ofNat n := fun h => by
      have := (hbyte hn').1 h.symm
      omega
    have hne : c ≠ '\n' := fun h => by
      have := hnewline.1 h
      omega
    rw [if_neg hne, List.count_eq_zero, String.utf8EncodeChar, if_neg hshort]
    split
    · simp only [List.mem_cons, List.not_mem_nil, or_false, not_or]
      exact ⟨hlarge (by omega) (by omega), hlarge (by omega) (by omega)⟩
    split
    · simp only [List.mem_cons, List.not_mem_nil, or_false, not_or]
      exact ⟨hlarge (by omega) (by omega), hlarge (by omega) (by omega),
        hlarge (by omega) (by omega)⟩
    · simp only [List.mem_cons, List.not_mem_nil, or_false, not_or]
      exact ⟨hlarge (by omega) (by omega), hlarge (by omega) (by omega),
        hlarge (by omega) (by omega), hlarge (by omega) (by omega)⟩

theorem afterLastLine_of_not_mem {bytes : List UInt8} (h : lineFeed ∉ bytes) :
    afterLastLine bytes = bytes := by
  cases bytes with
  | nil => rfl
  | cons b bytes =>
      obtain ⟨hb, hbytes⟩ := List.ne_and_not_mem_of_not_mem_cons h
      rw [afterLastLine, if_neg hbytes, if_neg hb.symm]

theorem afterLastLine_append_of_mem (upper : List UInt8) {bytes : List UInt8}
    (h : lineFeed ∈ bytes) : afterLastLine (upper ++ bytes) = afterLastLine bytes := by
  induction upper with
  | nil => rfl
  | cons b upper ih =>
      rw [List.cons_append, afterLastLine, if_pos (List.mem_append_right _ h), ih]

theorem afterLastLine_append (upper : List UInt8) {bytes : List UInt8} (h : lineFeed ∉ bytes) :
    afterLastLine (upper ++ lineFeed :: bytes) = bytes := by
  rw [afterLastLine_append_of_mem upper List.mem_cons_self, afterLastLine, if_neg h, if_pos rfl]

end ScriptFront
