import Mathlib.Data.List.TakeWhile
import ScriptFront.Pattern

set_option autoImplicit false

/-! # How far a pattern reaches

The reach of a pattern is what it is meant to be: the length of the longest prefix of the input that
the pattern describes (`reaches_reach`, `length_le_reach`). -/

namespace ScriptFront.Pattern

/-! ## Runs -/

section Runs

variable {inClass : Char → Bool} {text input : Text}

theorem le_runLength (htext : ∀ c ∈ text, inClass c) (hbegins : text <+: input) :
    text.length ≤ runLength inClass input := by
  obtain ⟨rest, rfl⟩ := hbegins
  rw [runLength, List.takeWhile_append_of_pos htext, List.length_append]
  exact Nat.le_add_right ..

end Runs

/-! ## The first closing of a block comment -/

/-- A text ends with the first closing in it. -/
def EndsFirst (body : Text) : Prop :=
  ∀ before after, body ++ blockClose = before ++ blockClose ++ after → after = []

theorem EndsFirst.nil : EndsFirst [] := by
  intro before after h
  have hlength := congrArg List.length h
  rw [List.length_append, List.length_append, List.length_append] at hlength
  exact List.length_eq_zero_iff.1 (by rw [List.length_nil] at hlength; omega)

theorem closing?_eq_some {text : Text} {n : Nat} (h : closing? text = some n) :
    ∃ body, body ++ blockClose <+: text ∧ n = body.length + 2 ∧ EndsFirst body := by
  induction text generalizing n with
  | nil => exact absurd h (by simp [closing?])
  | cons c rest ih =>
      unfold closing? at h
      split at h
      · next hclose =>
          exact ⟨[], List.isPrefixOf_iff_prefix.1 hclose, (Option.some.inj h).symm, .nil⟩
      · next hclose =>
          obtain ⟨m, hm, rfl⟩ := Option.map_eq_some_iff.1 h
          obtain ⟨body, hbegins, rfl, hfirst⟩ := ih hm
          refine ⟨c :: body, List.cons_prefix_cons.2 ⟨rfl, hbegins⟩, rfl, ?_⟩
          intro before after heq
          cases before with
          | nil =>
              -- a closing at the very beginning would have been found there
              have hstart : blockClose <+: c :: (body ++ blockClose) := ⟨after, heq.symm⟩
              have hwhole := hstart.trans (List.cons_prefix_cons.2 ⟨rfl, hbegins⟩)
              exact absurd (List.isPrefixOf_iff_prefix.2 hwhole) hclose
          | cons d before => exact hfirst before after (List.cons.inj heq).2

theorem closing?_isSome {body text : Text} (h : body ++ blockClose <+: text) :
    ∃ n, closing? text = some n := by
  induction body generalizing text with
  | nil =>
      obtain ⟨after, rfl⟩ := h
      exact ⟨2, rfl⟩
  | cons c body ih =>
      obtain ⟨after, rfl⟩ := h
      obtain ⟨n, hn⟩ := ih (List.prefix_append (body ++ blockClose) after)
      show ∃ n, closing? (c :: (body ++ blockClose ++ after)) = some n
      unfold closing?
      split
      · exact ⟨2, rfl⟩
      · exact ⟨n + 1, by rw [hn]; rfl⟩

/-- Of two texts that end with the first closing in them neither begins the other. -/
theorem EndsFirst.length_le {body body' text : Text} (h : EndsFirst body)
    (hbody : body ++ blockClose <+: text) (hbody' : body' ++ blockClose <+: text) :
    body.length ≤ body'.length := by
  refine Nat.le_of_not_lt fun hlt => ?_
  -- the shorter text would be a closing within the longer one, with nothing behind it
  have hlength : (body' ++ blockClose).length ≤ (body ++ blockClose).length := by simp; omega
  obtain ⟨after, hafter⟩ := List.prefix_of_prefix_length_le hbody' hbody hlength
  obtain rfl := h body' after hafter.symm
  have hsame := congrArg List.length hafter
  simp only [List.length_append, List.length_nil] at hsame
  omega

/-! ## The last quote of a line -/

theorem lastQuote?_eq_some {text : Text} {n : Nat} (h : lastQuote? text = some n) :
    ∃ body, body ++ [doubleQuote] <+: text ∧ n = body.length + 1 := by
  induction text generalizing n with
  | nil => exact absurd h (by simp [lastQuote?])
  | cons c rest ih =>
      unfold lastQuote? at h
      split at h
      · next m hm =>
          obtain ⟨body, hbegins, rfl⟩ := ih hm
          exact ⟨c :: body, List.cons_prefix_cons.2 ⟨rfl, hbegins⟩, (Option.some.inj h).symm⟩
      · split at h
        · next hquote =>
            obtain rfl := Option.some.inj h
            exact ⟨[], hquote ▸ ⟨rest, rfl⟩, rfl⟩
        · exact absurd h (by simp)

theorem length_lt_lastQuote? {body text : Text} (h : body ++ [doubleQuote] <+: text) :
    ∃ n, lastQuote? text = some n ∧ body.length < n := by
  induction body generalizing text with
  | nil =>
      obtain ⟨after, rfl⟩ := h
      show ∃ n, lastQuote? (doubleQuote :: after) = some n ∧ 0 < n
      unfold lastQuote?
      cases lastQuote? after with
      | some n => exact ⟨n + 1, rfl, by omega⟩
      | none => exact ⟨1, if_pos rfl, by omega⟩
  | cons c body ih =>
      obtain ⟨after, rfl⟩ := h
      obtain ⟨n, hn, hlt⟩ := ih (List.prefix_append (body ++ [doubleQuote]) after)
      refine ⟨n + 1, ?_, by simpa using hlt⟩
      show lastQuote? (c :: (body ++ [doubleQuote] ++ after)) = some (n + 1)
      rw [lastQuote?, hn]

/-! ## Every pattern -/

/-- No pattern describes the empty text. -/
theorem Matches.ne_nil {pattern : Pattern} {text : Text} (h : pattern.Matches text) :
    text ≠ [] := by
  cases pattern with
  | blanks | digits => exact h.1
  | word => obtain ⟨rfl, hne⟩ := h; exact hne
  | blockComment => obtain ⟨body, rfl, -⟩ := h; simp [blockOpen]
  | lineComment => obtain ⟨body, rfl, -⟩ := h; simp [lineOpen]
  | quoted => obtain ⟨body, rfl, -⟩ := h; simp
  | name => obtain ⟨first, others, rfl, -⟩ := h; simp

/-- The characters that what a pattern describes may begin with. -/
def Starts : Pattern → Char → Prop
  | blanks, c => isBlank c
  | blockComment, c | lineComment, c => c = '/'
  | word text, c => text.head? = some c
  | digits, c => Numeral.isDigit c
  | quoted, c => c = doubleQuote
  | name, c => isNameStart c

instance (pattern : Pattern) (c : Char) : Decidable (pattern.Starts c) :=
  match pattern with
  | blanks => inferInstanceAs (Decidable (isBlank c))
  | blockComment | lineComment => inferInstanceAs (Decidable (c = '/'))
  | word text => inferInstanceAs (Decidable (text.head? = some c))
  | digits => inferInstanceAs (Decidable (Numeral.isDigit c))
  | quoted => inferInstanceAs (Decidable (c = doubleQuote))
  | name => inferInstanceAs (Decidable (isNameStart c))

theorem Matches.starts {pattern : Pattern} {c : Char} {others : Text}
    (h : pattern.Matches (c :: others)) : pattern.Starts c := by
  cases pattern with
  | blanks | digits => exact h.2 c List.mem_cons_self
  | blockComment | lineComment | quoted =>
      obtain ⟨body, heq, -⟩ := h
      exact (List.cons.inj heq).1
  | word text =>
      obtain ⟨rfl, -⟩ := h
      rfl
  | name =>
      obtain ⟨first, _, heq, hstart, -⟩ := h
      obtain ⟨rfl, -⟩ := List.cons.inj heq
      exact hstart

/-- The pattern describes the first `n` characters of the input. -/
def Reaches (pattern : Pattern) (input : Text) (n : Nat) : Prop :=
  ∃ text, text <+: input ∧ text.length = n ∧ pattern.Matches text

theorem reach_blockOpen (rest : Text) :
    blockComment.reach (blockOpen ++ rest) = ((closing? rest).map (· + 2)).getD 0 := rfl

theorem reach_lineOpen (rest : Text) :
    lineComment.reach (lineOpen ++ rest) = 2 + runLength (· ≠ '\n') rest := rfl

theorem reach_quote (rest : Text) : quoted.reach (doubleQuote :: rest) =
    ((lastQuote? (rest.takeWhile (· ≠ '\n'))).map (· + 1)).getD 0 := rfl

theorem blockComment_reaches {input : Text} (h : blockComment.reach input ≠ 0) :
    blockComment.Reaches input (blockComment.reach input) := by
  have hopen : blockOpen <+: input := by
    refine List.isPrefixOf_iff_prefix.1 (Decidable.byContradiction fun hopen => h ?_)
    simp only [reach]
    rw [if_neg hopen]
  obtain ⟨rest, rfl⟩ := hopen
  rw [reach_blockOpen] at h ⊢
  cases hclose : closing? rest with
  | none => rw [hclose] at h; exact absurd rfl h
  | some n =>
      obtain ⟨body, hbegins, rfl, hfirst⟩ := closing?_eq_some hclose
      refine ⟨blockOpen ++ body ++ blockClose, ?_, ?_, body, rfl, hfirst⟩
      · rw [List.append_assoc]
        exact (List.prefix_append_right_inj blockOpen).2 hbegins
      · simp [blockOpen, blockClose]

theorem lineComment_reaches {input : Text} (h : lineComment.reach input ≠ 0) :
    lineComment.Reaches input (lineComment.reach input) := by
  have hopen : lineOpen <+: input := by
    refine List.isPrefixOf_iff_prefix.1 (Decidable.byContradiction fun hopen => h ?_)
    simp only [reach]
    rw [if_neg hopen]
  obtain ⟨rest, rfl⟩ := hopen
  rw [reach_lineOpen]
  refine ⟨lineOpen ++ rest.takeWhile (· ≠ '\n'), ?_, ?_, _, rfl, fun hmem => ?_⟩
  · exact (List.prefix_append_right_inj lineOpen).2 (List.takeWhile_prefix _)
  · rw [List.length_append]; rfl
  · exact absurd (List.mem_takeWhile_imp hmem) (by simp)

theorem quoted_reaches {input : Text} (h : quoted.reach input ≠ 0) :
    quoted.Reaches input (quoted.reach input) := by
  cases input with
  | nil => exact absurd rfl h
  | cons c rest =>
      by_cases hquote : c = doubleQuote
      · subst hquote
        rw [reach_quote] at h ⊢
        cases hlast : lastQuote? (rest.takeWhile (· ≠ '\n')) with
        | none => rw [hlast] at h; exact absurd rfl h
        | some n =>
            obtain ⟨body, hbegins, rfl⟩ := lastQuote?_eq_some hlast
            refine ⟨doubleQuote :: (body ++ [doubleQuote]), ?_, by simp, body, rfl,
              fun hmem => ?_⟩
            · exact List.cons_prefix_cons.2 ⟨rfl, hbegins.trans (List.takeWhile_prefix _)⟩
            · have hline := hbegins.subset (List.mem_append_left _ hmem)
              exact absurd (List.mem_takeWhile_imp hline) (by simp)
      · exact absurd (if_neg hquote) h

theorem name_reaches {input : Text} (h : name.reach input ≠ 0) :
    name.Reaches input (name.reach input) := by
  cases input with
  | nil => exact absurd rfl h
  | cons c rest =>
      simp only [reach] at h ⊢
      split at h
      · next hstart =>
          rw [if_pos hstart]
          refine ⟨c :: rest.takeWhile isNamePart, ?_, Nat.add_comm _ _, c, _, rfl, hstart,
            fun _ => List.mem_takeWhile_imp⟩
          exact List.cons_prefix_cons.2 ⟨rfl, List.takeWhile_prefix _⟩
      · exact absurd rfl h

/-- As far as a pattern reaches, it describes the input. -/
theorem reaches_reach {pattern : Pattern} {input : Text} (h : pattern.reach input ≠ 0) :
    pattern.Reaches input (pattern.reach input) := by
  cases pattern with
  | blanks =>
      exact ⟨input.takeWhile isBlank, List.takeWhile_prefix _, rfl,
        fun hnil => h (congrArg List.length hnil), fun _ => List.mem_takeWhile_imp⟩
  | digits =>
      exact ⟨input.takeWhile Numeral.isDigit, List.takeWhile_prefix _, rfl,
        fun hnil => h (congrArg List.length hnil), fun _ => List.mem_takeWhile_imp⟩
  | word text =>
      simp only [reach] at h ⊢
      split at h
      · next hbegins =>
          rw [if_pos hbegins]
          exact ⟨text, List.isPrefixOf_iff_prefix.1 hbegins, rfl, rfl,
            fun hnil => h (congrArg List.length hnil)⟩
      · exact absurd rfl h
  | blockComment => exact blockComment_reaches h
  | lineComment => exact lineComment_reaches h
  | quoted => exact quoted_reaches h
  | name => exact name_reaches h

theorem length_le_reach_blockComment {text input : Text} (h : blockComment.Matches text)
    (hbegins : text <+: input) : text.length ≤ blockComment.reach input := by
  obtain ⟨body, rfl, hfirst⟩ := h
  rw [List.append_assoc] at hbegins
  obtain ⟨rest, rfl⟩ := (List.prefix_append blockOpen _).trans hbegins
  have hbody := (List.prefix_append_right_inj blockOpen).1 hbegins
  obtain ⟨n, hclose⟩ := closing?_isSome hbody
  obtain ⟨body', hbody', rfl, -⟩ := closing?_eq_some hclose
  have hle := EndsFirst.length_le hfirst hbody hbody'
  rw [reach_blockOpen, hclose]
  simp [blockOpen, blockClose]
  omega

theorem length_le_reach_lineComment {text input : Text} (h : lineComment.Matches text)
    (hbegins : text <+: input) : text.length ≤ lineComment.reach input := by
  obtain ⟨body, rfl, hline⟩ := h
  obtain ⟨rest, rfl⟩ := (List.prefix_append lineOpen _).trans hbegins
  have hbody := (List.prefix_append_right_inj lineOpen).1 hbegins
  have hle : body.length ≤ runLength (· ≠ '\n') rest := by
    refine le_runLength (fun c hc => ?_) hbody
    have hne : c ≠ '\n' := fun hc' => hline (hc' ▸ hc)
    simpa using hne
  rw [reach_lineOpen, List.length_append]
  exact Nat.add_le_add_left hle 2

theorem length_le_reach_quoted {text input : Text} (h : quoted.Matches text)
    (hbegins : text <+: input) : text.length ≤ quoted.reach input := by
  obtain ⟨body, rfl, hline⟩ := h
  obtain ⟨rest, rfl⟩ := hbegins
  have hquoted : ∀ c ∈ body ++ [doubleQuote], decide (c ≠ '\n') = true := by
    intro c hc
    rw [decide_eq_true_eq]
    rcases List.mem_append.1 hc with hc | hc
    · exact fun hc' => hline (hc' ▸ hc)
    · rw [List.mem_singleton.1 hc]
      decide
  have hbody : body ++ [doubleQuote] <+: (body ++ [doubleQuote] ++ rest).takeWhile (· ≠ '\n') := by
    rw [List.takeWhile_append_of_pos hquoted]
    exact List.prefix_append ..
  obtain ⟨n, hlast, hlt⟩ := length_lt_lastQuote? hbody
  rw [List.cons_append, reach_quote, hlast]
  simp
  omega

theorem length_le_reach_name {text input : Text} (h : name.Matches text)
    (hbegins : text <+: input) : text.length ≤ name.reach input := by
  obtain ⟨first, others, rfl, hstart, hothers⟩ := h
  obtain ⟨rest, rfl⟩ := hbegins
  have hle := le_runLength hothers (List.prefix_append others rest)
  show _ ≤ reach name (first :: (others ++ rest))
  simp only [reach]
  rw [if_pos hstart, List.length_cons, Nat.add_comm]
  exact Nat.add_le_add_left hle 1

/-- A pattern reaches as far as any prefix of the input that it describes. -/
theorem length_le_reach {pattern : Pattern} {text input : Text} (h : pattern.Matches text)
    (hbegins : text <+: input) : text.length ≤ pattern.reach input := by
  cases pattern with
  | blanks | digits => exact le_runLength h.2 hbegins
  | word other =>
      obtain ⟨rfl, -⟩ := h
      simp only [reach]
      exact Nat.le_of_eq (if_pos (List.isPrefixOf_iff_prefix.2 hbegins)).symm
  | blockComment => exact length_le_reach_blockComment h hbegins
  | lineComment => exact length_le_reach_lineComment h hbegins
  | quoted => exact length_le_reach_quoted h hbegins
  | name => exact length_le_reach_name h hbegins

end ScriptFront.Pattern
