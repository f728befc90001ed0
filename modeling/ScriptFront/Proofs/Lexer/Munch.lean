import ScriptFront.Rule
import ScriptFront.Proofs.Lexer.Pattern

set_option autoImplicit false

/-! # Maximal munch

The rule table is searched for the longest prefix of the input that any rule describes, and for the
earliest rule that describes it (`Munches`). -/

namespace ScriptFront

/-- The rule takes the text from the input: no rule describes a longer beginning of the input, and
    no earlier rule describes this one. -/
structure Munches (input : Text) (rule : Rule) (text : Text) : Prop where
  begins : text <+: input
  described : rule.pattern.Matches text
  longest : ∀ other ∈ Rule.table, ∀ text', text' <+: input → other.pattern.Matches text' →
    text'.length ≤ text.length
  earliest : ∃ before after, Rule.table = before ++ rule :: after ∧
    ∀ other ∈ before, ¬ other.pattern.Matches text

theorem Munches.mem {input text : Text} {rule : Rule} (h : Munches input rule text) :
    rule ∈ Rule.table := by
  obtain ⟨before, after, htable, -⟩ := h.earliest
  rw [htable]
  exact List.mem_append_right _ List.mem_cons_self

/-- A text that a rule takes begins with every text that a rule describes. -/
theorem Munches.extends {input text piece : Text} {rule : Rule} (h : Munches input rule text)
    (other : Rule) (hmem : other ∈ Rule.table) (hpiece : piece <+: input)
    (hmatches : other.pattern.Matches piece) : piece <+: text :=
  List.prefix_of_prefix_length_le hpiece h.begins (h.longest other hmem piece hpiece hmatches)

/-- There is only one rule that takes a text from an input, and only one text that it takes. -/
theorem Munches.unique {input text text' : Text} {rule rule' : Rule} (h : Munches input rule text)
    (h' : Munches input rule' text') : rule = rule' ∧ text = text' := by
  have hbegins := h.extends rule' h'.mem h'.begins h'.described
  have hbegins' := h'.extends rule h.mem h.begins h.described
  obtain rfl := hbegins'.eq_of_length_le hbegins.length_le
  refine ⟨?_, rfl⟩
  -- both are the first rule of the table that describes the text
  classical
  have hfirst : ∀ rule, Munches input rule text →
      Rule.table.find? (fun rule => rule.pattern.Matches text) = some rule := by
    intro rule h
    obtain ⟨before, after, htable, hbefore⟩ := h.earliest
    refine List.find?_eq_some_iff_append.2 ⟨by simpa using h.described, before, after, htable, ?_⟩
    simpa using hbefore
  exact Option.some.inj ((hfirst rule h).symm.trans (hfirst rule' h'))

namespace Rule

variable {input : Text} {rules : List Rule}

/-- The search finds nothing if no rule reaches anywhere. -/
theorem furthest_eq_none (h : furthest input rules = none) :
    ∀ rule ∈ rules, rule.pattern.reach input = 0 := by
  induction rules with
  | nil => simp
  | cons rule rules ih =>
      unfold furthest at h
      cases hrest : furthest input rules with
      | some found => rw [hrest] at h; simp only at h; split at h <;> exact absurd h (by simp)
      | none =>
          rw [hrest] at h
          simp only at h
          split at h
          · next hzero =>
              intro other hother
              rcases List.mem_cons.1 hother with rfl | hother
              · exact hzero
              · exact ih hrest other hother
          · exact absurd h (by simp)

/-- The search finds the first of the rules that reach furthest. -/
theorem furthest_eq_some {rule : Rule} {n : Nat} (h : furthest input rules = some (rule, n)) :
    n ≠ 0 ∧ rule.pattern.reach input = n ∧ ∃ before after, rules = before ++ rule :: after ∧
      (∀ other ∈ before, other.pattern.reach input < n) ∧
      ∀ other ∈ after, other.pattern.reach input ≤ n := by
  induction rules generalizing rule n with
  | nil => exact absurd h (by simp [furthest])
  | cons first rules ih =>
      unfold furthest at h
      cases hrest : furthest input rules with
      | none =>
          rw [hrest] at h
          simp only at h
          split at h
          · exact absurd h (by simp)
          · next hzero =>
              obtain ⟨rfl, rfl⟩ := Prod.mk.inj (Option.some.inj h)
              refine ⟨hzero, rfl, [], rules, rfl, by simp, fun other hother => ?_⟩
              rw [furthest_eq_none hrest other hother]
              exact Nat.zero_le _
      | some found =>
          -- of equals the search keeps the earlier one, so the comparison is strict before it
          obtain ⟨hfar, hreach, before, after, hrules, hbefore, hafter⟩ := ih hrest
          rw [hrest] at h
          simp only at h
          split at h
          · next hlt =>
              obtain ⟨rfl, rfl⟩ := Prod.mk.inj (Option.some.inj h)
              refine ⟨hfar, hreach, first :: before, after, by rw [hrules]; rfl, ?_, hafter⟩
              intro other hother
              rcases List.mem_cons.1 hother with rfl | hother
              · exact hlt
              · exact hbefore other hother
          · next hge =>
              obtain ⟨rfl, rfl⟩ := Prod.mk.inj (Option.some.inj h)
              refine ⟨by omega, rfl, [], rules, rfl, by simp, fun other hother => ?_⟩
              rw [hrules] at hother
              rcases List.mem_append.1 hother with hother | hother
              · have := hbefore other hother
                omega
              · rcases List.mem_cons.1 hother with rfl | hother
                · omega
                · have := hafter other hother
                  omega

/-- What the search of the whole table finds takes a text from the input. -/
theorem select_eq_some {rule : Rule} {n : Nat} (h : select input = some (rule, n)) :
    ∃ text, text.length = n ∧ Munches input rule text := by
  obtain ⟨hzero, hreach, before, after, htable, hbefore, hafter⟩ := furthest_eq_some h
  obtain ⟨text, hbegins, hlength, hmatches⟩ := Pattern.reaches_reach (hreach ▸ hzero)
  rw [hreach] at hlength
  have hle : ∀ other ∈ table, other.pattern.reach input ≤ n := by
    intro other hother
    rw [htable] at hother
    rcases List.mem_append.1 hother with hother | hother
    · exact Nat.le_of_lt (hbefore other hother)
    · rcases List.mem_cons.1 hother with rfl | hother
      · exact Nat.le_of_eq hreach
      · exact hafter other hother
  refine ⟨text, hlength, hbegins, hmatches, ?_, before, after, htable, ?_⟩
  · intro other hother text' hbegins' hmatches'
    rw [hlength]
    exact Nat.le_trans (Pattern.length_le_reach hmatches' hbegins') (hle other hother)
  · intro other hother hmatches'
    have hlt := hbefore other hother
    have hge := Pattern.length_le_reach hmatches' hbegins
    omega

/-- The search finds something if a rule describes a beginning of the input. -/
theorem select_ne_none {rule : Rule} {text : Text} (hrule : rule ∈ table)
    (hmatches : rule.pattern.Matches text) (hbegins : text <+: input) :
    select input ≠ none := by
  intro hnone
  have hle := Pattern.length_le_reach hmatches hbegins
  rw [furthest_eq_none hnone rule hrule] at hle
  exact hmatches.ne_nil (List.length_eq_zero_iff.1 (Nat.le_zero.1 hle))

/-- Then some rule takes a text from the input. -/
theorem exists_munches {rule : Rule} {text : Text} (hrule : rule ∈ table)
    (hmatches : rule.pattern.Matches text) (hbegins : text <+: input) :
    ∃ rule text, Munches input rule text := by
  cases hfound : select input with
  | none => exact absurd hfound (select_ne_none hrule hmatches hbegins)
  | some found =>
      obtain ⟨text, -, hmunches⟩ := select_eq_some hfound
      exact ⟨found.1, text, hmunches⟩

end Rule

end ScriptFront
