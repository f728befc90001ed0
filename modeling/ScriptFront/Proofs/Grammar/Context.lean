import ScriptFront.Proofs.Grammar.Derivation

set_option autoImplicit false

/-! # Places in a derivation

`Context` describes a sentence with one phrase left out: the items before the gap and behind it,
and the `assign` phrases that the gap lies in, by the places at which they begin. What stands
before the gap is then the beginning of a program, since any phrase of the right sort closes the
gap (`Context.fill`). -/

namespace ScriptFront.Grammar

/-- A sentence with one phrase left out, `before` and `after` being what stands around the gap.
    `starts` are the places at which the `assign` phrases around the gap begin, the innermost
    first. -/
inductive Context : Phrase → List Nat → List Item → List Item → Prop
  | statement {before after : List Item} {semicolon : Item} :
      Sentence before → semicolon.kind = .semicolon → Sentence after →
      Context .assign [] before (semicolon :: after)
  | printed {starts : List Nat} {before after : List Item} {word : Item} :
      Context .assign starts before after → word.kind = .print →
      Context .assign (before.length :: starts) (before ++ [word]) after
  | assigned {starts : List Nat} {before after : List Item} {name equals : Item} :
      Context .assign starts before after → name.kind = .identifier →
      equals.kind = .equals →
      Context .assign (before.length :: starts) (before ++ [name, equals]) after
  | term {starts : List Nat} {before after : List Item} :
      Context .assign starts before after → Context .term (before.length :: starts) before after
  | leftOfSum {starts : List Nat} {before after rights : List Item} {sign : Item}
      {operator : Operator} {depth : Nat} {right : Expr} :
      Context .term starts before after → TermSign sign.kind operator →
      Derives .fact depth rights right →
      Context .term starts before (sign :: rights ++ after)
  | rightOfSum {starts : List Nat} {before after lefts : List Item} {sign : Item}
      {operator : Operator} {depth : Nat} {left : Expr} :
      Context .term starts before after → Derives .term depth lefts left →
      TermSign sign.kind operator →
      Context .fact starts (before ++ lefts ++ [sign]) after
  | fact {starts : List Nat} {before after : List Item} :
      Context .term starts before after → Context .fact starts before after
  | leftOfProduct {starts : List Nat} {before after rights : List Item} {sign : Item}
      {operator : Operator} {depth : Nat} {right : Expr} :
      Context .fact starts before after → FactSign sign.kind operator →
      Derives .atom depth rights right →
      Context .fact starts before (sign :: rights ++ after)
  | rightOfProduct {starts : List Nat} {before after lefts : List Item} {sign : Item}
      {operator : Operator} {depth : Nat} {left : Expr} :
      Context .fact starts before after → Derives .fact depth lefts left →
      FactSign sign.kind operator →
      Context .atom starts (before ++ lefts ++ [sign]) after
  | atom {starts : List Nat} {before after : List Item} :
      Context .fact starts before after → Context .atom starts before after
  | parens {starts : List Nat} {before after : List Item} {opening closing : Item} :
      Context .atom starts before after → opening.kind = .leftParen →
      closing.kind = .rightParen →
      Context .assign starts (before ++ [opening]) (closing :: after)

namespace Context

/-- A context filled with a phrase of its sort is a sentence. -/
theorem fill {phrase : Phrase} {starts : List Nat} {before after : List Item}
    (h : Context phrase starts before after) {depth : Nat} {items : List Item} {tree : Expr}
    (hitems : Derives phrase depth items tree) : Sentence (before ++ items ++ after) := by
  induction h generalizing depth items tree with
  | statement hbefore hsemi hafter =>
      simpa using hbefore.append ((Sentence.ofStatement hitems hsemi).append hafter)
  | printed _ hword ih => simpa using ih (.print hword hitems)
  | assigned _ hname hequals ih => simpa using ih (.target hname hequals hitems)
  | term _ ih => exact ih (.ofTerm hitems)
  -- the other operand has a depth of its own, so both are taken to the greater one
  | @leftOfSum _ _ _ _ _ _ d _ _ hsign hright ih =>
      have hsum := Derives.sum (hitems.mono (Nat.le_max_left depth d)) hsign
        (hright.mono (Nat.le_max_right depth d))
      simpa using ih hsum
  | @rightOfSum _ _ _ _ _ _ d _ _ hleft hsign ih =>
      have hsum := Derives.sum (hleft.mono (Nat.le_max_left d depth)) hsign
        (hitems.mono (Nat.le_max_right d depth))
      simpa using ih hsum
  | fact _ ih => exact ih (.ofFact hitems)
  | @leftOfProduct _ _ _ _ _ _ d _ _ hsign hright ih =>
      have hproduct := Derives.product (hitems.mono (Nat.le_max_left depth d)) hsign
        (hright.mono (Nat.le_max_right depth d))
      simpa using ih hproduct
  | @rightOfProduct _ _ _ _ _ _ d _ _ hleft hsign ih =>
      have hproduct := Derives.product (hleft.mono (Nat.le_max_left d depth)) hsign
        (hitems.mono (Nat.le_max_right d depth))
      simpa using ih hproduct
  | atom _ ih => exact ih (.ofAtom hitems)
  | parens _ hopening hclosing ih => simpa using ih (.parens hopening hitems hclosing)

/-- Every sort of phrase has a member of one item. -/
theorem exists_derives (phrase : Phrase) :
    ∃ items tree, Derives phrase 1 items tree := by
  have hatom : Derives .atom 0 [⟨⟨.integer, .none⟩, ⟨0, 1⟩⟩] (.literal ⟨0, 1⟩ .none) :=
    @Derives.integer 0 ⟨⟨.integer, .none⟩, ⟨0, 1⟩⟩ rfl
  cases phrase with
  | assign => exact ⟨_, _, .ofTerm (.ofFact (.ofAtom hatom))⟩
  | term => exact ⟨_, _, .ofFact (.ofAtom (hatom.mono (by omega)))⟩
  | fact => exact ⟨_, _, .ofAtom (hatom.mono (by omega))⟩
  | atom => exact ⟨_, _, hatom.mono (by omega)⟩

/-- What stands before a gap can be continued to a whole program. -/
theorem viable {phrase : Phrase} {starts : List Nat} {before after : List Item}
    (h : Context phrase starts before after) : Viable before := by
  obtain ⟨items, tree, hitems⟩ := exists_derives phrase
  exact ⟨items ++ after, by simpa using h.fill hitems⟩

/-- So can what stands before a gap together with a phrase that closes it. -/
theorem viable_fill {phrase : Phrase} {starts : List Nat} {before after : List Item}
    (h : Context phrase starts before after) {depth : Nat} {items : List Item} {tree : Expr}
    (hitems : Derives phrase depth items tree) : Viable (before ++ items) :=
  ⟨after, h.fill hitems⟩

/-- Every operand lies in some `assign`. -/
theorem starts_ne_nil {phrase : Phrase} {starts : List Nat} {before after : List Item}
    (h : Context phrase starts before after) (hphrase : phrase ≠ .assign) : starts ≠ [] := by
  induction h with
  | statement _ _ _ | printed _ _ _ | assigned _ _ _ _ | parens _ _ _ _ =>
      exact absurd rfl hphrase
  | term _ _ => simp
  | leftOfSum _ _ _ ih | rightOfSum _ _ _ ih | fact _ ih | leftOfProduct _ _ _ ih
  | rightOfProduct _ _ _ ih | atom _ ih => exact ih (by decide)

end Context

end ScriptFront.Grammar
