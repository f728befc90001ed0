import ScriptFront.Parser.Operation
import ScriptFront.Proofs.Grammar.Complaint
import ScriptFront.Proofs.Run

set_option autoImplicit false

/-! # What a run of the parser comes to

Every level of the recursive descent is run on the plain machine, at a place where the grammar lets
its phrase stand. Either it takes a phrase and stops before an item that cannot prolong it
(`Took`), or it fails with an error that blames the right item of the whole input (`Stopped`). Both
are proved together, level by level, because where a level stops decides what the next one may
complain of. -/

namespace ScriptFront

/-- Closing the level is the last that is done one level deeper. -/
theorem Run.Ensures.deeper {σ α : Type} [TokenMachine σ] {ok : α → σ → Prop}
    {fail : SourceError → Prop} {body : Parse σ α} {s : σ}
    (h : Ensures (fun b s' => ok b (TokenMachine.leave s')) fail (body (TokenMachine.enter s))) :
    Ensures ok fail (Parse.deeper body s) := by
  unfold Parse.deeper
  revert h
  cases body (TokenMachine.enter s) <;> exact id

/-! ## The operations of the plain machine -/

namespace Unbuffered

open Parse Run

variable {fail : SourceError → Prop}

theorem current_ensures (s : Unbuffered) :
    Ensures (fun item s' => item = s.items.head? ∧ s' = s) fail (current s) :=
  ⟨by rw [List.head?_eq_getElem?], rfl⟩

theorem look_ensures (ahead : Nat) (s : Unbuffered) :
    Ensures (fun item s' => item = s.items[ahead]? ∧ s' = s) fail
      (TokenMachine.look ahead s) :=
  ⟨rfl, rfl⟩

/-- The current item, or the error of an input that has ended. -/
theorem first_ensures (s : Unbuffered) (hend : s.items = [] → fail (.syntactic .atEnd)) :
    Ensures (fun item s' => (∃ rest, s.items = item :: rest) ∧ s' = s) fail (first s) := by
  obtain ⟨items, depth, maxDepth⟩ := s
  cases items with
  | nil => exact hend rfl
  | cons item rest => exact ⟨⟨rest, rfl⟩, rfl⟩

theorem advance_ensures {s : Unbuffered} {item : Item} {rest : List Item}
    (h : s.items = item :: rest) :
    Ensures (fun taken s' => taken = item ∧ s'.items = rest) fail (advance s) := by
  obtain ⟨items, depth, maxDepth⟩ := s
  subst h
  exact ⟨rfl, rfl⟩

/-- Whether the current item is of a kind. -/
theorem isAt_ensures (kind : TokenKind) (s : Unbuffered) :
    Ensures (fun answer s' => (answer = true ↔ ∃ item rest, s.items = item :: rest ∧
      item.kind = kind) ∧ s' = s) fail (isAt [kind] s) := by
  obtain ⟨items, depth, maxDepth⟩ := s
  cases items with
  | nil => exact ⟨by simp, rfl⟩
  | cons item rest => exact ⟨by simp [Item.kind], rfl⟩

/-- The current item if it is of a kind; an item of another kind and the end are complained of. -/
theorem expect_ensures (kind : TokenKind) (complaint : Complaint) (s : Unbuffered)
    (hend : s.items = [] → fail (.syntactic .atEnd))
    (hother : ∀ item rest, s.items = item :: rest → item.kind ≠ kind →
      fail (.syntactic (.blaming (some item) complaint))) :
    Ensures (fun item s' => s.items = item :: s'.items ∧ item.kind = kind) fail
      (expect kind complaint s) := by
  obtain ⟨items, depth, maxDepth⟩ := s
  cases items with
  | nil => exact hend rfl
  | cons item rest =>
      by_cases h : item.kind = kind
      · show Ensures _ fail ((if item.kind = kind then advance else _) _)
        rw [if_pos h]
        exact ⟨rfl, h⟩
      · show Ensures _ fail ((if item.kind = kind then advance else _) _)
        rw [if_neg h]
        exact hother item rest rfl h

end Unbuffered

/-! ## Where a level stops -/

open Grammar

/-- An item of a kind cannot prolong a phrase of a sort. -/
def Stops : Phrase → TokenKind → Prop
  | .atom, _ => True
  | .fact, kind => ∀ operator, ¬ FactSign kind operator
  | .term, kind => (∀ operator, ¬ FactSign kind operator) ∧ ∀ operator, ¬ TermSign kind operator
  | .assign, kind => ((∀ operator, ¬ FactSign kind operator) ∧
      ∀ operator, ¬ TermSign kind operator) ∧ kind ≠ .equals

/-- What is left does not begin with an item that could prolong a phrase of a sort. -/
def StopsAt (phrase : Phrase) (rest : List Item) : Prop :=
  ∀ item, rest.head? = some item → Stops phrase item.kind

theorem Parse.termOperator?_eq_some {kind : TokenKind} {operator : Operator} :
    Parse.termOperator? kind = some operator ↔ TermSign kind operator := by
  refine ⟨fun h => ?_, fun h => by cases h <;> rfl⟩
  unfold Parse.termOperator? at h
  split at h
  · cases h; exact .plus
  · cases h; exact .minus
  · exact absurd h (by simp)

theorem Parse.factOperator?_eq_some {kind : TokenKind} {operator : Operator} :
    Parse.factOperator? kind = some operator ↔ FactSign kind operator := by
  refine ⟨fun h => ?_, fun h => by cases h <;> rfl⟩
  unfold Parse.factOperator? at h
  split at h
  · cases h; exact .star
  · cases h; exact .slash
  · exact absurd h (by simp)

/-- How the phrases of one sort are chained from those of the next: `operator?` knows the signs
    between them. -/
structure Chained (whole part : Phrase) (operator? : TokenKind → Option Operator) : Prop where
  single {depth : Nat} {items : List Item} {tree : Expr} :
    Derives part depth items tree → Derives whole depth items tree
  joined {depth : Nat} {lefts rights : List Item} {sign : Item} {operator : Operator}
    {left right : Expr} : Derives whole depth lefts left →
    operator? sign.kind = some operator → Derives part depth rights right →
    Derives whole depth (lefts ++ sign :: rights)
      (.binary (left.span.combine right.span) operator left right)
  inner {starts : List Nat} {before after : List Item} :
    Context whole starts before after → Context part starts before after
  behind {starts : List Nat} {before after lefts : List Item} {sign : Item}
    {operator : Operator} {depth : Nat} {left : Expr} : Context whole starts before after →
    Derives whole depth lefts left → operator? sign.kind = some operator →
    Context part starts (before ++ lefts ++ [sign]) after ∧
      ∃ f, (Frontier.start 0).scan (before ++ lefts ++ [sign]) = some f ∧ f.mode = .operand
  stops {kind : TokenKind} : Stops whole kind ↔ Stops part kind ∧ operator? kind = none
  ends {kind : TokenKind} {operator : Operator} : operator? kind = some operator → Stops part kind

theorem Chained.term : Chained .term .fact Parse.termOperator? where
  single := .ofFact
  joined hleft hsign hright := .sum hleft (Parse.termOperator?_eq_some.1 hsign) hright
  inner := .fact
  behind hcontext hleft hsign := by
    have hsign := Parse.termOperator?_eq_some.1 hsign
    exact ⟨.rightOfSum hcontext hleft hsign, hcontext.scan_sign (by decide) hleft (.inl hsign)⟩
  stops {kind} := by
    rw [Option.eq_none_iff_forall_ne_some]
    exact and_congr_right fun _ =>
      forall_congr' fun _ => not_congr Parse.termOperator?_eq_some.symm
  ends {kind _} hsign _ hfact := by
    have hterm := Parse.termOperator?_eq_some.1 hsign
    cases kind <;> cases hterm <;> cases hfact

theorem Chained.fact : Chained .fact .atom Parse.factOperator? where
  single := .ofAtom
  joined hleft hsign hright := .product hleft (Parse.factOperator?_eq_some.1 hsign) hright
  inner := .atom
  behind hcontext hleft hsign := by
    have hsign := Parse.factOperator?_eq_some.1 hsign
    exact ⟨.rightOfProduct hcontext hleft hsign, hcontext.scan_sign (by decide) hleft (.inr hsign)⟩
  stops {kind} := by
    rw [Option.eq_none_iff_forall_ne_some]
    show (∀ operator, ¬ FactSign kind operator) ↔ True ∧ _
    rw [true_and]
    exact forall_congr' fun _ => not_congr Parse.factOperator?_eq_some.symm
  ends _ := trivial

/-! ## One level after another -/

namespace Unbuffered

open Parse Run

section Levels

variable {whole : List Item} {limit : Nat}

/-- A phrase was taken from the input, and what is left does not prolong it. -/
def Took (whole : List Item) (phrase : Phrase) (depth : Nat) (before : List Item) (tree : Expr)
    (s : Unbuffered) : Prop :=
  ∃ used, whole = before ++ used ++ s.items ∧ Derives phrase depth used tree ∧
    StopsAt phrase s.items

/-- The error is a syntax error that blames the input rightly. -/
def Stopped (whole : List Item) (limit : Nat) (error : SourceError) : Prop :=
  ∃ complaint, error = .syntactic complaint ∧ Blames whole limit complaint

/-- An operand may come next, and it is not mistaken for an `assign`: if one could begin here as
    well, then not with the item that does come. -/
def OperandDue (before items : List Item) : Prop :=
  (∃ item rest, items = item :: rest ∧ item.kind ≠ .print) ∨
    ∃ f, (Frontier.start 0).scan before = some f ∧ f.mode = .operand

/-- A parser of a phrase that is right wherever the grammar lets the phrase stand. -/
def ReadsOperand (whole : List Item) (limit : Nat) (phrase : Phrase) (depth : Nat)
    (parser : Parse Unbuffered Expr) : Prop :=
  ∀ starts before after (s : Unbuffered), Context phrase starts before after →
    whole = before ++ s.items → starts.length + depth = limit → OperandDue before s.items →
    Ensures (Took whole phrase depth before) (Stopped whole limit) (parser s)

/-- A parser of an `assign` that is right wherever the grammar lets one stand, unless the program
    may as well end there. -/
def ReadsAssign (whole : List Item) (limit : Nat) (depth : Nat)
    (parser : Parse Unbuffered Expr) : Prop :=
  ∀ starts before after (s : Unbuffered), Context .assign starts before after →
    whole = before ++ s.items → starts.length + depth = limit → (s.items = [] → starts ≠ []) →
    Ensures (Took whole .assign depth before) (Stopped whole limit) (parser s)

/-- The input has ended where an operand has to come. -/
theorem stopped_operand_end {phrase : Phrase} {starts : List Nat} {before after : List Item}
    (hcontext : Context phrase starts before after) (hdue : OperandDue before []) :
    Stopped before limit (.syntactic .atEnd) := by
  rcases hdue with ⟨item, rest, hitems, -⟩ | ⟨f, hscan, hmode⟩
  · exact absurd hitems (by simp)
  · refine ⟨_, rfl, blames_end hcontext.viable hscan ?_⟩
    rintro rfl
    simp [Frontier.start] at hmode

/-- An item has come that begins no operand. -/
theorem stopped_operand {starts : List Nat} {before after rest : List Item} {item : Item}
    (hcontext : Context .atom starts before after) (hdue : OperandDue before (item :: rest))
    (hname : item.kind ≠ .identifier) (hinteger : item.kind ≠ .integer)
    (hparen : item.kind ≠ .leftParen) :
    Stopped (before ++ item :: rest) limit
      (.syntactic (.blaming (some item) .unexpectedToken)) := by
  obtain ⟨f, hscan, -, hopen, -⟩ := hcontext.frontier
  have hprint : item.kind = .print → f.mode ≠ .opening := by
    intro hprint
    rcases hdue with ⟨first, others, hitems, hne⟩ | ⟨g, hg, hmode⟩
    · obtain ⟨rfl, -⟩ := List.cons.inj hitems
      exact absurd hprint hne
    · obtain rfl : f = g := by simpa [hscan] using hg
      rw [hmode]; decide
  have hstep := Frontier.step_open_eq_none hopen hname hinteger hparen hprint
  exact ⟨_, rfl, blames_item (.inl rfl) (firstUnviable_of_split hcontext.viable hscan hstep)⟩

/-- Something else has come, or nothing, where a parenthesis has to be closed. -/
theorem stopped_paren (limit : Nat) {starts : List Nat} {before after used : List Item}
    {opening : Item} {depth : Nat} {tree : Expr} (hcontext : Context .atom starts before after)
    (hopening : opening.kind = .leftParen) (hused : Derives .assign depth used tree) :
    Stopped (before ++ opening :: used) limit (.syntactic .atEnd) ∧
      ∀ item rest, StopsAt .assign (item :: rest) → item.kind ≠ .rightParen →
        Stopped (before ++ opening :: used ++ item :: rest) limit
          (.syntactic (.blaming (some item) .expectedParen)) := by
  have hgroup : Context .assign starts (before ++ [opening])
      (⟨⟨.rightParen, .none⟩, ⟨0, 1⟩⟩ :: after) := .parens hcontext hopening rfl
  have hviable : Viable (before ++ opening :: used) := by simpa using hgroup.viable_fill hused
  obtain ⟨f, hscan, -, hopen, -⟩ := hcontext.frontier
  obtain ⟨g, hg⟩ := hused.reads ⟨.opening, [], f.opened :: f.outer, f.position + 1⟩ rfl
  have hscan' : (Frontier.start 0).scan (before ++ opening :: used) = some g := by
    rw [Frontier.scan_append, hscan, Option.bind_some, Frontier.scan_cons,
      Frontier.step_paren hopen hopening, Option.bind_some, hg.scan]
  refine ⟨⟨_, rfl, blames_end hviable hscan' ?_⟩, fun item rest hstops hne => ?_⟩
  · rintro rfl
    exact absurd hg.outer (by simp [Frontier.start])
  · obtain ⟨⟨hfact, hterm⟩, hequals⟩ := hstops item rfl
    have hstep := Frontier.step_closed_eq_none hg.closed hterm hfact
      (fun h => absurd h hequals) (fun h => absurd h hne) (fun _ => by simp [hg.outer])
    exact ⟨_, rfl,
      blames_item (.inr (.inr rfl)) (firstUnviable_of_split hviable hscan' hstep)⟩

theorem atomWith_reads {depth : Nat} {nested : Parse Unbuffered Expr}
    (hnested : ReadsAssign whole limit depth nested) :
    ReadsOperand whole limit .atom depth (atomWith nested) := by
  intro starts before after s hcontext hwhole hlimit hdue
  refine (first_ensures s fun hend => ?_).bind ?_
  · rw [hend] at hdue hwhole
    rw [hwhole, List.append_nil]
    exact stopped_operand_end hcontext hdue
  intro item s hrun
  obtain ⟨⟨rest, hitems⟩, rfl⟩ := hrun
  rw [hitems] at hdue hwhole
  have htook {s' : Unbuffered} {tree : Expr} (htree : Derives .atom depth [item] tree)
      (hs' : s'.items = rest) : Took whole .atom depth before tree s' :=
    ⟨[item], by simp [hwhole, hs'], htree, fun _ _ => trivial⟩
  cases hkind : item.kind
  case identifier =>
    exact (advance_ensures hitems).bind fun _ s' h => htook (.name hkind) h.2
  case integer =>
    exact (advance_ensures hitems).bind fun _ s' h => htook (.integer hkind) h.2
  case leftParen =>
    refine (advance_ensures hitems).bind fun _ s₁ ⟨_, hs₁⟩ => ?_
    have hgroup : Context .assign starts (before ++ [item])
        (⟨⟨.rightParen, .none⟩, ⟨0, 1⟩⟩ :: after) := .parens hcontext hkind rfl
    refine (hnested starts _ _ s₁ hgroup (by simp [hwhole, hs₁]) hlimit
      (fun _ => hcontext.starts_ne_nil (by decide))).bind ?_
    intro inner s₂ hrun
    obtain ⟨used, hused, hinner, hstops⟩ := hrun
    obtain ⟨hend, hother⟩ := stopped_paren limit hcontext hkind hinner
    refine (expect_ensures .rightParen .expectedParen s₂ (fun h => ?_)
      (fun next others h hne => ?_)).bind ?_
    · rw [hused, h]; simpa using hend
    · rw [h] at hstops hused
      rw [hused]; simpa using hother next others hstops hne
    · intro closing s₃ hrun
      obtain ⟨hs₃, hclosing⟩ := hrun
      refine ⟨item :: used ++ [closing], ?_, .parens hkind hinner hclosing, fun _ _ => trivial⟩
      rw [hused, hs₃]; simp
  -- nothing else begins an operand
  all_goals
    rw [hwhole]
    exact stopped_operand hcontext hdue (by simp [hkind]) (by simp [hkind]) (by simp [hkind])

/-- A run of operators and operands is read to its end if there is fuel for it. -/
theorem chain_reads {phrase part : Phrase} {operator? : TokenKind → Option Operator}
    (hchained : Chained phrase part operator?) {depth : Nat} {operand : Parse Unbuffered Expr}
    (hoperand : ReadsOperand whole limit part depth operand) {starts : List Nat}
    {before after : List Item} (hcontext : Context phrase starts before after)
    (hlimit : starts.length + depth = limit) (fuel : Nat) :
    ∀ (lefts : List Item) (left : Expr) (s : Unbuffered), whole = before ++ lefts ++ s.items →
      Derives phrase depth lefts left → StopsAt part s.items → s.items.length < fuel →
      Ensures (Took whole phrase depth before) (Stopped whole limit)
        (chain operator? operand fuel left s) := by
  induction fuel with
  | zero => intro lefts left s _ _ _ hfuel; exact absurd hfuel (by omega)
  | succ fuel ih =>
    -- the invariant: what was read is a phrase of the whole sort, with `left` for its tree
    intro lefts left s hwhole hleft hstops hfuel
    refine (current_ensures s).bind fun item s' h => ?_
    obtain ⟨rfl, rfl⟩ := h
    cases hsign : s'.items.head?.bind (operator? ·.kind) with
    | none =>
      -- nothing goes on here
      refine ⟨lefts, hwhole, hleft, fun item hitem => hchained.stops.2 ⟨hstops item hitem, ?_⟩⟩
      simpa [hitem] using hsign
    | some operator =>
      obtain ⟨sign, hhead, hoperator⟩ := Option.bind_eq_some_iff.1 hsign
      obtain ⟨rest, hitems⟩ := List.head?_eq_some_iff.1 hhead
      obtain ⟨hpart, f, hscan, hmode⟩ := hchained.behind hcontext hleft hoperator
      refine (advance_ensures hitems).bind fun _ s₁ ⟨_, hs₁⟩ => ?_
      refine (hoperand starts _ _ s₁ hpart (by simp [hwhole, hitems, hs₁]) hlimit
        (.inr ⟨f, hscan, hmode⟩)).bind ?_
      intro right s₂ hrun
      obtain ⟨rights, hrights, hright, hstops₂⟩ := hrun
      have hlength : s₂.items.length < fuel := by
        have hsame := congrArg List.length (hwhole.symm.trans hrights)
        simp only [List.length_append, List.length_cons, hitems] at hsame hfuel
        omega
      exact ih (lefts ++ sign :: rights) _ s₂ (by rw [hrights]; simp)
        (hchained.joined hleft hoperator hright) hstops₂ hlength

/-- The parser of a chain is right if the parser of its parts is. -/
theorem chained_reads {phrase part : Phrase} {operator? : TokenKind → Option Operator}
    (hchained : Chained phrase part operator?) {depth fuel : Nat}
    {operand : Parse Unbuffered Expr} (hfuel : whole.length < fuel)
    (hoperand : ReadsOperand whole limit part depth operand) :
    ReadsOperand whole limit phrase depth
      (operand >>= fun left => chain operator? operand fuel left) := by
  intro starts before after s hcontext hwhole hlimit hdue
  refine (hoperand starts before after s (hchained.inner hcontext) hwhole hlimit hdue).bind ?_
  intro left s₁ hrun
  obtain ⟨lefts, hlefts, hleft, hstops⟩ := hrun
  have hlength : s₁.items.length < fuel := by
    rw [hlefts, List.length_append] at hfuel
    omega
  exact chain_reads hchained hoperand hcontext hlimit fuel lefts left s₁ hlefts
    (hchained.single hleft) hstops hlength

theorem termWith_reads {depth fuel : Nat} {nested : Parse Unbuffered Expr}
    (hfuel : whole.length < fuel) (hnested : ReadsAssign whole limit depth nested) :
    ReadsOperand whole limit .term depth (termWith fuel nested) :=
  chained_reads .term hfuel (chained_reads .fact hfuel (atomWith_reads hnested))

/-- An `=` behind a term that is no target is blamed on the beginning of the term. -/
theorem stopped_target {starts : List Nat} {before after used rest : List Item}
    {start equals : Item} {depth : Nat} {tree : Expr}
    (hcontext : Context .assign starts before after)
    (hused : Derives .term depth (start :: used) tree) (hequals : equals.kind = .equals)
    (hname : start.kind = .identifier → used ≠ []) :
    Stopped (before ++ start :: used ++ equals :: rest) limit
      (.syntactic (.blaming (some start) .badTarget)) := by
  obtain ⟨g, hscan, hclosed, -, htarget⟩ := hcontext.term.frontier_term hused
  have hmode : g.mode ≠ .target := by
    intro hmode
    obtain ⟨name, hitems, hkind⟩ := htarget hmode
    obtain ⟨rfl, rfl⟩ := List.cons.inj hitems
    exact hname hkind rfl
  have hstep : g.step equals.kind = none := by
    rw [hequals]
    exact Frontier.step_closed_eq_none hclosed nofun nofun (fun _ => hmode) nofun nofun
  exact ⟨_, rfl, blames_target hcontext.term hused hequals
    (firstUnviable_of_split (hcontext.term.viable_fill hused) hscan hstep)⟩

theorem operandWith_reads {depth fuel : Nat} {nested : Parse Unbuffered Expr}
    (hfuel : whole.length < fuel) (hnested : ReadsAssign whole limit depth nested)
    {starts : List Nat} {before after rest : List Item} {start : Item} {s : Unbuffered}
    (hcontext : Context .assign starts before after) (hwhole : whole = before ++ s.items)
    (hlimit : starts.length + (depth + 1) = limit) (hitems : s.items = start :: rest)
    (hprint : start.kind ≠ .print)
    (hname : start.kind = .identifier → ∀ next, rest.head? = some next → next.kind ≠ .equals) :
    Ensures (Took whole .assign (depth + 1) before) (Stopped whole limit)
      (operandWith fuel nested start s) := by
  refine (termWith_reads hfuel hnested _ before after s hcontext.term hwhole
    (by simp; omega) (.inl ⟨start, rest, hitems, hprint⟩)).bind ?_
  intro tree s₁ hrun
  obtain ⟨used, hused, htree, hstops⟩ := hrun
  obtain ⟨first, others, rfl⟩ := List.exists_cons_of_ne_nil htree.ne_nil
  -- the term begins with the item that was looked at
  have hsame : start :: rest = first :: (others ++ s₁.items) := by
    have := hwhole.symm.trans hused
    simpa [hitems] using this
  obtain ⟨rfl, rfl⟩ := List.cons.inj hsame
  refine (isAt_ensures .equals s₁).bind ?_
  intro ends s₂ hrun
  obtain ⟨hends, rfl⟩ := hrun
  cases ends with
  | true =>
    obtain ⟨equals, others', hs₂, hequals⟩ := hends.1 rfl
    -- a lone name before an `=` does not come here, so this term is no target
    have hothers : start.kind = .identifier → others ≠ [] := by
      rintro hkind rfl
      exact hname hkind equals (by simp [hs₂]) hequals
    show Stopped whole limit _
    rw [hused, hs₂]
    exact stopped_target hcontext htree hequals hothers
  | false =>
    refine ⟨start :: others, hused, .ofTerm htree, fun item hitem => ⟨hstops item hitem, ?_⟩⟩
    intro hequals
    obtain ⟨others', hs₂⟩ := List.head?_eq_some_iff.1 hitem
    exact absurd (hends.2 ⟨item, others', hs₂, hequals⟩) (by simp)

theorem levelWith_reads {depth fuel : Nat} {nested : Parse Unbuffered Expr}
    (hfuel : whole.length < fuel) (hnested : ReadsAssign whole limit depth nested)
    {starts : List Nat} {before after rest : List Item} {start : Item} {s : Unbuffered}
    (hcontext : Context .assign starts before after) (hwhole : whole = before ++ s.items)
    (hlimit : starts.length + (depth + 1) = limit) (hitems : s.items = start :: rest) :
    Ensures (Took whole .assign (depth + 1) before) (Stopped whole limit)
      (levelWith fuel nested start s) := by
  have hlimit' : (before.length :: starts).length + depth = limit := by simp; omega
  unfold levelWith
  cases hkind : start.kind
  case print =>
    refine (advance_ensures hitems).bind fun _ s₁ ⟨_, hs₁⟩ => ?_
    refine (hnested _ _ _ s₁ (.printed hcontext hkind) (by simp [hwhole, hitems, hs₁]) hlimit'
      (by simp)).bind ?_
    intro inner s₂ hrun
    obtain ⟨used, hused, hinner, hstops⟩ := hrun
    exact ⟨start :: used, by simpa using hused, .print hkind hinner, hstops⟩
  case identifier =>
    refine (look_ensures 1 s).bind ?_
    intro following s₁ hrun
    obtain ⟨rfl, rfl⟩ := hrun
    cases rest with
    | nil =>
      rw [if_neg (by simp [hitems])]
      exact operandWith_reads hfuel hnested hcontext hwhole hlimit hitems (by simp [hkind])
        (by simp)
    | cons next rest =>
      by_cases hequals : next.kind = .equals
      · rw [if_pos (by simp [hitems, hequals])]
        refine (advance_ensures hitems).bind fun _ s₂ ⟨_, hs₂⟩ => ?_
        refine (advance_ensures hs₂).bind fun _ s₃ ⟨_, hs₃⟩ => ?_
        refine (hnested _ _ _ s₃ (.assigned hcontext hkind hequals)
          (by simp [hwhole, hitems, hs₃]) hlimit' (by simp)).bind ?_
        intro value s₄ hrun
        obtain ⟨used, hused, hvalue, hstops⟩ := hrun
        exact ⟨start :: next :: used, by simpa using hused, .target hkind hequals hvalue, hstops⟩
      · rw [if_neg (by simp [hitems, hequals])]
        exact operandWith_reads hfuel hnested hcontext hwhole hlimit hitems (by simp [hkind])
          (by simp [hequals])
  all_goals
    exact operandWith_reads hfuel hnested hcontext hwhole hlimit hitems (by simp [hkind])
      (by simp [hkind])

/-- The input has ended where an `assign` has to begin. -/
theorem stopped_assign_end {starts : List Nat} {before after : List Item}
    (hcontext : Context .assign starts before after) (hstarts : starts ≠ []) :
    Stopped before limit (.syntactic .atEnd) := by
  obtain ⟨f, hscan, -, -, hf⟩ := hcontext.frontier
  refine ⟨_, rfl, blames_end hcontext.viable hscan ?_⟩
  rintro rfl
  exact hstarts (by simpa [Frontier.start] using hf.symm)

/-- An `assign` is read rightly with any room for the levels in it. -/
theorem assignWith_reads {fuel : Nat} (hfuel : whole.length < fuel) (room : Nat) :
    ReadsAssign whole limit room (assignWith fuel room) := by
  induction room with
  | zero =>
    intro starts before after s hcontext hwhole hlimit hstarts
    refine (first_ensures s fun hend => ?_).bind ?_
    · rw [hwhole, hend, List.append_nil]
      exact stopped_assign_end hcontext (hstarts hend)
    · intro start s₁ hrun
      obtain ⟨⟨rest, hitems⟩, rfl⟩ := hrun
      rw [hwhole, hitems]
      exact ⟨_, rfl, blames_tooDeep hcontext hlimit⟩
  | succ room ih =>
    intro starts before after s hcontext hwhole hlimit hstarts
    refine (first_ensures s fun hend => ?_).bind ?_
    · rw [hwhole, hend, List.append_nil]
      exact stopped_assign_end hcontext (hstarts hend)
    · intro start s₁ hrun
      obtain ⟨⟨rest, hitems⟩, rfl⟩ := hrun
      have hentered : (TokenMachine.enter s₁).items = start :: rest := hitems
      exact .deeper (levelWith_reads hfuel ih hcontext hwhole hlimit hentered)

end Levels

/-! ## Statements and programs -/

section Statements

variable {whole : List Item} {limit : Nat}

/-- A statement was taken from the input. -/
def TookStatement (whole : List Item) (depth : Nat) (before : List Item) (tree : Expr)
    (s : Unbuffered) : Prop :=
  ∃ used semicolon, whole = before ++ (used ++ semicolon :: s.items) ∧
    Derives .assign depth used tree ∧ semicolon.kind = .semicolon

/-- Something else has come, or nothing, where a statement has to end. -/
theorem stopped_semicolon (limit : Nat) {before used : List Item} {depth : Nat} {tree : Expr}
    (hbefore : Sentence before) (hused : Derives .assign depth used tree) :
    Stopped (before ++ used) limit (.syntactic .atEnd) ∧
      ∀ item rest, StopsAt .assign (item :: rest) → item.kind ≠ .semicolon →
        Stopped (before ++ used ++ item :: rest) limit
          (.syntactic (.blaming (some item) .expectedSemicolon)) := by
  have hcontext : Context .assign [] before [⟨⟨.semicolon, .none⟩, ⟨0, 1⟩⟩] :=
    .statement hbefore rfl .nil
  have hviable : Viable (before ++ used) := hcontext.viable_fill hused
  obtain ⟨g, hg⟩ := hused.reads (.start before.length) rfl
  have hscan : (Frontier.start 0).scan (before ++ used) = some g := by
    rw [Frontier.scan_append, hbefore.scan, Option.bind_some, hg.scan]
  have houter : g.outer = [] := hg.outer
  refine ⟨⟨_, rfl, blames_end hviable hscan ?_⟩, fun item rest hstops hne => ?_⟩
  · rintro rfl
    exact absurd hg.closed (by simp [Frontier.Closed, Frontier.start])
  · obtain ⟨⟨hfact, hterm⟩, hequals⟩ := hstops item rfl
    have hstep := Frontier.step_closed_eq_none hg.closed hterm hfact
      (fun h => absurd h hequals) (fun _ => houter) (fun h => absurd h hne)
    exact ⟨_, rfl,
      blames_item (.inr (.inl rfl)) (firstUnviable_of_split hviable hscan hstep)⟩

theorem statementWith_reads {fuel : Nat} (hfuel : whole.length < fuel) {before : List Item}
    {s : Unbuffered} (hbefore : Sentence before) (hwhole : whole = before ++ s.items)
    (hitems : s.items ≠ []) :
    Ensures (TookStatement whole limit before) (Stopped whole limit)
      (statementWith fuel limit s) := by
  have hcontext : Context .assign [] before [⟨⟨.semicolon, .none⟩, ⟨0, 1⟩⟩] :=
    .statement hbefore rfl .nil
  refine (assignWith_reads hfuel limit [] before _ s hcontext hwhole (by simp)
    (fun h => absurd h hitems)).bind ?_
  intro tree s₁ hrun
  obtain ⟨used, hused, htree, hstops⟩ := hrun
  obtain ⟨hend, hother⟩ := stopped_semicolon limit hbefore htree
  refine (expect_ensures .semicolon .expectedSemicolon s₁ (fun h => ?_)
    (fun next others h hne => ?_)).bind ?_
  · rw [hused, h, List.append_nil]; exact hend
  · rw [h] at hstops hused
    rw [hused]; exact hother next others hstops hne
  · intro semicolon s₂ hrun
    obtain ⟨hs₂, hsemi⟩ := hrun
    exact ⟨used, semicolon, by rw [hused, hs₂]; simp, htree, hsemi⟩

/-- Statements are read to the end of the input if there is fuel for them. -/
theorem statementsWith_reads {fuel : Nat} (hfuel : whole.length < fuel) (count : Nat) :
    ∀ (before : List Item) (s : Unbuffered), Sentence before → whole = before ++ s.items →
      s.items.length < count →
      Ensures (fun trees s' => Statements limit s.items trees ∧ s'.items = [])
        (Stopped whole limit) (statementsWith fuel limit count s) := by
  induction count with
  | zero => intro before s _ _ hcount; exact absurd hcount (by omega)
  | succ count ih =>
    -- the invariant: what was read is a sentence
    intro before s hbefore hwhole hcount
    refine (current_ensures s).bind ?_
    intro item s₁ hrun
    obtain ⟨rfl, rfl⟩ := hrun
    cases hitems : s₁.items with
    | nil => exact ⟨.nil, hitems⟩
    | cons item rest =>
      refine (statementWith_reads hfuel hbefore hwhole (by simp [hitems])).bind ?_
      intro tree s₂ hrun
      obtain ⟨used, semicolon, hused, htree, hsemi⟩ := hrun
      have hsplit : s₁.items = used ++ semicolon :: s₂.items :=
        List.append_cancel_left (hwhole.symm.trans hused)
      have hbefore' : Sentence (before ++ (used ++ [semicolon])) :=
        hbefore.append (.ofStatement htree hsemi)
      have hlength : s₂.items.length < count := by
        rw [hsplit] at hcount
        simp only [List.length_append, List.length_cons] at hcount
        omega
      refine (ih _ s₂ hbefore' (by simp [hused]) hlength).bind ?_
      intro trees s₃ hrun
      obtain ⟨htrees, hs₃⟩ := hrun
      rw [← hitems, hsplit]
      exact ⟨.cons htree hsemi htrees, hs₃⟩

/-- **A program is taken from the whole input, or the error blames it rightly.** -/
theorem program_reads (items : List Item) (maxDepth : Int) :
    Ensures (fun program _ => Statements maxDepth.toNat items program.statements)
      (Stopped items maxDepth.toNat) (program { items, maxDepth : Unbuffered }) := by
  have hroom : TokenMachine.room { items, maxDepth : Unbuffered } = maxDepth.toNat := by
    simp [TokenMachine.room]
  have hstatements : Ensures (fun trees _ => Statements maxDepth.toNat items trees)
      (Stopped items maxDepth.toNat)
      (sized (fun fuel room => statementsWith fuel room fuel)
        { items, maxDepth : Unbuffered }) := by
    unfold sized
    rw [hroom]
    exact (statementsWith_reads (Nat.lt_succ_self items.length) (items.length + 1) []
      { items, maxDepth } .nil rfl (Nat.lt_succ_self _)).imp (fun trees s h => h.1) fun _ => id
  exact hstatements.bind fun trees s h => h

end Statements

end Unbuffered

end ScriptFront
