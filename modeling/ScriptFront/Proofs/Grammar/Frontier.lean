import ScriptFront.Proofs.Grammar.Context

set_option autoImplicit false

/-! # Frontiers

Whether a list of items begins a program can be told by reading it once from left to right. All
that has to be remembered is what may come next and, for the statement and for each parenthesis
that is open, where the `assign` phrases in it begin: the frontier. `scan` reads items and has no
answer as soon as they begin no program. It never fails inside a phrase (`Derives.reads`), nor
before a gap in a sentence (`Context.frontier`), so items that it refuses are not viable, and what
it remembers does not depend on how the program goes on. -/

namespace ScriptFront.Grammar

/-! ## Reading one item -/

/-- What may come next. -/
inductive Mode where
  /-- An `assign` has to begin. -/
  | opening
  /-- A name has begun an `assign`: it is a target or an operand. -/
  | target
  /-- An operand has to begin. -/
  | operand
  /-- An operand has ended. -/
  | settled
  deriving DecidableEq, Repr

/-- What is known behind the beginning of a program. -/
structure Frontier where
  mode : Mode
  /-- Where the `assign` phrases of the innermost group begin, the innermost first. -/
  level : List Nat
  /-- The same for the groups around it. -/
  outer : List (List Nat)
  /-- The number of items read. -/
  position : Nat
  deriving DecidableEq, Repr

namespace Frontier

/-- The frontier at the start of a statement. -/
def start (position : Nat) : Frontier := ⟨.opening, [], [], position⟩

/-- Where the `assign` phrases around an operand that comes next begin, within its group. -/
def opened (f : Frontier) : List Nat :=
  if f.mode = .opening then f.position :: f.level else f.level

/-- An operand or an `assign` begins with an item. -/
def begin (f : Frontier) : TokenKind → Option Frontier
  | .print =>
    if f.mode = .opening then some ⟨.opening, f.opened, f.outer, f.position + 1⟩ else none
  | .identifier =>
    some ⟨if f.mode = .opening then .target else .settled, f.opened, f.outer, f.position + 1⟩
  | .integer => some ⟨.settled, f.opened, f.outer, f.position + 1⟩
  | .leftParen => some ⟨.opening, [], f.opened :: f.outer, f.position + 1⟩
  | _ => none

/-- An item follows an operand. -/
def follow (f : Frontier) : TokenKind → Option Frontier
  | .equals =>
    if f.mode = .target then some ⟨.opening, f.level, f.outer, f.position + 1⟩ else none
  | .plus | .minus | .star | .slash => some ⟨.operand, f.level, f.outer, f.position + 1⟩
  | .rightParen =>
    match f.outer with
    | level :: outer => some ⟨.settled, level, outer, f.position + 1⟩
    | [] => none
  | .semicolon => if f.outer = [] then some (start (f.position + 1)) else none
  | _ => none

/-- The frontier behind one more item, if the items still begin a program. -/
def step (f : Frontier) (kind : TokenKind) : Option Frontier :=
  if f.mode = .opening ∨ f.mode = .operand then f.begin kind else f.follow kind

/-- The frontier behind some more items, if they still begin a program. -/
def scan (f : Frontier) : List Item → Option Frontier
  | [] => some f
  | item :: items => (f.step item.kind).bind (·.scan items)

@[simp] theorem scan_nil (f : Frontier) : f.scan [] = some f := rfl

@[simp] theorem scan_cons (f : Frontier) (item : Item) (items : List Item) :
    f.scan (item :: items) = (f.step item.kind).bind (·.scan items) := rfl

@[simp] theorem scan_append (f : Frontier) (a b : List Item) :
    f.scan (a ++ b) = (f.scan a).bind (·.scan b) := by
  induction a generalizing f with
  | nil => rfl
  | cons item items ih =>
      simp only [List.cons_append, scan_cons, Option.bind_assoc]
      congr 1
      funext g
      exact ih g

/-- Before an operand. -/
def Open (f : Frontier) : Prop := f.mode = .opening ∨ f.mode = .operand

theorem step_open {f : Frontier} (h : f.Open) (kind : TokenKind) : f.step kind = f.begin kind :=
  if_pos h

/-- Behind an operand. -/
def Closed (f : Frontier) : Prop := f.mode = .target ∨ f.mode = .settled

theorem step_closed {f : Frontier} (h : f.Closed) (kind : TokenKind) :
    f.step kind = f.follow kind := by
  rcases h with h | h <;> simp [step, h]

/-- A sign behind an operand calls for another one. -/
theorem step_sign {f : Frontier} (h : f.Closed) {kind : TokenKind} {operator : Operator}
    (hsign : TermSign kind operator ∨ FactSign kind operator) :
    f.step kind = some ⟨.operand, f.level, f.outer, f.position + 1⟩ := by
  rw [step_closed h]
  rcases hsign with hsign | hsign <;> cases hsign <;> rfl

/-- `print` opens an `assign` around the one that has to follow. -/
theorem step_print {f : Frontier} (h : f.mode = .opening) {kind : TokenKind}
    (hkind : kind = .print) :
    f.step kind = some ⟨.opening, f.opened, f.outer, f.position + 1⟩ := by
  rw [step_open (.inl h), hkind, begin, if_pos h]

/-- So does a target with its `=`. -/
theorem scan_target {f : Frontier} (h : f.mode = .opening) {name equals : Item}
    (hname : name.kind = .identifier) (hequals : equals.kind = .equals) :
    f.scan [name, equals] = some ⟨.opening, f.opened, f.outer, f.position + 2⟩ := by
  have hstep : f.step name.kind = some ⟨.target, f.opened, f.outer, f.position + 1⟩ := by
    rw [step_open (.inl h), hname, begin, if_pos h]
  rw [scan_cons, hstep, Option.bind_some, scan_cons, step_closed (.inl rfl), hequals]
  rfl

/-- A parenthesis opens a group of its own. -/
theorem step_paren {f : Frontier} (h : f.Open) {kind : TokenKind} (hkind : kind = .leftParen) :
    f.step kind = some ⟨.opening, [], f.opened :: f.outer, f.position + 1⟩ := by
  rw [step_open h, hkind, begin]

/-- No operand begins with an item that is neither a name, an integer nor a parenthesis, and no
    `assign` does unless it is `print`. -/
theorem step_open_eq_none {f : Frontier} (h : f.Open) {kind : TokenKind}
    (hname : kind ≠ .identifier) (hinteger : kind ≠ .integer) (hparen : kind ≠ .leftParen)
    (hprint : kind = .print → f.mode ≠ .opening) : f.step kind = none := by
  rw [step_open h]
  cases kind <;> simp_all [begin]

/-- Behind an operand come only signs, an `=` if the operand may be a target, and what ends the
    group. -/
theorem step_closed_eq_none {f : Frontier} (h : f.Closed) {kind : TokenKind}
    (hterm : ∀ operator, ¬ TermSign kind operator) (hfact : ∀ operator, ¬ FactSign kind operator)
    (hequals : kind = .equals → f.mode ≠ .target) (hparen : kind = .rightParen → f.outer = [])
    (hsemi : kind = .semicolon → f.outer ≠ []) : f.step kind = none := by
  rw [step_closed h]
  cases kind with
  | plus => exact absurd .plus (hterm .add)
  | minus => exact absurd .minus (hterm .sub)
  | star => exact absurd .star (hfact .mul)
  | slash => exact absurd .slash (hfact .div)
  | equals => rw [follow, if_neg (hequals rfl)]
  | rightParen => rw [follow, hparen rfl]
  | semicolon => rw [follow, if_neg (hsemi rfl)]
  | _ => rfl

end Frontier

/-! ## Reading a phrase -/

/-- The frontier `g` is what reading an operand leads to from `f`: the `assign` phrases around it
    are as they were, and only a lone name may still turn out to be a target. -/
structure BehindOperand (f : Frontier) (items : List Item) (g : Frontier) : Prop where
  scan : f.scan items = some g
  closed : g.Closed
  level : g.level = f.opened
  outer : g.outer = f.outer
  position : g.position = f.position + items.length
  target : g.mode = .target →
    f.mode = .opening ∧ ∃ name, items = [name] ∧ name.kind = .identifier

/-- The frontier `g` is what reading an `assign` leads to from `f`: the `assign` phrases in it that
    it ends with are added to those around it. -/
structure BehindAssign (f : Frontier) (items : List Item) (g : Frontier) : Prop where
  scan : f.scan items = some g
  closed : g.Closed
  level : ∃ inner, g.level = inner ++ f.opened
  outer : g.outer = f.outer
  position : g.position = f.position + items.length

/-- The items can be read wherever a phrase of the sort may stand. -/
def Reads : Phrase → List Item → Prop
  | .assign, items => ∀ f : Frontier, f.mode = .opening → ∃ g, BehindAssign f items g
  | _, items => ∀ f : Frontier, f.Open → ∃ g, BehindOperand f items g

theorem BehindOperand.assign {f g : Frontier} {items : List Item}
    (h : BehindOperand f items g) : BehindAssign f items g :=
  ⟨h.scan, h.closed, ⟨[], h.level⟩, h.outer, h.position⟩

/-- An operand, a sign and another operand can be read like one operand. -/
theorem reads_signed {lefts rights : List Item} {sign : Item} {operator : Operator}
    (hleft : ∀ f : Frontier, f.Open → ∃ g, BehindOperand f lefts g)
    (hsign : TermSign sign.kind operator ∨ FactSign sign.kind operator)
    (hright : ∀ f : Frontier, f.Open → ∃ g, BehindOperand f rights g)
    (f : Frontier) (hf : f.Open) : ∃ g, BehindOperand f (lefts ++ sign :: rights) g := by
  obtain ⟨g, hg⟩ := hleft f hf
  have hstep := Frontier.step_sign hg.closed hsign
  obtain ⟨k, hk⟩ := hright ⟨.operand, g.level, g.outer, g.position + 1⟩ (.inr rfl)
  have hopened : k.level = f.opened := by rw [hk.level, ← hg.level]; rfl
  refine ⟨k, ?_, hk.closed, hopened, hk.outer.trans hg.outer, ?_, fun hmode => ?_⟩
  · rw [Frontier.scan_append, hg.scan, Option.bind_some, Frontier.scan_cons, hstep]
    exact hk.scan
  · rw [hk.position, hg.position]; simp; omega
  · -- behind a sign a name is no target
    exact absurd (hk.target hmode).1 (by simp)

/-- Every phrase can be read wherever it may stand. -/
theorem Derives.reads {phrase : Phrase} {depth : Nat} {items : List Item} {tree : Expr}
    (h : Derives phrase depth items tree) : Reads phrase items := by
  induction h with
  | @print _ word items _ hword _ ih =>
      intro f hf
      obtain ⟨g, hg⟩ := ih ⟨.opening, f.opened, f.outer, f.position + 1⟩ rfl
      obtain ⟨inner, hlevel⟩ := hg.level
      refine ⟨g, ?_, hg.closed, ⟨inner ++ [f.position + 1], ?_⟩, hg.outer, ?_⟩
      · rw [Frontier.scan_cons, Frontier.step_print hf hword]; exact hg.scan
      · rw [hlevel]; simp [Frontier.opened]
      · rw [hg.position]; simp; omega
  | @target _ name equals items _ hname hequals _ ih =>
      intro f hf
      obtain ⟨g, hg⟩ := ih ⟨.opening, f.opened, f.outer, f.position + 2⟩ rfl
      obtain ⟨inner, hlevel⟩ := hg.level
      refine ⟨g, ?_, hg.closed, ⟨inner ++ [f.position + 2], ?_⟩, hg.outer, ?_⟩
      · rw [show name :: equals :: items = [name, equals] ++ items from rfl,
          Frontier.scan_append, Frontier.scan_target hf hname hequals]
        exact hg.scan
      · rw [hlevel]; simp [Frontier.opened]
      · rw [hg.position]; simp; omega
  | ofTerm _ ih =>
      intro f hf
      obtain ⟨g, hg⟩ := ih f (.inl hf)
      exact ⟨g, hg.assign⟩
  -- the left operand is read first, however deep to the left the derivation goes
  | sum _ hsign _ ihl ihr => exact reads_signed ihl (.inl hsign) ihr
  | ofFact _ ih => exact ih
  | product _ hsign _ ihl ihr => exact reads_signed ihl (.inr hsign) ihr
  | ofAtom _ ih => exact ih
  | @name _ item hitem =>
      intro f hf
      -- where an `assign` may begin, a name may still be the target of an `=`
      rcases hf with hmode | hmode
      · refine ⟨⟨.target, f.opened, f.outer, f.position + 1⟩, ?_, .inl rfl, rfl, rfl, rfl,
          fun _ => ⟨hmode, item, rfl, hitem⟩⟩
        rw [Frontier.scan_cons, Frontier.step_open (.inl hmode), hitem, Frontier.begin,
          if_pos hmode]
        rfl
      · have hne : f.mode ≠ .opening := by rw [hmode]; decide
        refine ⟨⟨.settled, f.opened, f.outer, f.position + 1⟩, ?_, .inr rfl, rfl, rfl, rfl,
          fun h => absurd h (by simp)⟩
        rw [Frontier.scan_cons, Frontier.step_open (.inr hmode), hitem, Frontier.begin,
          if_neg hne]
        rfl
  | @integer _ item hitem =>
      intro f hf
      refine ⟨⟨.settled, f.opened, f.outer, f.position + 1⟩, ?_, .inr rfl, rfl, rfl, rfl,
        fun h => absurd h (by simp)⟩
      rw [Frontier.scan_cons, Frontier.step_open hf, hitem, Frontier.begin]
      rfl
  | @parens _ opening closing items _ hopening _ hclosing ih =>
      intro f hf
      obtain ⟨g, hg⟩ := ih ⟨.opening, [], f.opened :: f.outer, f.position + 1⟩ rfl
      have hclose : g.step closing.kind
          = some ⟨.settled, f.opened, f.outer, g.position + 1⟩ := by
        rw [Frontier.step_closed hg.closed, hclosing, Frontier.follow, hg.outer]
      refine ⟨⟨.settled, f.opened, f.outer, g.position + 1⟩, ?_, .inr rfl, rfl, rfl, ?_,
        fun h => absurd h (by simp)⟩
      · rw [List.cons_append, Frontier.scan_cons, Frontier.step_paren hf hopening,
          Option.bind_some, Frontier.scan_append, hg.scan, Option.bind_some, Frontier.scan_cons,
          hclose]
        rfl
      · rw [hg.position]; simp; omega

/-! ## Reading a program -/

/-- Statements can be read from the start of one, and lead to the start of another. -/
theorem Statements.scan {depth : Nat} {items : List Item} {trees : List Expr}
    (h : Statements depth items trees) (position : Nat) :
    (Frontier.start position).scan items = some (.start (position + items.length)) := by
  induction h generalizing position with
  | nil => rfl
  | @cons items rest semicolon _ _ htree hsemi _ ih =>
      obtain ⟨g, hg⟩ := htree.reads (Frontier.start position) rfl
      have houter : g.outer = [] := hg.outer
      have hstep : g.step semicolon.kind = some (.start (g.position + 1)) := by
        rw [Frontier.step_closed hg.closed, hsemi, Frontier.follow, if_pos houter]
      rw [Frontier.scan_append, hg.scan, Option.bind_some, Frontier.scan_cons, hstep,
        Option.bind_some, ih, hg.position]
      simp [Frontier.start]; omega

/-- A sentence ends where a statement may start. -/
theorem Sentence.scan {items : List Item} (h : Sentence items) :
    (Frontier.start 0).scan items = some (.start items.length) := by
  obtain ⟨depth, trees, h⟩ := h
  simpa using h.scan 0

/-- What begins a program can be read. -/
theorem Viable.scan {items : List Item} (h : Viable items) :
    ∃ f, (Frontier.start 0).scan items = some f := by
  obtain ⟨rest, h⟩ := h
  have hscan := h.scan
  rw [Frontier.scan_append, Option.bind_eq_some_iff] at hscan
  obtain ⟨f, hf, -⟩ := hscan
  exact ⟨f, hf⟩

/-- An item that the frontier refuses ends what can be the beginning of a program. -/
theorem not_viable_of_step {before : List Item} {item : Item} {f : Frontier}
    (hscan : (Frontier.start 0).scan before = some f) (hstep : f.step item.kind = none) :
    ¬ Viable (before ++ [item]) := by
  intro h
  obtain ⟨g, hg⟩ := h.scan
  rw [Frontier.scan_append, hscan, Option.bind_some, Frontier.scan_cons, hstep] at hg
  exact absurd hg (by simp)

/-- What leads to another frontier than the start of a statement is no whole program. -/
theorem not_sentence_of_scan {items : List Item} {f : Frontier}
    (hscan : (Frontier.start 0).scan items = some f) (hf : f ≠ .start items.length) :
    ¬ Sentence items := by
  intro h
  rw [h.scan, Option.some.injEq] at hscan
  exact hf hscan.symm

/-! ## Reading up to a gap -/

/-- A phrase may come next, in `assign` phrases that begin at the given places. -/
def Frontier.Awaits (f : Frontier) : Phrase → List Nat → Prop
  | .assign, starts => f.mode = .opening ∧ f.level ++ f.outer.flatten = starts
  | _, starts => f.Open ∧ f.opened ++ f.outer.flatten = starts

/-- Behind a sign another operand may come. -/
theorem frontier_sign {starts : List Nat} {before lefts : List Item} {sign : Item}
    {operator : Operator} {f : Frontier} (hscan : (Frontier.start 0).scan before = some f)
    (hposition : f.position = before.length) (hopen : f.Open)
    (hstarts : f.opened ++ f.outer.flatten = starts)
    (hleft : ∀ f : Frontier, f.Open → ∃ g, BehindOperand f lefts g)
    (hsign : TermSign sign.kind operator ∨ FactSign sign.kind operator) :
    ∃ g, (Frontier.start 0).scan (before ++ lefts ++ [sign]) = some g ∧
      g.position = (before ++ lefts ++ [sign]).length ∧ g.mode = .operand ∧
        g.opened ++ g.outer.flatten = starts := by
  obtain ⟨g, hg⟩ := hleft f hopen
  refine ⟨⟨.operand, g.level, g.outer, g.position + 1⟩, ?_, ?_, rfl, ?_⟩
  · simp [hscan, hg.scan, Frontier.step_sign hg.closed hsign]
  · simp [hg.position, hposition]; omega
  · rw [← hstarts, ← hg.level, ← hg.outer]; rfl

/-- What stands before a gap leads to a frontier at which the phrase that is left out may come, in
    the `assign` phrases that the gap lies in. -/
theorem Context.frontier {phrase : Phrase} {starts : List Nat} {before after : List Item}
    (h : Context phrase starts before after) : ∃ f, (Frontier.start 0).scan before = some f ∧
      f.position = before.length ∧ f.Awaits phrase starts := by
  induction h with
  | statement hbefore _ _ => exact ⟨_, hbefore.scan, rfl, rfl, rfl⟩
  | @printed starts before _ word _ hword ih =>
      obtain ⟨f, hscan, hposition, hmode, hstarts⟩ := ih
      refine ⟨⟨.opening, f.opened, f.outer, f.position + 1⟩, ?_, by simp [hposition], rfl, ?_⟩
      · simp [hscan, Frontier.step_print hmode hword]
      · simp [Frontier.opened, hmode, hposition, hstarts]
  | @assigned starts before _ name equals _ hname hequals ih =>
      obtain ⟨f, hscan, hposition, hmode, hstarts⟩ := ih
      refine ⟨⟨.opening, f.opened, f.outer, f.position + 2⟩, ?_, by simp [hposition], rfl, ?_⟩
      · rw [Frontier.scan_append, hscan]; exact Frontier.scan_target hmode hname hequals
      · simp [Frontier.opened, hmode, hposition, hstarts]
  | @term starts before _ _ ih =>
      obtain ⟨f, hscan, hposition, hmode, hstarts⟩ := ih
      refine ⟨f, hscan, hposition, .inl hmode, ?_⟩
      simp [Frontier.opened, hmode, hposition, hstarts]
  -- an operand to the left of a sign begins where the whole phrase does
  | leftOfSum _ _ _ ih => exact ih
  | rightOfSum _ hleft hsign ih =>
      obtain ⟨f, hscan, hposition, hopen, hstarts⟩ := ih
      obtain ⟨g, hg, hat, hmode, hstarts⟩ :=
        frontier_sign hscan hposition hopen hstarts hleft.reads (.inl hsign)
      exact ⟨g, hg, hat, .inr hmode, hstarts⟩
  | fact _ ih => exact ih
  | leftOfProduct _ _ _ ih => exact ih
  | rightOfProduct _ hleft hsign ih =>
      obtain ⟨f, hscan, hposition, hopen, hstarts⟩ := ih
      obtain ⟨g, hg, hat, hmode, hstarts⟩ :=
        frontier_sign hscan hposition hopen hstarts hleft.reads (.inr hsign)
      exact ⟨g, hg, hat, .inr hmode, hstarts⟩
  | atom _ ih => exact ih
  | @parens starts before _ opening _ _ hopening _ ih =>
      obtain ⟨f, hscan, hposition, hopen, hstarts⟩ := ih
      refine ⟨⟨.opening, [], f.opened :: f.outer, f.position + 1⟩, ?_, by simp [hposition], rfl,
        ?_⟩
      · simp [hscan, Frontier.step_paren hopen hopening]
      · simpa using hstarts

/-- Behind a phrase in its gap and a sign another operand has to begin. -/
theorem Context.scan_sign {phrase : Phrase} {starts : List Nat} {before after lefts : List Item}
    {sign : Item} {operator : Operator} {depth : Nat} {left : Expr}
    (h : Context phrase starts before after) (hphrase : phrase ≠ .assign)
    (hleft : Derives phrase depth lefts left)
    (hsign : TermSign sign.kind operator ∨ FactSign sign.kind operator) :
    ∃ f, (Frontier.start 0).scan (before ++ lefts ++ [sign]) = some f ∧ f.mode = .operand := by
  obtain ⟨f, hscan, hposition, hawaits⟩ := h.frontier
  have hreads := hleft.reads
  cases phrase with
  | assign => exact absurd rfl hphrase
  | term | fact | atom =>
      obtain ⟨g, hg, -, hmode, -⟩ :=
        frontier_sign hscan hposition hawaits.1 hawaits.2 hreads hsign
      exact ⟨g, hg, hmode⟩

end ScriptFront.Grammar
