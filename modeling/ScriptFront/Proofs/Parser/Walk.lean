import ScriptFront.Parser.Descent
import ScriptFront.Proofs.Relabelling

set_option autoImplicit false

/-! # Walking through the grammar

All that a parser does is put together from a few steps: it looks at an item, takes it, blames it,
opens and closes a level. So what is to be shown of everything that a parser does, or of the runs of
two parsers beside each other, need only be shown of these steps, if what is put together from them
inherits it. A `Walk` is a judgement of that kind. It is led through the grammar here, level by
level, once for all walks.

What can be said of a step may depend on where it is taken: before an operand there may be a second
item in the buffer, and only what has been seen can be blamed. So a step leads from one `Phase` of
the descent to another. -/

namespace ScriptFront

open Parse

/-! ## Phases -/

/-- A place in the descent, before which at least so many items have been taken. -/
inductive Phase where
  /-- An item has been taken, and none behind it is looked at. -/
  | clear (taken : Nat)
  /-- No more than one item is looked at. -/
  | settled (taken : Nat)
  /-- An operand may begin; if it is a name, the item behind the name may be looked at as well. -/
  | ahead (taken : Nat)
  /-- It is known what the current item is, and no other is looked at. -/
  | sees (item : Option Item) (taken : Nat)
  /-- It is known what the current item is where an operand may begin. -/
  | meets (item : Option Item) (taken : Nat)
  /-- The current item is of one of these kinds. -/
  | stands (kinds : List TokenKind) (taken : Nat)
  /-- A level has been opened before this item. -/
  | opens (start : Item) (taken : Nat)
  /-- The end of the input has been seen. -/
  | ended

/-- What holds in the one phase holds in the other. -/
inductive Phase.Implies : Phase → Phase → Prop
  | clear {taken : Nat} : Implies (.clear taken) (.settled taken)
  | settled {taken : Nat} : Implies (.settled taken) (.ahead taken)
  | later {taken : Nat} : Implies (.settled (taken + 1)) (.settled taken)
  | sees {item : Option Item} {taken : Nat} : Implies (.sees item taken) (.settled taken)
  | meets {item : Option Item} {taken : Nat} : Implies (.meets item taken) (.ahead taken)
  | atEnd {taken : Nat} : Implies (.meets none taken) (.sees none taken)
  | noName {item : Item} {taken : Nat} (h : item.kind ≠ .identifier) :
      Implies (.meets (some item) taken) (.sees (some item) taken)
  | stands {item : Item} {kinds : List TokenKind} {taken : Nat} (h : item.kind ∈ kinds) :
      Implies (.sees (some item) taken) (.stands kinds taken)
  | opens {start : Item} {taken : Nat} : Implies (.opens start taken) (.settled taken)
  | ended {taken : Nat} : Implies (.sees none taken) .ended

/-! ## Walks -/

/-- A judgement on what two machines do beside each other, up to a relabelling of the tokens. It
    holds of their steps, and what is put together from them inherits it. -/
structure Walk (r : Relabelling) (σ τ : Type) [TokenMachine σ] [TokenMachine τ] where
  /-- In the room for that many levels the two operations lead from a phase to the one that belongs
      to the answer, and the second operation answers the image of what the first one does. -/
  Goes : {α β : Type} → (room : Nat) → (before : Phase) → (after : α → Phase) → (image : α → β) →
    Parse σ α → Parse τ β → Prop
  /-- The rooms that the machines may have beside each other. -/
  Rooms : Nat → Nat → Prop
  /-- The fuel that the machines may have beside each other when so many items have been taken. -/
  Fuels : (taken : Nat) → Nat → Nat → Prop
  answer {α β : Type} {room : Nat} {before : Phase} {after : α → Phase} {image : α → β} {a : α}
    {b : β} (himage : b = image a) (hphase : before = after a) :
    Goes room before after image (Pure.pure a) (Pure.pure b)
  bind {α β γ δ : Type} {room : Nat} {before : Phase} {middle : α → Phase} {after : γ → Phase}
    {image : α → β} {image' : γ → δ} {p : Parse σ α} {q : Parse τ β} {f : α → Parse σ γ}
    {g : β → Parse τ δ} (hpq : Goes room before middle image p q)
    (hfg : ∀ a, Goes room (middle a) after image' (f a) (g (image a))) :
    Goes room before after image' (p >>= f) (q >>= g)
  strengthen {α β : Type} {room : Nat} {before before' : Phase} {after : α → Phase} {image : α → β}
    {p : Parse σ α} {q : Parse τ β} (himplies : before'.Implies before)
    (hpq : Goes room before after image p q) : Goes room before' after image p q
  weaken {α β : Type} {room : Nat} {before : Phase} {after after' : α → Phase} {image : α → β}
    {p : Parse σ α} {q : Parse τ β} (himplies : ∀ a, (after a).Implies (after' a))
    (hpq : Goes room before after image p q) : Goes room before after' image p q
  look {room taken : Nat} : Goes room (.settled taken) (.sees · taken) (Option.map r.item)
    (TokenMachine.look 0) (TokenMachine.look 0)
  lookAhead {room taken : Nat} : Goes room (.ahead taken) (.meets · taken) (Option.map r.item)
    (TokenMachine.look 0) (TokenMachine.look 0)
  /-- Only behind a name that opens a level a second item is looked at. -/
  lookBehind {room taken : Nat} {start : Item} (hkind : start.kind = .identifier) :
    Goes room (.opens start taken) (fun _ => .ahead taken) (Option.map r.item)
      (TokenMachine.look 1) (TokenMachine.look 1)
  take {room taken : Nat} : Goes room (.settled taken)
    (fun item => item.elim (.sees none taken) fun _ => .clear (taken + 1)) (Option.map r.item)
    TokenMachine.take TokenMachine.take
  takeAhead {room taken : Nat} : Goes room (.ahead taken)
    (fun item => item.elim (.sees none taken) fun _ => .settled (taken + 1)) (Option.map r.item)
    TokenMachine.take TokenMachine.take
  rejectEnd {α β : Type} {room taken : Nat} {after : α → Phase} {image : α → β}
    {complaint : Complaint} : Goes room (.sees none taken) after image
      (Parse.reject none complaint) (Parse.reject none complaint)
  reject {α β : Type} {room taken : Nat} {after : α → Phase} {image : α → β} {item : Item}
    {complaint : Complaint} (hcomplaint : complaint ≠ .badTarget) :
    Goes room (.sees (some item) taken) after image
      (Parse.reject (some item) complaint) (Parse.reject (some (r.item item)) complaint)
  /-- A bad target is blamed when an `=` behind it is seen. -/
  rejectTarget {α β : Type} {room taken : Nat} {after : α → Phase} {image : α → β} {start : Item} :
    Goes room (.stands [.equals] taken) after image
      (Parse.reject (some start) .badTarget) (Parse.reject (some (r.item start)) .badTarget)
  deeper {α β : Type} {room taken : Nat} {image : α → β} {start : Item} {p : Parse σ α}
    {q : Parse τ β} (hpq : Goes room (.opens start taken) (fun _ => .settled taken) image p q) :
    Goes (room + 1) (.sees (some start) taken) (fun _ => .settled taken) image
      (Parse.deeper p) (Parse.deeper q)
  rooms_succ {room room' : Nat} (hroom : Rooms (room + 1) room') :
    ∃ inner, room' = inner + 1 ∧ Rooms room inner
  /-- If the second machine has more room, it may do anything where the first one has none. -/
  tooDeep {α β : Type} {room taken : Nat} {after : α → Phase} {image : α → β} {start : Item}
    {q : Parse τ β} (hroom : Rooms 0 (room + 1)) : Goes 0 (.sees (some start) taken) after image
      (Parse.reject (some start) .tooDeep) q
  fuels_later {taken fuel fuel' : Nat} (hfuel : Fuels taken fuel fuel') :
    Fuels (taken + 1) fuel fuel'
  fuels_succ {taken fuel fuel' : Nat} (hfuel : Fuels taken (fuel + 1) (fuel' + 1)) :
    Fuels (taken + 1) fuel fuel'
  /-- The machines run out of fuel together, or they never do. -/
  unequal {α β : Type} {room taken fuel fuel' : Nat} {after : α → Phase} {image : α → β}
    {p : Parse σ α} {q : Parse τ β} (hfuel : Fuels taken fuel fuel')
    (hzero : fuel = 0 ∨ fuel' = 0) (hne : fuel ≠ fuel') : Goes room (.settled taken) after image p q
  /-- Where statements run out of fuel, the end has been seen, or it need not be. -/
  exhausted {α β : Type} {room taken : Nat} {image : α → β} {a : α} {b : β}
    (hfuel : Fuels taken 0 0) (himage : b = image a) :
    Goes room (.settled taken) (fun _ => .ended) image (Pure.pure a) (Pure.pure b)

/-- Machines that have the same room have the same room within a level. -/
theorem room_inner {room room' : Nat} (h : room + 1 = room') :
    ∃ inner, room' = inner + 1 ∧ room = inner :=
  ⟨room, h.symm, rfl⟩

namespace Walk

variable {r : Relabelling} {σ τ : Type} [TokenMachine σ] [TokenMachine τ] (w : Walk r σ τ)
  {room room' taken fuel fuel' : Nat}

/-! ### The small operations -/

theorem pure {α β : Type} {phase : Phase} {image : α → β} {a : α} {b : β} (h : b = image a) :
    w.Goes room phase (fun _ => phase) image (Pure.pure a) (Pure.pure b) :=
  w.answer h rfl

theorem first : w.Goes room (.settled taken) (fun item => .sees (some item) taken) r.item
    Parse.first Parse.first := by
  refine w.bind w.look fun item => ?_
  cases item with
  | none => exact w.rejectEnd
  | some item => exact w.answer rfl rfl

theorem firstAhead : w.Goes room (.ahead taken) (fun item => .meets (some item) taken) r.item
    Parse.first Parse.first := by
  refine w.bind w.lookAhead fun item => ?_
  cases item with
  | none => exact w.strengthen .atEnd w.rejectEnd
  | some item => exact w.answer rfl rfl

theorem isAt (kinds : List TokenKind) : w.Goes room (.settled taken)
    (fun found => if found then .stands kinds taken else .settled taken) id
    (Parse.isAt kinds) (Parse.isAt kinds) := by
  refine w.bind w.look fun item => ?_
  cases item with
  | none => exact w.strengthen .sees (w.answer rfl rfl)
  | some item =>
      simp only [Option.map_some, r.kind_item]
      cases hfound : kinds.contains item.kind with
      | true => exact w.strengthen (.stands (List.contains_iff_mem.1 hfound)) (w.answer rfl rfl)
      | false => exact w.strengthen .sees (w.answer rfl rfl)

theorem advance : w.Goes room (.settled taken) (fun _ => .clear (taken + 1)) r.item
    Parse.advance Parse.advance := by
  refine w.bind w.take fun item => ?_
  cases item with
  | none => exact w.rejectEnd
  | some item => exact w.pure rfl

theorem advanceAhead : w.Goes room (.ahead taken) (fun _ => .settled (taken + 1)) r.item
    Parse.advance Parse.advance := by
  refine w.bind w.takeAhead fun item => ?_
  cases item with
  | none => exact w.rejectEnd
  | some item => exact w.pure rfl

theorem expect (kind : TokenKind) {complaint : Complaint} (h : complaint ≠ .badTarget) :
    w.Goes room (.settled taken) (fun _ => .clear (taken + 1)) r.item
      (Parse.expect kind complaint) (Parse.expect kind complaint) := by
  refine w.bind w.look fun item => ?_
  cases item with
  | none => exact w.rejectEnd
  | some item =>
      simp only [Option.map_some, r.kind_item]
      by_cases hkind : item.kind = kind
      · simpa only [if_pos hkind] using w.strengthen .sees w.advance
      · simpa only [if_neg hkind] using w.reject h

/-! ### The levels of the grammar -/

/-- A part of a statement. Behind it no more than one item is looked at. -/
def Phrase (room : Nat) (before : Nat → Phase) (p : Parse σ Expr) (q : Parse τ Expr) : Prop :=
  ∀ taken, w.Goes room (before taken) (fun _ => .settled taken) r.expr p q

variable {w}

theorem Phrase.later {before : Nat → Phase} {p : Parse σ Expr} {q : Parse τ Expr}
    (h : w.Phrase room before p q) (taken : Nat) :
    w.Goes room (before (taken + 1)) (fun _ => .settled taken) r.expr p q :=
  w.weaken (fun _ => .later) (h (taken + 1))

section Levels

variable {nested : Parse σ Expr} {nested' : Parse τ Expr}

theorem atomWith (h : w.Phrase room .settled nested nested') :
    w.Phrase room .ahead (Parse.atomWith nested) (Parse.atomWith nested') := by
  intro taken
  refine w.bind w.firstAhead fun item => ?_
  simp only [r.kind_item]
  cases hkind : item.kind
  case identifier =>
    refine w.bind (w.strengthen .meets w.advanceAhead) fun _ => w.strengthen .later (w.pure ?_)
    rw [r.payload_item_name hkind]
    rfl
  case integer =>
    refine w.bind (w.strengthen .meets w.advanceAhead) fun _ => w.strengthen .later (w.pure ?_)
    rw [r.payload_item_value hkind]
    rfl
  case leftParen =>
    refine w.bind (w.strengthen .meets w.advanceAhead) fun _ => w.bind (h.later taken) fun _ => ?_
    refine w.bind (w.expect .rightParen nofun) fun _ => ?_
    exact w.strengthen .clear (w.strengthen .later (w.pure rfl))
  all_goals
    -- what is blamed is no name, so no item behind it has been looked at
    refine w.strengthen (.noName ?_) (w.reject nofun)
    rw [hkind]
    nofun

/-- Runs of operators may have any fuel that is allowed where they begin. -/
theorem chain (operator? : TokenKind → Option Operator) {operand : Parse σ Expr}
    {operand' : Parse τ Expr} (h : w.Phrase room .ahead operand operand')
    (hfuel : w.Fuels taken fuel fuel') (left : Expr) :
    w.Goes room (.settled taken) (fun _ => .settled taken) r.expr
      (Parse.chain operator? operand fuel left)
      (Parse.chain operator? operand' fuel' (r.expr left)) := by
  induction fuel generalizing taken fuel' left with
  | zero =>
      cases fuel' with
      | zero => exact w.pure rfl
      | succ fuel' => exact w.unequal hfuel (.inl rfl) nofun
  | succ fuel ih =>
      cases fuel' with
      | zero => exact w.unequal hfuel (.inr rfl) nofun
      | succ fuel' =>
          refine w.bind w.look fun item => ?_
          have hoperator : (item.map r.item).bind (operator? ·.kind) =
              item.bind (operator? ·.kind) := by
            cases item <;> simp
          simp only [hoperator]
          refine w.strengthen .sees ?_
          cases item.bind (operator? ·.kind) with
          | none => exact w.pure rfl
          | some operator =>
              refine w.bind w.advance fun _ => w.strengthen .clear ?_
              refine w.bind (w.strengthen .settled (h (taken + 1))) fun right => ?_
              refine w.weaken (fun _ => .later) ?_
              simpa [Relabelling.expr] using ih (w.fuels_succ hfuel)
                (.binary (left.span.combine right.span) operator left right)

theorem fuels_taken (h : w.Fuels 0 fuel fuel') (taken : Nat) : w.Fuels taken fuel fuel' := by
  induction taken with
  | zero => exact h
  | succ taken ih => exact w.fuels_later ih

theorem factWith (hfuel : w.Fuels 0 fuel fuel') (h : w.Phrase room .settled nested nested') :
    w.Phrase room .ahead (Parse.factWith fuel nested) (Parse.factWith fuel' nested') :=
  fun taken => w.bind (atomWith h taken) fun left =>
    chain _ (atomWith h) (fuels_taken hfuel taken) left

theorem termWith (hfuel : w.Fuels 0 fuel fuel') (h : w.Phrase room .settled nested nested') :
    w.Phrase room .ahead (Parse.termWith fuel nested) (Parse.termWith fuel' nested') :=
  fun taken => w.bind (factWith hfuel h taken) fun left =>
    chain _ (factWith hfuel h) (fuels_taken hfuel taken) left

theorem operandWith (hfuel : w.Fuels 0 fuel fuel') (h : w.Phrase room .settled nested nested')
    (start : Item) : w.Phrase room .ahead (Parse.operandWith fuel nested start)
      (Parse.operandWith fuel' nested' (r.item start)) := by
  refine fun taken => w.bind (termWith hfuel h taken) fun expr => w.bind (w.isAt _) fun ends => ?_
  cases ends with
  | false => exact w.pure rfl
  | true => exact w.rejectTarget

theorem levelWith (hfuel : w.Fuels 0 fuel fuel') (h : w.Phrase room .settled nested nested')
    (start : Item) : w.Phrase room (.opens start) (Parse.levelWith fuel nested start)
      (Parse.levelWith fuel' nested' (r.item start)) := by
  intro taken
  unfold Parse.levelWith
  rw [r.kind_item]
  cases hkind : start.kind
  case print =>
    refine w.bind (w.strengthen .opens w.advance) fun _ => w.strengthen .clear ?_
    refine w.bind (h.later taken) fun inner => w.pure ?_
    simp [Relabelling.expr, Relabelling.item]
  case identifier =>
    refine w.bind (w.lookBehind hkind) fun following => ?_
    have hfollowing : (following.map r.item).map Item.kind = following.map Item.kind := by
      cases following <;> simp
    simp only [hfollowing]
    by_cases hequals : following.map Item.kind = some .equals
    · simp only [if_pos hequals]
      refine w.bind w.advanceAhead fun _ => w.bind w.advance fun _ => w.strengthen .clear ?_
      refine w.bind (w.weaken (fun _ => .later) (h.later (taken + 1))) fun value => w.pure ?_
      rw [r.payload_item_name hkind]
      simp [Relabelling.expr, Relabelling.item]
    · simp only [if_neg hequals]
      exact operandWith hfuel h start taken
  all_goals exact w.strengthen .opens (w.strengthen .settled (operandWith hfuel h start taken))

end Levels

theorem assignWith (hfuel : w.Fuels 0 fuel fuel') (hroom : w.Rooms room room') :
    w.Phrase room .settled (Parse.assignWith fuel room) (Parse.assignWith fuel' room') := by
  induction room generalizing room' with
  | zero =>
      -- both look at the first item before the one without room complains of it
      cases room' with
      | zero => exact fun taken => w.bind w.first fun start => w.reject nofun
      | succ room' => exact fun taken => w.bind w.first fun start => w.tooDeep hroom
  | succ room ih =>
      obtain ⟨inner, rfl, hinner⟩ := w.rooms_succ hroom
      exact fun taken => w.bind w.first fun start =>
        w.deeper (levelWith hfuel (ih hinner) start taken)

/-- Behind a statement no item is looked at. -/
theorem statementWith (hfuel : w.Fuels 0 fuel fuel') (hroom : w.Rooms room room') (taken : Nat) :
    w.Goes room (.settled taken) (fun _ => .clear (taken + 1)) r.expr
      (Parse.statementWith fuel room) (Parse.statementWith fuel' room') :=
  w.bind (assignWith hfuel hroom taken) fun _ =>
    w.bind (w.expect .semicolon nofun) fun _ => w.pure rfl

theorem statementsWith {count count' : Nat} (hfuel : w.Fuels 0 fuel fuel')
    (hroom : w.Rooms room room') (taken : Nat) (hcount : w.Fuels taken count count') :
    w.Goes room (.settled taken) (fun _ => .ended) (List.map r.expr)
      (Parse.statementsWith fuel room count) (Parse.statementsWith fuel' room' count') := by
  induction count generalizing taken count' with
  | zero =>
      cases count' with
      | zero => exact w.exhausted hcount rfl
      | succ count' => exact w.unequal hcount (.inl rfl) nofun
  | succ count ih =>
      cases count' with
      | zero => exact w.unequal hcount (.inr rfl) nofun
      | succ count' =>
          refine w.bind w.look fun item => ?_
          cases item with
          | none => exact w.strengthen .ended (w.pure rfl)
          | some item =>
              refine w.bind (w.strengthen .sees (statementWith hfuel hroom taken)) fun _ => ?_
              refine w.strengthen .clear ?_
              exact w.bind (ih (taken + 1) (w.fuels_succ hcount)) fun _ => w.pure rfl

end Walk

end ScriptFront
