import ScriptFront.Proofs.Parser.Lookahead

set_option autoImplicit false

/-! # Watching a parser

What holds at every moment of a run cannot be told from its end. So the parser is run with a record:
after every item that it asks for, every item that it takes and every level that it opens or closes
the state is kept, together with two things that a parser does not know, how many items it has taken
and where the open levels began. Watching it changes nothing (`Parser.program_watched`). -/

namespace ScriptFront

open Run Parse

variable {ι α : Type}

/-! ## Moments -/

/-- A moment of a run. -/
structure Moment (ι : Type) where
  parser : Parser ι
  /-- How many items have been taken. -/
  taken : Nat := 0
  /-- For each level that is open, the innermost one first, how many items had been taken when it
      was opened. -/
  opened : List Nat := []

namespace Moment

/-- The supply has been asked, and had nothing to give. -/
def asked (moment : Moment ι) (supply : ι) : Moment ι :=
  { moment with parser := { moment.parser with supply } }

/-- The supply has been asked, and has given an item. -/
def fed (moment : Moment ι) (item : Item) (supply : ι) : Moment ι :=
  { moment with
    parser := { moment.parser with lookahead := moment.parser.lookahead ++ [item], supply } }

/-- The first item of the buffer has been taken. -/
def popped (moment : Moment ι) (rest : List Item) : Moment ι :=
  { moment with parser := { moment.parser with lookahead := rest }, taken := moment.taken + 1 }

variable [Supply ι]

/-- A level has been opened before the item that is next to be taken. -/
def entered (moment : Moment ι) : Moment ι :=
  { moment with
    parser := TokenMachine.enter moment.parser, opened := moment.taken :: moment.opened }

/-- The innermost level has been closed. -/
def left (moment : Moment ι) : Moment ι :=
  { moment with parser := TokenMachine.leave moment.parser, opened := moment.opened.tail }

end Moment

/-! ## The watched parser -/

/-- A parser together with all the moments that it has passed through. -/
structure Watched (ι : Type) where
  now : Moment ι
  past : List (Moment ι) := []

/-- A parser that is watched from now on. -/
def Parser.watched (parser : Parser ι) : Watched ι := { now := { parser } }

namespace Watched

/-- All moments up to now. -/
def moments (watched : Watched ι) : List (Moment ι) := watched.now :: watched.past

/-- Pass on to another moment. -/
def pass (watched : Watched ι) (moment : Moment ι) : Watched ι :=
  { now := moment, past := watched.moments }

variable [Supply ι]

/-- Pull items into the buffer, at most the given number of them, until there is none to give. -/
def pull : Nat → Parse (Watched ι) Unit
  | 0 => pure ()
  | count + 1 => fun watched =>
    match Supply.next watched.now.parser.supply with
    | .error error supply => .error (.lexical error) (watched.pass (watched.now.asked supply))
    | .ok none supply => .ok () (watched.pass (watched.now.asked supply))
    | .ok (some item) supply => pull count (watched.pass (watched.now.fed item supply))

/-- Pull items until that many are in the buffer or there is none to give. -/
def fill (count : Nat) : Parse (Watched ι) Unit := do
  pull (count - (← get).now.parser.lookahead.length)

/-- Take the first item of the buffer, if there is one. -/
def pop : Parse (Watched ι) (Option Item) := fun watched =>
  match watched.now.parser.lookahead with
  | [] => .ok none watched
  | item :: rest => .ok (some item) (watched.pass (watched.now.popped rest))

instance : TokenMachine (Watched ι) where
  look ahead := do
    fill (ahead + 1)
    return (← get).now.parser.lookahead[ahead]?
  take := do
    fill 1
    pop
  prefetch := fill
  enter watched := watched.pass watched.now.entered
  leave watched := watched.pass watched.now.left
  room watched := TokenMachine.room watched.now.parser
  bound watched := TokenMachine.bound watched.now.parser

/-! ## Forgetting what was seen -/

/-- The parser is the one that is being watched. -/
def Shows (watched : Watched ι) (parser : Parser ι) : Prop := parser = watched.now.parser

theorem pull_same (count : Nat) :
    Same .unchanged Shows id (pull count) (Parser.pull (ι := ι) count) := by
  induction count with
  | zero => exact .pure rfl
  | succ count ih =>
      rintro watched _ rfl
      unfold pull Parser.pull
      cases Supply.next watched.now.parser.supply with
      | error error supply =>
          exact ⟨(Relabelling.error_unchanged (.lexical error)).symm, rfl⟩
      | ok item supply =>
          cases item with
          | none => exact ⟨rfl, rfl⟩
          | some item => exact ih (watched.pass (watched.now.fed item supply)) _ rfl

theorem fill_same (count : Nat) :
    Same .unchanged Shows id (fill count) (Parser.fill (ι := ι) count) := by
  rintro watched _ rfl
  exact pull_same (count - watched.now.parser.lookahead.length) watched _ rfl

omit [Supply ι] in
theorem pop_same : Same .unchanged Shows (Option.map Relabelling.unchanged.item) pop
    (Parser.pop (ι := ι)) := by
  rintro watched _ rfl
  unfold pop Parser.pop
  cases watched.now.parser.lookahead with
  | nil => exact ⟨rfl, rfl⟩
  | cons item rest => exact ⟨(Relabelling.map_item_unchanged _).symm, rfl⟩

/-- A watched parser does what the parser does. -/
def simulation : Simulation .unchanged (Watched ι) (Parser ι) where
  related := Shows
  steps := {
    look := fun ahead => (fill_same (ahead + 1)).bind fun _ => by
      rintro watched _ rfl
      exact ⟨(Relabelling.map_item_unchanged _).symm, rfl⟩
    take := by
      rw [Parser.take_eq]
      exact (fill_same 1).bind fun _ => pop_same
    prefetch := fill_same
    enter := by rintro _ watched _ rfl; rfl
    leave := by rintro _ _ watched _ _ - rfl; rfl }
  room := by rintro watched _ rfl; rfl
  bound := by rintro watched _ rfl; rfl

end Watched

/-- Without its record, what is done by a watched parser is what is done by the parser. -/
theorem Watched.mapState_eq [Supply ι] {p : Parse (Watched ι) α} {q : Parse (Parser ι) α}
    {image : α → α} (h : Same .unchanged Shows image p q) (himage : ∀ a, image a = a)
    (parser : Parser ι) : mapState (·.now.parser) (p parser.watched) = q parser :=
  (SameResult.eq_mapState (h parser.watched parser rfl) himage).symm

/-- Without its record, the run of a watched parser is the run of the parser. -/
theorem Parser.program_watched [Supply ι] (parser : Parser ι) :
    mapState (·.now.parser) (program parser.watched) = program parser :=
  Watched.mapState_eq Watched.simulation.program Relabelling.program_unchanged parser

/-- Behind `x=` the input ends. Of every moment, the last one first, this tells how many items were
    in the buffer, how many had been taken, and where the open levels began. -/
example :
    let items : List Item := [⟨⟨.identifier, .text ['x']⟩, ⟨0, 1⟩⟩, ⟨⟨.equals, .none⟩, ⟨1, 2⟩⟩]
    (outcome (program (Parser.build {} none (Feed.ofItems items)).watched)).2.moments.map
        (fun moment => (moment.parser.lookahead.length, moment.taken, moment.opened)) =
      [(0, 2, []), (0, 2, [0]), (0, 2, [0]), (1, 1, [0]), (2, 0, [0]), (1, 0, [0]), (1, 0, []),
        (0, 0, [])] := by
  decide +kernel

end ScriptFront
