import ScriptFront.Parser.Buffer
import ScriptFront.Proofs.Parser.Simulation
import ScriptFront.Proofs.Run

set_option autoImplicit false

/-! # The buffer of a parser over prepared items

A parser over items without gaps is alike to the plain machine that stands before the buffered
items followed by the unread ones: filling the buffer moves items from the second part to the
first, and looking and taking answer what the plain machine answers. So whatever is read from the
parser is read from the plain machine. -/

namespace ScriptFront

/-! ## Filling the buffer -/

/-- A parser over prepared items, of which some are in the buffer. -/
def Parser.buffered (lookahead : List Item) (depth : Nat) (maxDepth : Int) (unread : List Item) :
    Parser Feed :=
  { lookahead, depth, maxDepth, supply := Feed.ofItems unread }

namespace Parser

variable (lookahead unread : List Item) (depth : Nat) (maxDepth : Int)

/-- Pulling moves items from the supply to the end of the buffer. -/
theorem pull_buffered (count : Nat) : pull count (buffered lookahead depth maxDepth unread) =
    .ok () (buffered (lookahead ++ unread.take count) depth maxDepth (unread.drop count)) := by
  induction count generalizing lookahead unread with
  | zero => simp [pull, pure, EStateM.pure]
  | succ count ih =>
      cases unread with
      | nil => simp [pull, buffered, Feed.ofItems, Supply.next]
      | cons item unread =>
          show pull count (buffered (lookahead ++ [item]) depth maxDepth unread) = _
          rw [ih]
          simp

theorem fill_buffered (count : Nat) : fill count (buffered lookahead depth maxDepth unread) =
    .ok () (buffered (lookahead ++ unread.take (count - lookahead.length)) depth maxDepth
      (unread.drop (count - lookahead.length))) :=
  pull_buffered lookahead unread depth maxDepth (count - lookahead.length)

/-- Looking ahead answers the item of that place, and only fills the buffer. -/
theorem look_buffered (ahead : Nat) : look ahead (buffered lookahead depth maxDepth unread) =
    .ok (lookahead ++ unread)[ahead]?
      (buffered (lookahead ++ unread.take (ahead + 1 - lookahead.length)) depth maxDepth
        (unread.drop (ahead + 1 - lookahead.length))) := by
  have hitem : (lookahead ++ unread.take (ahead + 1 - lookahead.length))[ahead]?
      = (lookahead ++ unread)[ahead]? := by
    rcases Nat.lt_or_ge ahead lookahead.length with hlt | hge
    · rw [List.getElem?_append_left hlt, List.getElem?_append_left hlt]
    · rw [List.getElem?_append_right hge, List.getElem?_append_right hge,
        List.getElem?_take_of_lt (by omega)]
  show EStateM.bind (fill (ahead + 1)) _ _ = _
  rw [EStateM.bind, fill_buffered]
  show EStateM.Result.ok _ _ = _
  rw [← hitem]
  rfl

/-- Taking an item takes the first of what is left. -/
theorem take_buffered : take (buffered lookahead depth maxDepth unread) =
    .ok (lookahead ++ unread).head?
      (buffered lookahead.tail depth maxDepth (unread.drop (1 - lookahead.length))) := by
  show EStateM.bind (fill 1) _ _ = _
  rw [EStateM.bind, fill_buffered]
  cases lookahead with
  | nil => cases unread <;> rfl
  | cons item lookahead => simp [buffered]; rfl

end Parser

/-! ## The simulation -/

/-- The parser stands before the same items as the plain machine, buffered or not, at the same
    level. -/
def SamePlace (parser : Parser Feed) (plain : Unbuffered) : Prop :=
  ∃ lookahead unread, parser = .buffered lookahead plain.depth plain.maxDepth unread ∧
    plain.items = lookahead ++ unread

theorem SamePlace.look (ahead : Nat) : Same .unchanged SamePlace
    (Option.map Relabelling.unchanged.item) (Parser.look ahead) (TokenMachine.look ahead) := by
  rintro _ ⟨items, depth, maxDepth⟩ ⟨lookahead, unread, rfl, rfl⟩
  rw [Parser.look_buffered]
  exact ⟨(Relabelling.map_item_unchanged _).symm, _, _, rfl, by simp [List.append_assoc]⟩

theorem SamePlace.take : Same .unchanged SamePlace (Option.map Relabelling.unchanged.item)
    Parser.take TokenMachine.take := by
  rintro _ ⟨items, depth, maxDepth⟩ ⟨lookahead, unread, rfl, rfl⟩
  rw [Parser.take_buffered]
  cases lookahead with
  | nil =>
      cases unread with
      | nil => exact ⟨rfl, [], [], rfl, rfl⟩
      | cons item unread =>
          exact ⟨(Relabelling.map_item_unchanged _).symm, [], unread, rfl, rfl⟩
  | cons item lookahead =>
      exact ⟨(Relabelling.map_item_unchanged _).symm, lookahead, unread, by simp, rfl⟩

theorem SamePlace.prefetch (count : Nat) :
    Same .unchanged SamePlace id (Parser.fill count) (TokenMachine.prefetch count) := by
  rintro _ ⟨items, depth, maxDepth⟩ ⟨lookahead, unread, rfl, rfl⟩
  rw [Parser.fill_buffered]
  exact ⟨rfl, _, _, rfl, by simp [List.append_assoc]⟩

/-- The parser over prepared items simulates the plain machine. -/
def bufferSimulation : Simulation .unchanged (Parser Feed) Unbuffered where
  related := SamePlace
  steps := {
    look := SamePlace.look
    take := SamePlace.take
    prefetch := SamePlace.prefetch
    enter := by
      rintro _ _ ⟨items, depth, maxDepth⟩ ⟨lookahead, unread, rfl, hitems⟩
      exact ⟨lookahead, unread, rfl, hitems⟩
    leave := by
      rintro _ _ _ _ ⟨items, depth, maxDepth⟩ - ⟨lookahead, unread, rfl, hitems⟩
      exact ⟨lookahead, unread, rfl, hitems⟩ }
  room := by
    rintro _ ⟨items, depth, maxDepth⟩ ⟨lookahead, unread, rfl, hitems⟩
    rfl
  bound := by
    rintro _ ⟨items, depth, maxDepth⟩ ⟨lookahead, unread, rfl, rfl⟩
    simp [TokenMachine.bound, Supply.bound, Parser.buffered, Feed.ofItems]

/-! ## Whole inputs -/

/-- A result without the state that it leaves behind. -/
def Parse.answer {σ α : Type} : EStateM.Result SourceError σ α → Except SourceError α
  | .ok value _ => .ok value
  | .error error _ => .error error

theorem Parse.answer_map {σ α β : Type} (f : α → β) (p : Parse σ α) (state : σ) :
    Parse.answer ((f <$> p) state) = (Parse.answer (p state)).map f := by
  rw [Run.map_apply]
  cases p state <;> rfl

theorem SameResult.answer_eq {r : Relabelling} {σ τ α β : Type} {related : σ → τ → Prop}
    {image : α → β} {res : EStateM.Result SourceError σ α} {res' : EStateM.Result SourceError τ β}
    (h : SameResult r related image res res') :
    Parse.answer res' = ((Parse.answer res).map image).mapError r.error := by
  cases res <;> cases res'
  case ok.ok => exact congrArg Except.ok h.1
  case error.error => exact congrArg Except.error h.1
  all_goals exact h.elim

/-- Prepared items give what the plain machine reads from them. -/
theorem parseFeed_ofItems (limits : Limits) (maxDepth : Int) (items : List Item) :
    parseFeed limits (some maxDepth) (Feed.ofItems items) =
      Parse.answer (Parse.program { items, maxDepth : Unbuffered }) := by
  have hplace : SamePlace (Parser.build limits (some maxDepth) (Feed.ofItems items))
      { items, maxDepth : Unbuffered } := ⟨[], items, rfl, rfl⟩
  rw [(bufferSimulation.program _ _ hplace).answer_eq, parseFeed]
  cases Parse.program (Parser.build limits (some maxDepth) (Feed.ofItems items)) with
  | ok program _ => exact congrArg Except.ok (Relabelling.program_unchanged program).symm
  | error error _ => exact congrArg Except.error (Relabelling.error_unchanged error).symm

end ScriptFront
