import Mathlib.Logic.Relation
import ScriptFront.Proofs.Parser.Watching

set_option autoImplicit false

/-! # The depth is restored

Every level that a parser opens it closes again: when the inside of the level has been read, when it
is rejected, and when a lexical error comes through from it. So what a parser does is balanced
(`Balanced`): it ends at the depth at which it began, and at every moment on the way the depth lies
between that and the limit. Opening a level takes from the room for further ones what it adds to the
depth, and all other steps leave both alone, so it is enough to look at the steps. -/

namespace ScriptFront

open Run Parse

variable {ι α β : Type}

/-! ## Calls -/

/-- Read the inside of a level that starts at an item. -/
def Parse.level {σ : Type} [TokenMachine σ] (start : Item) : Parse σ Expr :=
  sized fun fuel room => levelWith fuel (assignWith fuel room) start

/-- A call of a parser: one of its operations, or the inside of a level that starts at an item. -/
inductive Call where
  | operation (operation : Operation)
  | level (start : Item)
  deriving DecidableEq, Repr

/-- The answer of a call. -/
def Call.perform {σ : Type} [TokenMachine σ] : Call → Parse σ ParserAnswer
  | operation op => Parse.perform op
  | level start => return .expr (← Parse.level start)

/-- The answer of a call that is given its fuel and its room. -/
def Call.performWith {σ : Type} [TokenMachine σ] (fuel room : Nat) : Call → Parse σ ParserAnswer
  | operation op => Parse.performWith fuel room op
  | level start => return .expr (← levelWith fuel (assignWith fuel room) start)

theorem Call.perform_eq {σ : Type} [TokenMachine σ] (call : Call) :
    (call.perform : Parse σ ParserAnswer) = sized fun fuel room => call.performWith fuel room := by
  cases call with
  | operation op => exact Parse.perform_eq op
  | level start =>
      funext state
      simp only [perform, performWith, Parse.level, sized, bind_pure_comp, map_apply]

/-- Every call ends alike on related states if it is given the same fuel and room. -/
theorem SameSteps.callWith {σ τ : Type} [TokenMachine σ] [TokenMachine τ]
    {related : Nat → σ → τ → Prop} (h : SameSteps .unchanged related) (fuel room : Nat)
    (call : Call) : Same .unchanged (related room) Relabelling.unchanged.answer
      (call.performWith fuel room) (call.performWith fuel room) := by
  cases call with
  | operation op => exact h.performWith fuel room op
  | level start =>
      have hlevel := h.levelWith fuel room start
      rw [Relabelling.item_unchanged] at hlevel
      exact hlevel.map fun _ => rfl

/-! ## Balanced runs -/

/-- On the way from a start with room for `total` levels to a state with room for `room` of them, no
    level was closed that had been open before, and no more than `total` were open at once. -/
structure Balanced (start : Watched ι) (total room : Nat) (watched : Watched ι) : Prop where
  depth : watched.now.parser.depth + room = start.now.parser.depth + total
  within : room ≤ total
  meanwhile : ∀ moment ∈ watched.moments, moment ∈ start.moments ∨
    start.now.parser.depth ≤ moment.parser.depth ∧
      moment.parser.depth ≤ start.now.parser.depth + total

namespace Balanced

variable {start watched : Watched ι} {total room : Nat}

theorem refl (watched : Watched ι) (total : Nat) : Balanced watched total total watched where
  depth := rfl
  within := Nat.le_refl total
  meanwhile _ hmem := .inl hmem

/-- To pass on to a moment at the depth that belongs to its room is balanced. -/
theorem pass (h : Balanced start total room watched) {moment : Moment ι} {room' : Nat}
    (hdepth : moment.parser.depth + room' = start.now.parser.depth + total)
    (hwithin : room' ≤ total) : Balanced start total room' (watched.pass moment) where
  depth := hdepth
  within := hwithin
  meanwhile := by
    intro moment' hmem
    rcases List.mem_cons.1 hmem with rfl | hmem
    · exact .inr ⟨by omega, by omega⟩
    · exact h.meanwhile moment' hmem

theorem pass_here (h : Balanced start total room watched) {moment : Moment ι}
    (hdepth : moment.parser.depth = watched.now.parser.depth) :
    Balanced start total room (watched.pass moment) := h.pass (hdepth ▸ h.depth) h.within

variable [Supply ι]

theorem enter (h : Balanced start total (room + 1) watched) :
    Balanced start total room (TokenMachine.enter watched) := by
  have hdepth := h.depth
  have hwithin := h.within
  refine h.pass ?_ (by omega)
  show watched.now.parser.depth + 1 + room = _
  omega

/-- Where a level was opened, there is one to be closed. -/
theorem leave {entered : Watched ι} (hentered : Balanced start total (room + 1) entered)
    (h : Balanced start total room watched) :
    Balanced start total (room + 1) (TokenMachine.leave watched) := by
  have hdepth := h.depth
  have hwithin := hentered.within
  refine h.pass ?_ hwithin
  show watched.now.parser.depth - 1 + (room + 1) = _
  omega

/-! ### Balanced steps -/

theorem pull (count : Nat) : Keeps (Balanced start total room) (Watched.pull count) := by
  induction count with
  | zero => exact fun _ h => h
  | succ count ih =>
      intro watched h
      unfold Watched.pull
      cases Supply.next watched.now.parser.supply with
      | error error supply => exact h.pass_here rfl
      | ok item supply =>
          cases item with
          | none => exact h.pass_here rfl
          | some item => exact ih _ (h.pass_here rfl)

theorem fill (count : Nat) : Keeps (Balanced start total room) (Watched.fill count) :=
  fun watched => pull (count - watched.now.parser.lookahead.length) watched

theorem take : Keeps (Balanced start total room) TokenMachine.take := by
  refine (fill 1).bind fun _ watched h => ?_
  unfold Watched.pop
  cases watched.now.parser.lookahead with
  | nil => exact h
  | cons item rest => exact h.pass_here rfl

theorem steps (start : Watched ι) (total : Nat) :
    SameSteps .unchanged fun room s t => s = t ∧ Balanced start total room s :=
  .ofInvariant (fun _ ahead => (fill (ahead + 1)).bind fun _ _ h => h) (fun _ => take)
    (fun _ => fill) enter leave

end Balanced

/-! ## Balanced calls -/

/-- A call is balanced in the room that the state leaves, however it ends. -/
theorem Call.balanced [Supply ι] (call : Call) (watched : Watched ι) :
    Balanced watched (TokenMachine.room watched) (TokenMachine.room watched)
      (outcome (call.perform watched)).2 := by
  rw [call.perform_eq]
  exact ((Balanced.steps watched _).callWith _ _ call).keeps watched (.refl watched _)

/-! ## Parsers in use -/

/-- A call of a parser restores the depth. -/
structure Restores [Supply ι] (parser : Parser ι) (call : Call) : Prop where
  /-- Watching the parser changes nothing. -/
  watched : mapState (·.now.parser) (call.perform parser.watched) = call.perform parser
  /-- However the call ends, the depth is what it was before. -/
  settled : (outcome (call.perform parser)).2.depth = parser.depth
  /-- At every moment of the call the depth is no less than that, and within the limit, unless the
      call began above it. -/
  meanwhile : ∀ moment ∈ (outcome (call.perform parser.watched)).2.moments,
    parser.depth ≤ moment.parser.depth ∧
      (moment.parser.depth : Int) ≤ max (parser.depth : Int) parser.maxDepth

theorem Call.watched [Supply ι] (call : Call) (parser : Parser ι) :
    mapState (·.now.parser) (call.perform parser.watched) = call.perform parser := by
  have hcall : Same .unchanged Watched.Shows Relabelling.unchanged.answer
      (call.perform : Parse (Watched ι) ParserAnswer) call.perform := by
    rw [call.perform_eq, call.perform_eq]
    exact Watched.simulation.sized fun fuel room => Watched.simulation.steps.callWith fuel room call
  exact Watched.mapState_eq hcall Relabelling.answer_unchanged parser

theorem Parser.restores [Supply ι] (parser : Parser ι) (call : Call) : Restores parser call := by
  have hwatched := call.watched parser
  have hbalanced := call.balanced parser.watched
  refine ⟨hwatched, ?_, ?_⟩
  · have hstate : (outcome (call.perform parser)).2 =
        (outcome (call.perform parser.watched)).2.now.parser := by
      rw [← hwatched]
      cases call.perform parser.watched <;> rfl
    rw [hstate]
    exact Nat.add_right_cancel hbalanced.depth
  · intro moment hmem
    have hroom : TokenMachine.room parser.watched = (parser.maxDepth - parser.depth).toNat := rfl
    have hnow : parser.watched.now.parser.depth = parser.depth := rfl
    rcases hbalanced.meanwhile moment hmem with hstart | hbetween
    · obtain rfl := List.mem_singleton.1 hstart
      exact ⟨Nat.le_refl _, Int.le_max_left ..⟩
    · rw [hroom, hnow] at hbetween
      omega

/-- What a parser becomes by one operation on it, or by reading the inside of a level. -/
inductive Parser.Becomes [Supply ι] (parser : Parser ι) : Parser ι → Prop
  | step (step : ParserStep) : Becomes parser (parser.step step).2
  | call (call : Call) : Becomes parser (outcome (call.perform parser)).2

theorem Parser.Becomes.depth [Supply ι] {parser later : Parser ι} (h : parser.Becomes later) :
    later.depth = parser.depth := by
  cases h with
  | call call => exact (parser.restores call).settled
  | step step =>
      cases step with
      | operation op => exact (parser.restores (.operation op)).settled
      | fromBack back =>
          simp only [Parser.step]
          split <;> rfl
      | complain item text =>
          cases item with
          | none => rfl
          | some item =>
              simp only [Parser.step]
              split <;> rfl

/-- **The depth is restored on every exit.** After each call of a parser, at whatever depth, this is
    the depth again, whether the call answers or fails, and at every moment of the call the depth
    lies between this and the limit. So the depth of a parser is the same after any sequence of
    operations, failed ones included, and of one that was newly built it is zero. -/
theorem Parser.depth_restored [Supply ι] (parser : Parser ι) :
    (∀ call, Restores parser call) ∧
    (∀ later, Relation.ReflTransGen Becomes parser later → later.depth = parser.depth) ∧
    ∀ limits maxDepth supply later,
      Relation.ReflTransGen Becomes (build limits maxDepth supply : Parser ι) later →
      later.depth = 0 := by
  have hsteps : ∀ start later : Parser ι, Relation.ReflTransGen Becomes start later →
      later.depth = start.depth := by
    intro start later hreach
    induction hreach with
    | refl => rfl
    | tail _ hlast ih => exact hlast.depth.trans ih
  refine ⟨parser.restores, hsteps parser, ?_⟩
  intro limits maxDepth supply later hreach
  exact hsteps _ later hreach

/-- In `(print` the end of the tokens is met two levels deep, where the character behind them is
    reported. Of every moment, the last one first, this tells the depth. -/
example :
    (outcome (Call.perform (.operation .program)
      (Parser.build {} none (Lexer.start "(print@".toList)).watched)).2.moments.map
        (·.parser.depth) = [0, 1, 2, 2, 2, 1, 1, 1, 0, 0] := by
  decide +kernel

end ScriptFront
