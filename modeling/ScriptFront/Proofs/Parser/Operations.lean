import Mathlib.Control.Monad.Basic
import ScriptFront.Proofs.Parser.Buffering

set_option autoImplicit false

/-! # Sequences of operations on a parser

Any operations may follow one another on a parser, after failures too, and the buffer may hold any
number of items by then. A parser over prepared items answers each of them as the plain machine
does, which has no buffer and stands at an index into the items (`Parser.operations_refine`).
Operations that only look leave the plain machine as it is, so they can be dropped from a sequence
without a change to the other answers. -/

namespace ScriptFront

/-! ## Operations in sequence -/

/-- The answers of a sequence of operations, each with the state after it. -/
def Parse.performEach {σ : Type} [TokenMachine σ] :
    List Operation → σ → List (Except Failure ParserAnswer × σ)
  | [], _ => []
  | op :: ops, state =>
    let result := outcome (perform op state)
    result :: performEach ops result.2

theorem Parser.runSteps_operations {ι : Type} [Supply ι] (ops : List Operation)
    (parser : Parser ι) :
    parser.runSteps (ops.map .operation) = Parse.performEach ops parser := by
  induction ops generalizing parser with
  | nil => rfl
  | cons op ops ih => simp only [List.map_cons, runSteps, step, Parse.performEach, ih]

/-- Whether an operation may consume items; the others only look at them. -/
def Operation.consumes : Operation → Bool
  | .prefetch _ | .current | .peek _ | .isAt _ => false
  | _ => true

/-! ## The plain machine -/

namespace Unbuffered

/-- What is left of the items is a tail of what there was. -/
def tail (items : List Item) : Simulation .unchanged Unbuffered Unbuffered :=
  .ofInvariant (·.items <:+ items) (fun _ _ h => h)
    (fun state h => by
      obtain ⟨_ | ⟨item, rest⟩, depth, maxDepth⟩ := state
      · exact h
      · exact (List.suffix_cons item rest).trans h)
    (fun _ _ h => h) (fun _ h => h) (fun _ h => h)

/-- Every operation leaves a tail of the items, however it ends. -/
theorem perform_suffix (op : Operation) (state : Unbuffered) :
    (Parse.outcome (Parse.perform op state)).2.items <:+ state.items :=
  ((tail state.items).perform op).keeps state (List.suffix_refl _)

/-- Looking at the items changes nothing. -/
theorem perform_of_looks {op : Operation} (h : op.consumes = false) (state : Unbuffered) :
    (Parse.outcome (Parse.perform op state)).2 = state := by
  cases op
  case prefetch | current | peek => rfl
  case isAt names =>
    obtain ⟨_ | ⟨item, rest⟩, depth, maxDepth⟩ := state <;> rfl
  all_goals simp [Operation.consumes] at h

end Unbuffered

/-! ## The refinement -/

/-- The items that the parser has in its buffer and those that it has not read yet are together
    the items from an index on. -/
structure Parser.StandsAt (items : List Item) (index : Nat) (parser : Parser Feed) : Prop where
  within : index ≤ items.length
  left : Feed.ofItems parser.lookahead ++ parser.supply = Feed.ofItems (items.drop index)

theorem SamePlace.standsAt {parser : Parser Feed} {plain : Unbuffered} {items : List Item}
    {index : Nat} (h : SamePlace parser plain) (hwithin : index ≤ items.length)
    (hplain : plain.items = items.drop index) : parser.StandsAt items index := by
  obtain ⟨lookahead, unread, rfl, hitems⟩ := h
  refine ⟨hwithin, ?_⟩
  rw [← hplain, hitems]
  exact List.map_append.symm

/-- Step by step, a parser and the plain machine give the same answers and stand at the same index
    into the items. The index never goes back, and operations that only look leave it where it
    was. -/
inductive Refines (items : List Item) : Nat → List Operation →
    List (Except Failure ParserAnswer × Parser Feed) →
    List (Except Failure ParserAnswer × Unbuffered) → Prop
  | done (index : Nat) : Refines items index [] [] []
  | step {index next : Nat} {op : Operation} {ops : List Operation}
      {answer : Except Failure ParserAnswer} {parser : Parser Feed} {plain : Unbuffered}
      {results : List (Except Failure ParserAnswer × Parser Feed)}
      {results' : List (Except Failure ParserAnswer × Unbuffered)} :
      index ≤ next → (op.consumes = false → next = index) → parser.StandsAt items next →
      plain.items = items.drop next → parser.depth = plain.depth →
      Refines items next ops results results' →
      Refines items index (op :: ops) ((answer, parser) :: results) ((answer, plain) :: results')

theorem Refines.answers_eq {items : List Item} {index : Nat} {ops : List Operation}
    {results : List (Except Failure ParserAnswer × Parser Feed)}
    {results' : List (Except Failure ParserAnswer × Unbuffered)}
    (h : Refines items index ops results results') :
    results.map Prod.fst = results'.map Prod.fst := by
  induction h with
  | done => rfl
  | step _ _ _ _ _ _ ih => rw [List.map_cons, List.map_cons, ih]

/-- Where the plain machine stands after an operation. -/
theorem Unbuffered.perform_index {items : List Item} {index : Nat} {plain : Unbuffered}
    (hwithin : index ≤ items.length) (hplain : plain.items = items.drop index) (op : Operation) :
    ∃ next, index ≤ next ∧ next ≤ items.length ∧ (op.consumes = false → next = index) ∧
      (Parse.outcome (Parse.perform op plain)).2.items = items.drop next := by
  cases hconsumes : op.consumes with
  | false =>
      exact ⟨index, Nat.le_refl _, hwithin, fun _ => rfl,
        by rw [perform_of_looks hconsumes, hplain]⟩
  | true =>
      have hsuffix := hplain ▸ perform_suffix op plain
      have hlength := hsuffix.length_le
      have hdrop := List.suffix_iff_eq_drop.mp hsuffix
      rw [List.drop_drop] at hdrop
      rw [List.length_drop] at hlength hdrop
      exact ⟨_, by omega, by omega, nofun, hdrop⟩

/-- One operation on a parser and on the plain machine at the same place. -/
theorem SamePlace.perform {parser : Parser Feed} {plain : Unbuffered}
    (h : SamePlace parser plain) (op : Operation) :
    (Parse.outcome (Parse.perform op parser)).1 = (Parse.outcome (Parse.perform op plain)).1 ∧
      SamePlace (Parse.outcome (Parse.perform op parser)).2
        (Parse.outcome (Parse.perform op plain)).2 := by
  have hres := bufferSimulation.perform op parser plain h
  revert hres
  cases Parse.perform op parser <;> cases Parse.perform op plain
  case ok.ok => rintro ⟨rfl, hplace⟩; exact ⟨by simp [Parse.outcome], hplace⟩
  case error.error => rintro ⟨rfl, hplace⟩; exact ⟨by simp [Parse.outcome], hplace⟩
  all_goals exact False.elim

theorem SamePlace.refines {items : List Item} {index : Nat} (hwithin : index ≤ items.length)
    (ops : List Operation) {parser : Parser Feed} {plain : Unbuffered}
    (h : SamePlace parser plain) (hplain : plain.items = items.drop index) :
    Refines items index ops (Parse.performEach ops parser) (Parse.performEach ops plain) := by
  induction ops generalizing index parser plain with
  | nil => exact .done index
  | cons op ops ih =>
      obtain ⟨next, hle, hnext, hlooks, hitems⟩ := Unbuffered.perform_index hwithin hplain op
      obtain ⟨hanswer, hplace⟩ := h.perform op
      have hrest := ih hnext hplace hitems
      simp only [Parse.performEach]
      generalize Parse.outcome (Parse.perform op parser) = result at *
      obtain ⟨answer, parser'⟩ := result
      obtain rfl : answer = _ := hanswer
      refine .step hle hlooks (hplace.standsAt hnext hitems) hitems ?_ hrest
      obtain ⟨_, _, rfl, -⟩ := hplace
      rfl

/-- An operation of the plain machine that only looks can be left out. -/
theorem Unbuffered.performEach_eraseIdx (before after : List Operation) {op : Operation}
    (h : op.consumes = false) (plain : Unbuffered) :
    ((Parse.performEach (before ++ op :: after) plain).map Prod.fst).eraseIdx before.length =
      (Parse.performEach (before ++ after) plain).map Prod.fst := by
  induction before generalizing plain with
  | nil => simp [Parse.performEach, perform_of_looks h]
  | cons first before ih => simp [Parse.performEach, ih]

/-- A parser over prepared items refines the plain machine: in every sequence of operations each
    one has the answer that the plain machine gives at the index where it stands, and the buffer
    and the unread items are always the items from that index on. So an operation that only looks
    makes no difference to the answers of the others. -/
theorem Parser.operations_refine (limits : Limits) (maxDepth : Option Int) (items : List Item)
    (ops : List Operation) :
    Refines items 0 ops
      ((build limits maxDepth (Feed.ofItems items)).runSteps (ops.map .operation))
      (Parse.performEach ops { items, maxDepth := maxDepth.getD limits.maxDepth : Unbuffered }) ∧
    ∀ before op after, ops = before ++ op :: after → op.consumes = false →
      (((build limits maxDepth (Feed.ofItems items)).runSteps (ops.map .operation)).map
        Prod.fst).eraseIdx before.length =
      ((build limits maxDepth (Feed.ofItems items)).runSteps
        ((before ++ after).map .operation)).map Prod.fst := by
  have hplace : SamePlace (build limits maxDepth (Feed.ofItems items))
      { items, maxDepth := maxDepth.getD limits.maxDepth } := ⟨[], items, rfl, rfl⟩
  have hrefines (ops : List Operation) := hplace.refines (Nat.zero_le _) ops List.drop_zero.symm
  simp only [runSteps_operations]
  refine ⟨hrefines ops, ?_⟩
  rintro before op after rfl hlooks
  rw [(hrefines _).answers_eq, (hrefines _).answers_eq]
  exact Unbuffered.performEach_eraseIdx before after hlooks _

/-- Looking far ahead in the middle of a broken sum changes neither what is wrong with it nor what
    is read next. -/
theorem Parser.operations_refine_broken_sum :
    let plus : Item := ⟨⟨.plus, .none⟩, ⟨0, 1⟩⟩
    let name : Item := ⟨⟨.identifier, .text ['x']⟩, ⟨1, 2⟩⟩
    let answers (ops : List Operation) :=
      ((build {} none (Feed.ofItems [name, plus, plus, name])).runSteps
        (ops.map .operation)).map Prod.fst
    (answers [.statement, .peek 7, .advance, .atom]).eraseIdx 1 =
      answers [.statement, .advance, .atom] ∧
    answers [.statement, .advance, .atom] =
      [.error (.source (.syntactic (.blaming (some plus) .unexpectedToken))),
        .ok (.item (some plus)), .ok (.expr (.var ⟨1, 2⟩ (.text ['x'])))] := by
  intro plus name answers
  exact ⟨(operations_refine {} none [name, plus, plus, name] _).2 [.statement] (.peek 7)
    [.advance, .atom] rfl rfl, by decide +kernel⟩

end ScriptFront
