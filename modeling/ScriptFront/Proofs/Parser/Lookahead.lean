import ScriptFront.Parser.Buffer
import ScriptFront.Proofs.Parser.Simulation

set_option autoImplicit false

/-! # The buffer and the supply of a parser

A parser takes an item from its buffer once it has filled it so far (`Parser.take_eq`). Of its
supply it asks nothing but the next item, so it keeps what that keeps (`KeptByNext.supplying`). -/

namespace ScriptFront

open Run Parse

variable {ι : Type}

/-! ## Taking an item -/

namespace Parser

/-- Take the first item of the buffer, if there is one. -/
def pop : Parse (Parser ι) (Option Item) := fun parser =>
  match parser.lookahead with
  | [] => .ok none parser
  | item :: rest => .ok (some item) { parser with lookahead := rest }

theorem pop_nil {parser : Parser ι} (h : parser.lookahead = []) :
    pop parser = .ok none parser := by
  rw [pop, h]

theorem pop_cons {parser : Parser ι} {item : Item} {rest : List Item}
    (h : parser.lookahead = item :: rest) :
    pop parser = .ok (some item) { parser with lookahead := rest } := by
  rw [pop, h]

theorem take_eq [Supply ι] :
    (TokenMachine.take : Parse (Parser ι) (Option Item)) = fill 1 >>= fun _ => pop := by
  funext parser
  show EStateM.bind (fill 1) _ parser = EStateM.bind (fill 1) _ parser
  unfold EStateM.bind
  cases fill 1 parser with
  | error error parser' => rfl
  | ok _ parser' =>
      obtain ⟨_ | ⟨item, rest⟩, depth, maxDepth, supply⟩ := parser' <;> rfl

end Parser

/-! ## The supply -/

section Supplying

variable [Supply ι] {inv : ι → Prop}

/-- A property of supplies that asking for the next item keeps, whether it is given or not. -/
def KeptByNext (inv : ι → Prop) : Prop :=
  ∀ supply, inv supply → match Supply.next supply with
    | .ok _ supply' => inv supply'
    | .error _ supply' => inv supply'

theorem KeptByNext.pull (h : KeptByNext inv) (count : Nat) :
    Keeps (fun parser : Parser ι => inv parser.supply) (Parser.pull count) := by
  induction count with
  | zero => exact fun _ hinv => hinv
  | succ count ih =>
      intro parser hinv
      have hnext := h parser.supply hinv
      unfold Parser.pull
      cases hrun : Supply.next parser.supply with
      | error error supply => rw [hrun] at hnext; exact hnext
      | ok item supply =>
          rw [hrun] at hnext
          cases item with
          | none => exact hnext
          | some item =>
              exact ih { parser with lookahead := parser.lookahead ++ [item], supply } hnext

theorem KeptByNext.fill (h : KeptByNext inv) (count : Nat) :
    Keeps (fun parser : Parser ι => inv parser.supply) (Parser.fill count) :=
  fun parser => h.pull (count - parser.lookahead.length) parser

theorem KeptByNext.take (h : KeptByNext inv) :
    Keeps (fun parser : Parser ι => inv parser.supply) TokenMachine.take := by
  rw [Parser.take_eq]
  refine (h.fill 1).bind fun _ parser hinv => ?_
  cases hbuffer : parser.lookahead with
  | nil => rw [Parser.pop_nil hbuffer]; exact hinv
  | cons item rest => rw [Parser.pop_cons hbuffer]; exact hinv

/-- What a supply keeps is kept by the operations of a parser over it. -/
def KeptByNext.supplying (h : KeptByNext inv) : Simulation .unchanged (Parser ι) (Parser ι) :=
  .ofInvariant (fun parser => inv parser.supply)
    (fun ahead => (h.fill (ahead + 1)).bind fun _ _ hinv => hinv) h.take h.fill
    (fun _ hinv => hinv) (fun _ hinv => hinv)

end Supplying

end ScriptFront
