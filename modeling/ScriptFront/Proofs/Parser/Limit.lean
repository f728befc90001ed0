import ScriptFront.Proofs.Parser.Lookahead

set_option autoImplicit false

/-! # The nesting limit

A greater limit changes nothing but complaints about the depth. Two parsers that differ in their
limit take the same steps, until the one with the smaller limit comes to the first item of an
`assign` for which it has no room; and what it complains of there is nothing but the depth. So
whatever else it comes to, an answer or another complaint, the parser with the greater limit comes
to as well, and leaves the same items in the buffer and in the supply. -/

namespace ScriptFront

open Run Parse

variable {ι : Type}

/-! ## Steps under two limits -/

namespace Parser

/-- The parser under another limit. -/
def limited (limit : Int) (parser : Parser ι) : Parser ι := { parser with maxDepth := limit }

/-- The second parser is the first one under another limit. -/
def Limited (limit : Int) (parser parser' : Parser ι) : Prop := parser' = parser.limited limit

variable [Supply ι] {limit : Int}

theorem pull_limited (count : Nat) :
    Same .unchanged (Limited (ι := ι) limit) id (pull count) (pull count) := by
  induction count with
  | zero => exact .pure rfl
  | succ count ih =>
      rintro parser _ rfl
      unfold pull
      have hsupply : (parser.limited limit).supply = parser.supply := rfl
      rw [hsupply]
      cases Supply.next parser.supply with
      | error error supply => exact ⟨(Relabelling.error_unchanged (.lexical error)).symm, rfl⟩
      | ok item supply =>
          cases item with
          | none => exact ⟨rfl, rfl⟩
          | some item =>
              exact ih { parser with lookahead := parser.lookahead ++ [item], supply } _ rfl

theorem fill_limited (count : Nat) :
    Same .unchanged (Limited (ι := ι) limit) id (fill count) (fill count) := by
  rintro parser _ rfl
  exact pull_limited (count - parser.lookahead.length) parser _ rfl

theorem steps_limited (limit : Int) :
    SameSteps .unchanged fun _ => Limited (ι := ι) limit where
  look ahead := (fill_limited (ahead + 1)).bind fun _ => by
    rintro parser _ rfl
    exact ⟨(Relabelling.map_item_unchanged _).symm, rfl⟩
  take := by
    rw [take_eq]
    refine (fill_limited 1).bind fun _ => ?_
    rintro ⟨_ | ⟨item, rest⟩, depth, maxDepth, supply⟩ _ rfl
    · exact ⟨rfl, rfl⟩
    · exact ⟨(Relabelling.map_item_unchanged (some item)).symm, rfl⟩
  prefetch := fill_limited
  enter := by rintro _ parser _ rfl; rfl
  leave := by rintro _ _ parser _ _ - rfl; rfl

end Parser

/-! ## Whole inputs -/

/-- The complaint that an `assign` is nested too deeply. -/
def SourceError.TooDeep (error : SourceError) : Prop :=
  ∃ complaint, error = .syntactic complaint ∧ complaint.complaint = .tooDeep

/-- A parser under a greater limit reads what it reads under its own, unless that is too small. -/
theorem Parser.program_outlasts [Supply ι] {parser : Parser ι} {limit : Int}
    (hle : parser.maxDepth ≤ limit) :
    (∃ error parser', program parser = .error error parser' ∧ error.TooDeep) ∨
      program (parser.limited limit) = mapState (.limited limit) (program parser) := by
  have hroom : TokenMachine.room parser ≤ TokenMachine.room (parser.limited limit) := by
    show (parser.maxDepth - parser.depth).toNat ≤ (limit - parser.depth).toNat
    omega
  have hbound : TokenMachine.bound (parser.limited limit) = TokenMachine.bound parser := rfl
  have hprogram (fuel : Nat) : SameUnless .unchanged SourceError.TooDeep (Limited (ι := ι) limit)
      Relabelling.unchanged.program
      (do return ⟨← statementsWith fuel (TokenMachine.room parser) fuel⟩)
      (do return ⟨← statementsWith fuel (TokenMachine.room (parser.limited limit)) fuel⟩) := by
    have hrooms : ((steps_limited (ι := ι) limit).walk SourceError.TooDeep).Rooms
        (TokenMachine.room parser) (TokenMachine.room (parser.limited limit)) :=
      .inr ⟨hroom, fun start => ⟨_, rfl, rfl⟩⟩
    have hstatements := (steps_limited (ι := ι) limit).sameUnless
      (Walk.statementsWith (Eq.refl fuel) hrooms 0 (Eq.refl fuel))
    exact hstatements.bind fun trees => (Same.pure rfl).sameUnless
  rw [Parse.program_eq]
  simp only [sized, hbound]
  exact (hprogram _ parser _ rfl).imp_right fun hsame =>
    hsame.eq_mapState Relabelling.program_unchanged

/-- **A greater limit changes nothing but complaints about the depth.** Unless the complaint under
    the smaller limit is that the nesting is too deep, the program or the error is the same under
    the greater one, and so are the items that are left, in the buffer and in the supply. -/
theorem program_limited [Supply ι] (limits : Limits) (supply : ι) {maxDepth maxDepth' : Int}
    (hle : maxDepth ≤ maxDepth') :
    let run (limit : Int) := outcome (program (Parser.build limits (some limit) supply))
    (∀ error, (run maxDepth).1 = .error (.source (.syntactic error)) →
      error.complaint ≠ .tooDeep) →
    (run maxDepth').1 = (run maxDepth).1 ∧
      (run maxDepth').2.lookahead = (run maxDepth).2.lookahead ∧
      (run maxDepth').2.supply = (run maxDepth).2.supply ∧
      (run maxDepth').2.depth = (run maxDepth).2.depth := by
  intro run h
  have hlimited : Parser.build limits (some maxDepth') supply =
      (Parser.build limits (some maxDepth) supply).limited maxDepth' := rfl
  have hbuild : (Parser.build limits (some maxDepth) supply).maxDepth ≤ maxDepth' := hle
  simp only [run, hlimited]
  rcases Parser.program_outlasts hbuild with ⟨_, parser, hrun, complaint, rfl, hdeep⟩ | hsame
  · refine absurd hdeep (h complaint ?_)
    simp only [run, hrun, outcome]
  · rw [hsame]
    cases program (Parser.build limits (some maxDepth) supply) <;> exact ⟨rfl, rfl, rfl, rfl⟩

/-- Behind `print print` the end of the input is complained of before the depth is looked at. -/
theorem program_limited_at_end :
    let run (limit : Int) := outcome (program (Parser.build {} (some limit)
      (Feed.ofItems [⟨⟨.print, .none⟩, ⟨0, 5⟩⟩, ⟨⟨.print, .none⟩, ⟨6, 11⟩⟩])))
    (run 2).1 = .error (.source (.syntactic .atEnd)) ∧ (run 5).1 = (run 2).1 ∧
      (run 5).2.lookahead = (run 2).2.lookahead ∧ (run 5).2.supply = (run 2).2.supply ∧
      (run 5).2.depth = (run 2).2.depth := by
  intro run
  have hend : (run 2).1 = .error (.source (.syntactic .atEnd)) := rfl
  refine ⟨hend, program_limited {} _ (by decide) fun error herror => ?_⟩
  obtain rfl : SyntaxError.atEnd = error := by simpa using hend.symm.trans herror
  decide

end ScriptFront
