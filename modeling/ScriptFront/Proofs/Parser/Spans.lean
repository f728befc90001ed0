import ScriptFront.Proofs.Grammar.Extent
import ScriptFront.Proofs.Parser.Source

set_option autoImplicit false

/-! # The spans of a program

The tokens of a source stand one behind the other, from character to character. So every expression
of a program that is read from it spans from the first to the last token that it was read from,
parentheses aside, and its parts lie within it in their order (`Spanned`). -/

namespace ScriptFront

open Utf8 Grammar

/-- Tokens that are scanned stand one behind the other. -/
theorem Scans.tokens_ordered {cursor : Cursor} {tokens : List Item}
    (h : Scans cursor tokens none) : Ordered tokens :=
  ⟨fun item hitem => (h.laid.inside item hitem).2.1, h.laid.ordered⟩

/-- A span from the beginning of one token to the end of another one can be cut out of the
    source. -/
theorem Scans.exists_slice? {source : Text} {tokens : List Item} {ending : Option LexError}
    (h : Scans (Cursor.start source) tokens ending) {first last : Item}
    (hfirst : first ∈ tokens) (hlast : last ∈ tokens) (hlt : first.span.lo < last.span.hi) :
    ∃ piece, (first.span.combine last.span).slice? source = some piece := by
  obtain ⟨before, lexeme, after, hsource, hspan, -⟩ := h.spelled first hfirst
  obtain ⟨before', lexeme', after', hsource', hspan', -⟩ := h.spelled last hlast
  have hle : (size before : Int) ≤ size (before' ++ lexeme') := by
    rw [hspan, hspan'] at hlt
    rw [size_append]
    exact Int.le_of_lt hlt
  have hslice := Span.exists_slice? (hsource.trans (List.append_assoc ..)) hsource'
    (Int.ofNat_le.1 hle)
  rw [size_append] at hslice
  rw [hspan, hspan']
  exact hslice

/-- Every expression of the program is derived from a run of the tokens of the source, and spans
    from the first to the last of them that is no parenthesis. A span is not empty, contains those
    of the parts, which are one behind the other, as are those of the statements, and can be cut out
    of the source; and a walk meets the parts in the order in which they begin. -/
structure Spanned (source : Text) (tokens : List Item) (program : Program) : Prop where
  derived : ∃ depth, Statements depth tokens program.statements
  parsed : ∀ statement ∈ program.statements, ∀ node, statement.HasPart node →
    ∃ run, MadeOf tokens run node
  extent : ∀ run node, MadeOf tokens run node → ∃ first last, (bare run).head? = some first ∧
    (bare run).getLast? = some last ∧ node.span = ⟨first.span.lo, last.span.hi⟩
  fits : ∀ statement ∈ program.statements, ∀ node, statement.HasPart node → Fits node
  sorted : ∀ statement ∈ program.statements, statement.walk.Pairwise StartsBy
  apart : program.statements.Pairwise fun a b => a.span.hi < b.span.lo
  sliced : ∀ statement ∈ program.statements, ∀ node, statement.HasPart node →
    ∃ piece, node.span.slice? source = some piece

/-- **The spans of a program are where its expressions stand in the source.** -/
theorem spanned_of_parseSource_eq_ok {limits : Limits} {maxBytes maxDepth : Option Int}
    {source : Text} {program : Program}
    (h : parseSource limits maxBytes maxDepth source = .ok program) :
    ∃ tokens, lexSource source = .ok tokens ∧ Spanned source tokens program := by
  obtain ⟨tokens, hscans, hstatements⟩ := statements_of_parseSource_eq_ok h
  have hordered := hscans.tokens_ordered
  have hparsed : ∀ statement ∈ program.statements, ∀ node, statement.HasPart node →
      ∃ run, MadeOf tokens run node := by
    intro statement hstatement node hnode
    obtain ⟨run, hmade⟩ := hstatements.madeOf statement hstatement
    exact hmade.hasRun node (Expr.mem_walk_iff.2 hnode)
  have hfits : ∀ statement ∈ program.statements, ∀ node ∈ statement.walk, Fits node := by
    intro statement hstatement
    obtain ⟨run, hmade⟩ := hstatements.madeOf statement hstatement
    exact hmade.fits hordered
  refine ⟨tokens, lexSource_eq_ok_iff.2 hscans, ⟨_, hstatements⟩, hparsed,
    fun run node hmade => hmade.built.extent,
    fun statement hstatement node hnode => hfits statement hstatement node
      (Expr.mem_walk_iff.2 hnode),
    fun statement hstatement => (nested_of_fits (hfits statement hstatement)).sorted,
    hstatements.apart hordered, fun statement hstatement node hnode => ?_⟩
  obtain ⟨run, hmade⟩ := hparsed statement hstatement node hnode
  obtain ⟨first, hfirst, last, hlast, hspan⟩ := hmade.exists_bounds
  have hlt := hmade.positive hordered
  rw [hspan] at hlt ⊢
  exact hscans.exists_slice? hfirst hlast hlt

/-- Parentheses around and at the edges of operands do not count. -/
theorem spanned_print_product :
    ∃ tokens, lexSource "print ((x)+2)*(3);y=(1);".toList = .ok tokens ∧
      Spanned "print ((x)+2)*(3);y=(1);".toList tokens
        ⟨[.print ⟨0, 16⟩ (.binary ⟨8, 16⟩ .mul
            (.binary ⟨8, 12⟩ .add (.var ⟨8, 9⟩ (.text ['x']))
              (.literal ⟨11, 12⟩ (.integer 2)))
            (.literal ⟨15, 16⟩ (.integer 3))),
          .assign ⟨18, 22⟩ (.text ['y']) (.literal ⟨21, 22⟩ (.integer 1))]⟩ := by
  have hrun : parseSource {} none none "print ((x)+2)*(3);y=(1);".toList =
      .ok ⟨[.print ⟨0, 16⟩ (.binary ⟨8, 16⟩ .mul
            (.binary ⟨8, 12⟩ .add (.var ⟨8, 9⟩ (.text ['x']))
              (.literal ⟨11, 12⟩ (.integer 2)))
            (.literal ⟨15, 16⟩ (.integer 3))),
          .assign ⟨18, 22⟩ (.text ['y']) (.literal ⟨21, 22⟩ (.integer 1))]⟩ := by
    decide +kernel
  exact spanned_of_parseSource_eq_ok hrun

end ScriptFront
