import ScriptFront.Proofs.Diagnostic.Location
import ScriptFront.Proofs.Diagnostic.Message
import ScriptFront.Proofs.Parser.Source

set_option autoImplicit false

/-! # What a diagnostic shows

A diagnostic of a malformed source has three lines: a header without newlines, the line of the
source on which the offending text begins, and carets below just that text, as far as it is on that
line (`PointsAt`). The reason is that every error of a source has a span that covers a piece of it,
from a character on that is no newline (`Anchored`), or none at all where the source has ended. -/

namespace ScriptFront

open Utf8

/-! ## Rendering -/

/-- The first line of a diagnostic: location, class and message. -/
def header (place : Location) (error : SourceError) : Text :=
  Numeral.ofNat place.line ++ [':'] ++ Numeral.ofNat place.column ++ ": ".toList ++
    error.label ++ ": ".toList ++ error.message

theorem not_mem_header {error : SourceError} (h : '\n' ∉ error.message) (place : Location) :
    '\n' ∉ header place error := by
  have hline := Numeral.not_mem_ofNat place.line
  have hcolumn := Numeral.not_mem_ofNat place.column
  have hlabel := error.not_mem_label
  simp only [header, List.mem_append, not_or]
  exact ⟨⟨⟨⟨⟨⟨hline, by decide⟩, hcolumn⟩, by decide⟩, hlabel⟩, by decide⟩, h⟩

/-- The lines of a diagnostic that marks a piece of the source. -/
theorem lines_render {before piece after : Text} {error : SourceError}
    (hmessage : '\n' ∉ error.message)
    (hspan : markedSpan (before ++ piece ++ after) error =
      ⟨size before, (size before + size piece : Nat)⟩) :
    lines (render (before ++ piece ++ after) error) =
      [header ⟨before.count '\n' + 1, (lastLine before).length + 1⟩ error,
        lastLine before ++ firstLine (piece ++ after),
        List.replicate (lastLine before).length ' ' ++
          List.replicate (max 1 (firstLine piece).length) '^'] := by
  have hplace := locate_append before (piece ++ after)
  have hline := lines_getElem?_count before (piece ++ after)
  rw [← List.append_assoc] at hplace hline
  have hrender : render (before ++ piece ++ after) error =
      header ⟨before.count '\n' + 1, (lastLine before).length + 1⟩ error ++
        '\n' :: (lastLine before ++ firstLine (piece ++ after) ++
          '\n' :: (List.replicate (lastLine before).length ' ' ++
            List.replicate (max 1 (firstLine piece).length) '^')) := by
    simp only [render, hspan, hplace, Nat.add_sub_cancel, hline, Option.getD_some,
      Span.bytes_append, decodeLossy_encode]
    simp only [header, List.append_assoc, List.cons_append, List.nil_append]
  have hshown : '\n' ∉ lastLine before ++ firstLine (piece ++ after) := by
    rw [List.mem_append, not_or]
    exact ⟨not_mem_lastLine before, not_mem_firstLine _⟩
  have hcarets : '\n' ∉ List.replicate (lastLine before).length ' ' ++
      List.replicate (max 1 (firstLine piece).length) '^' := by
    simp
  rw [hrender, lines_append_newline, lines_append_newline,
    lines_of_not_mem (not_mem_header hmessage _), lines_of_not_mem hshown,
    lines_of_not_mem hcarets]
  rfl

/-! ## Where errors are -/

/-- The span covers a piece of the source that does not begin with a newline. -/
def Anchored (source : Text) (span : Span) : Prop :=
  ∃ before c others after, source = before ++ (c :: others) ++ after ∧ c ≠ '\n' ∧
    span = ⟨size before, (size before + size (c :: others) : Nat)⟩

namespace Explains

variable {source : Text} {tokens : List Item} {ending : Option LexError} {limit : Nat}
  {error : SourceError}

/-- The message of an error that a source is rejected with is on one line. -/
theorem not_mem_message (hscans : Scans (Cursor.start source) tokens ending)
    (h : Explains tokens ending limit error) : '\n' ∉ error.message := by
  cases error with
  | lexical error =>
      obtain rfl : ending = some error := h
      obtain ⟨before, rest, hinterrupted⟩ := hscans.interrupted
      exact LexError.not_mem_message hinterrupted.fault.not_mem_lexeme
  | syntactic error => exact SyntaxError.not_mem_message h.not_mem_text

/-- The span of such an error covers a lexeme of the source, or what is at fault in it. -/
theorem anchored (hscans : Scans (Cursor.start source) tokens ending)
    (h : Explains tokens ending limit error) {span : Span} (hspan : error.span? = some span) :
    Anchored source span := by
  cases error with
  | lexical error =>
      obtain rfl : ending = some error := h
      obtain ⟨before, rest, hinterrupted⟩ := hscans.interrupted
      obtain ⟨c, others, after, hrest, hblank, herror⟩ := hinterrupted.fault.covered
      refine ⟨before, c, others, after, ?_, ?_, Option.some.inj (hspan.symm.trans herror)⟩
      · rw [hinterrupted.splits, hrest, List.append_assoc]
      · rintro rfl
        exact hblank (by decide)
  | syntactic error =>
      have hspan : error.span = some span := hspan
      rcases Grammar.Blames.span h with hnone | ⟨item, hitem, hblamed⟩
      · exact absurd (hspan.symm.trans hnone) (by simp)
      obtain ⟨before, lexeme, after, hsource, hcovers, hspells⟩ := hscans.spelled item hitem
      obtain ⟨c, others, rfl, hblank, -⟩ := hspells.head
      have hplace : some span = some item.span := hspan.symm.trans hblamed
      refine ⟨before, c, others, after, hsource, ?_, (Option.some.inj hplace).trans hcovers⟩
      rintro rfl
      exact hblank (by decide)

end Explains

/-! ## Diagnostics of rejected sources -/

/-- The diagnostic of an error points at a place in the source: it has three lines, and the second
    one is the line of that place. The carets of the third one are below the characters of the
    second one that the span of the error covers on its first line; an error without a span is
    behind the last character of the source. -/
structure PointsAt (source : Text) (error : SourceError) (place : Location) (line : Text)
    (width : Nat) : Prop where
  three : lines (render source error) = [header place error, line,
    List.replicate (place.column - 1) ' ' ++ List.replicate width '^']
  positive : 1 ≤ place.line ∧ 1 ≤ place.column ∧ 1 ≤ width
  shown : (lines source)[place.line - 1]? = some line
  marked : ∀ span, error.span? = some span → ∃ piece, span.slice? source = some piece ∧
    (line.drop (place.column - 1)).take width = firstLine piece ∧
    (firstLine piece).length = width
  atEnd : error.span? = none →
    (lines source).getLast? = some line ∧ place.column = line.length + 1 ∧ width = 1

/-- A diagnostic points at what the error's span covers. -/
theorem Anchored.pointsAt {source : Text} {error : SourceError} {span : Span}
    (h : Anchored source span) (hspan : error.span? = some span)
    (hmessage : '\n' ∉ error.message) :
    ∃ place line width, PointsAt source error place line width := by
  obtain ⟨before, c, others, after, rfl, hc, rfl⟩ := h
  have hwidth : 1 ≤ (firstLine (c :: others)).length := by simp [firstLine, hc]
  have hmarked : markedSpan (before ++ (c :: others) ++ after) error =
      ⟨size before, (size before + size (c :: others) : Nat)⟩ := by
    rw [markedSpan, hspan]
    rfl
  have hlines := lines_render hmessage hmarked
  rw [Nat.max_eq_right hwidth] at hlines
  refine ⟨_, _, _, hlines, ⟨by simp, by simp, hwidth⟩, ?_, fun other hother => ?_, fun hnone => ?_⟩
  · rw [List.append_assoc]
    exact lines_getElem?_count before _
  · obtain rfl := Option.some.inj (hspan.symm.trans hother)
    refine ⟨c :: others, Span.slice?_append before (c :: others) after, ?_, rfl⟩
    rw [Nat.add_sub_cancel, List.drop_left' rfl]
    exact (List.prefix_iff_eq_take.1 (firstLine_begins (c :: others) after)).symm
  · exact absurd (hspan.symm.trans hnone) (by simp)

/-- A diagnostic points behind the source if the error is nowhere. -/
theorem pointsAt_end (source : Text) {error : SourceError} (hspan : error.span? = none)
    (hmessage : '\n' ∉ error.message) :
    ∃ place line width, PointsAt source error place line width := by
  have hlines := @lines_render source [] [] error hmessage (by simp [markedSpan, hspan])
  simp only [List.append_nil, firstLine, List.takeWhile_nil, List.length_nil] at hlines
  refine ⟨_, _, _, hlines, ⟨by simp, by simp, by simp⟩, ?_, fun span hsome => ?_, fun _ => ?_⟩
  · have hline := lines_getElem?_count source []
    simpa [firstLine] using hline
  · exact absurd (hspan.symm.trans hsome) (by simp)
  · exact ⟨lines_getLast? source, rfl, rfl⟩

/-- **Diagnostics point at the offending text.** -/
theorem pointsAt_of_parseSource_eq_error {limits : Limits} {maxBytes maxDepth : Option Int}
    {source : Text} {error : SourceError}
    (h : parseSource limits maxBytes maxDepth source = .error (.source error)) :
    ∃ place line width, PointsAt source error place line width := by
  obtain ⟨tokens, ending, hscans, hexplains⟩ := explains_of_parseSource_eq_error h
  have hmessage := hexplains.not_mem_message hscans
  cases hspan : error.span? with
  | none => exact pointsAt_end source hspan hmessage
  | some span => exact (hexplains.anchored hscans hspan).pointsAt hspan hmessage

/-- A comment that goes on to the next line, behind a character of two bytes. -/
theorem pointsAt_open_comment :
    parseSource {} none none "x;\n/*é*/ /*a\nb".toList = .error (.source (.lexical
      ⟨.unterminatedComment, blockOpen, some ⟨10, 15⟩⟩)) ∧
    ∃ place line width, PointsAt "x;\n/*é*/ /*a\nb".toList
      (.lexical ⟨.unterminatedComment, blockOpen, some ⟨10, 15⟩⟩) place line width := by
  have hrun : parseSource {} none none "x;\n/*é*/ /*a\nb".toList = .error (.source (.lexical
      ⟨.unterminatedComment, blockOpen, some ⟨10, 15⟩⟩)) := by rfl
  exact ⟨hrun, pointsAt_of_parseSource_eq_error hrun⟩

end ScriptFront
