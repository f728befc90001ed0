import Mathlib.Data.Prod.Lex
import Mathlib.Order.Interval.Finset.Nat
import ScriptFront.Proofs.Diagnostic.Lines

set_option autoImplicit false

/-! # The location of any offset

An offset may lie inside a character. The characters that have begun before it (`begun`) are what
its location depends on: bytes that were cut off behind them still show each of them as one
character, the last one as a replacement, and have the same lines (`Cut`). So a location counts
characters of the source, and can be compared with any other one. -/

namespace ScriptFront

open Utf8

/-! ## Characters that have begun -/

/-- The characters of a text that begin within its first bytes. -/
def begun (bytes : Nat) : Text → Text
  | [] => []
  | c :: text => if bytes = 0 then [] else c :: begun (bytes - c.utf8Size) text

@[simp] theorem begun_zero (text : Text) : begun 0 text = [] := by
  cases text <;> simp [begun]

theorem begun_append (before rest : Text) (bytes : Nat) :
    begun (size before + bytes) (before ++ rest) = before ++ begun bytes rest := by
  induction before with
  | nil => simp
  | cons c before ih =>
      have hpos := c.utf8Size_pos
      rw [List.cons_append, begun, if_neg (by simp; omega), size_cons, Nat.add_assoc,
        Nat.add_sub_cancel_left, ih, List.cons_append]

/-- A text has begun with all of its bytes, and nothing else has. -/
theorem begun_size (before rest : Text) : begun (size before) (before ++ rest) = before := by
  simpa using begun_append before rest 0

/-- A character has begun with any of its bytes. -/
theorem begun_inside {before after : Text} {c : Char} {bytes : Nat} (hbegun : size before < bytes)
    (hinside : bytes ≤ size (before ++ [c])) :
    begun bytes (before ++ c :: after) = before ++ [c] := by
  obtain ⟨more, rfl⟩ := Nat.exists_eq_add_of_lt hbegun
  rw [size_append, size_cons, size_nil] at hinside
  rw [Nat.add_assoc, begun_append, begun, if_neg (by omega), Nat.sub_eq_zero_of_le (by omega),
    begun_zero]

/-- A character has begun if it begins within the bytes. -/
theorem lt_length_begun_iff {text : Text} {index bytes : Nat} : index < (begun bytes text).length ↔
    index < text.length ∧ size (text.take index) < bytes := by
  induction text generalizing index bytes with
  | nil => simp [begun]
  | cons c text ih =>
      rw [begun]
      by_cases hbytes : bytes = 0
      · simp [hbytes]
      · rw [if_neg hbytes]
        cases index with
        | zero => simp; omega
        | succ index =>
            rw [List.length_cons, List.length_cons, Nat.succ_lt_succ_iff, ih,
              Nat.succ_lt_succ_iff, List.take_succ_cons, size_cons]
            omega

theorem begun_begins (bytes : Nat) (text : Text) : begun bytes text <+: text := by
  induction text generalizing bytes with
  | nil => exact List.prefix_rfl
  | cons c text ih =>
      rw [begun]
      split
      · exact List.nil_prefix
      · exact List.cons_prefix_cons.2 ⟨rfl, ih _⟩

/-- With more bytes, more characters have begun. -/
theorem begun_mono {bytes bytes' : Nat} (h : bytes ≤ bytes') (text : Text) :
    begun bytes text <+: begun bytes' text := by
  induction text generalizing bytes bytes' with
  | nil => exact List.prefix_rfl
  | cons c text ih =>
      rw [begun, begun]
      by_cases hbytes : bytes = 0
      · simp [hbytes]
      · rw [if_neg hbytes, if_neg (by omega)]
        exact List.cons_prefix_cons.2 ⟨rfl, ih (by omega)⟩

/-! ## Texts that are cut -/

/-- The bytes are those of the text, but of its last character some may be missing. -/
inductive Cut : List UInt8 → Text → Prop
  | nil : Cut [] []
  | whole {c : Char} {bytes : List UInt8} {text : Text} :
      Cut bytes text → Cut (String.utf8EncodeChar c ++ bytes) (c :: text)
  | short {c : Char} {count : Nat} : 0 < count → count < c.utf8Size →
      Cut ((String.utf8EncodeChar c).take count) [c]

/-- The first bytes of a text are those of the characters that begin there. -/
theorem cut_take_encode (bytes : Nat) (text : Text) :
    Cut ((encode text).take bytes) (begun bytes text) := by
  induction text generalizing bytes with
  | nil => simpa [begun] using Cut.nil
  | cons c text ih =>
      have hencode : encode (c :: text) = String.utf8EncodeChar c ++ encode text := rfl
      rw [hencode, List.take_append, String.length_utf8EncodeChar, begun]
      by_cases hbytes : bytes = 0
      · simpa [hbytes] using Cut.nil
      rw [if_neg hbytes]
      by_cases hwhole : c.utf8Size ≤ bytes
      · rw [List.take_of_length_le (by simpa using hwhole)]
        exact .whole (ih _)
      · rw [Nat.sub_eq_zero_of_le (by omega), List.take_zero, List.append_nil, begun_zero]
        exact .short (by omega) (by omega)

/-- A newline cannot be cut. -/
theorem not_mem_short {c : Char} {count : Nat} (hpos : 0 < count) (hcut : count < c.utf8Size) :
    c ≠ '\n' ∧ lineFeed ∉ (String.utf8EncodeChar c).take count := by
  have hne : c ≠ '\n' := by
    rintro rfl
    have hsize : '\n'.utf8Size = 1 := rfl
    omega
  refine ⟨hne, fun hmem => ?_⟩
  have hcount := count_encodeChar c
  rw [if_neg hne, List.count_eq_zero] at hcount
  exact hcount (List.mem_of_mem_take hmem)

namespace Cut

variable {bytes : List UInt8} {text : Text}

theorem count (h : Cut bytes text) : bytes.count lineFeed = text.count '\n' := by
  induction h with
  | nil => rfl
  | @whole c bytes text _ ih =>
      rw [List.count_append, count_encodeChar, ih, List.count_cons, Nat.add_comm]
      simp
  | short hpos hcut =>
      obtain ⟨hne, hmem⟩ := not_mem_short hpos hcut
      rw [List.count_eq_zero_of_not_mem hmem, List.count_eq_zero_of_not_mem]
      simpa using hne.symm

theorem lineFeed_mem (h : Cut bytes text) : lineFeed ∈ bytes ↔ '\n' ∈ text := by
  rw [← List.count_pos_iff, ← List.count_pos_iff, h.count]

/-- The cut is on the last line. -/
theorem lastLine (h : Cut bytes text) : Cut (afterLastLine bytes) (lastLine text) := by
  induction h with
  | nil => exact .nil
  | @whole c bytes text h ih =>
      rw [ScriptFront.lastLine]
      by_cases hmem : '\n' ∈ text
      · rw [if_pos hmem, afterLastLine_append_of_mem _ (h.lineFeed_mem.2 hmem)]
        exact ih
      have hbytes : lineFeed ∉ bytes := h.lineFeed_mem.not.2 hmem
      rw [if_neg hmem]
      by_cases hc : c = '\n'
      · rw [if_pos hc, hc]
        exact (afterLastLine_append [] hbytes).symm ▸ h
      · rw [if_neg hc, afterLastLine_of_not_mem]
        · exact .whole h
        · have hnot : '\n' ∉ c :: text := List.not_mem_cons_of_ne_of_not_mem (Ne.symm hc) hmem
          exact (Cut.whole h).lineFeed_mem.not.2 hnot
  | @short c count hpos hcut =>
      obtain ⟨hne, hmem⟩ := not_mem_short hpos hcut
      rw [afterLastLine_of_not_mem hmem]
      simpa [ScriptFront.lastLine, hne] using Cut.short hpos hcut

/-- A character that is cut is shown as one character. -/
theorem length_decodeLossy (h : Cut bytes text) : (decodeLossy bytes).length = text.length := by
  rw [decodeLossy, List.length_map, decode]
  induction h with
  | nil => rfl
  | whole _ ih => rw [run_encodeChar, List.length_cons, List.length_cons, ih]
  | short hpos hcut => rw [run_take_encodeChar hpos hcut]; rfl

end Cut

/-! ## Locations behind texts -/

/-- The location behind a text that a source begins with. -/
def Location.behind (text : Text) : Location :=
  ⟨text.count '\n' + 1, (lastLine text).length + 1⟩

/-- The location of an offset is that behind the characters that have begun. -/
theorem locate_eq_behind (source : Text) (offset : Int) :
    locate source offset = .behind (begun (Position.clamp (size source) offset) source) := by
  have hcut := cut_take_encode (Position.clamp (size source) offset) source
  rw [← length_encode] at hcut ⊢
  rw [locate, Slice.upTo, hcut.count, hcut.lastLine.length_decodeLossy, Location.behind]

/-- A place between two characters is on the line that the text before it ends in, behind what
    that line has of this text. -/
theorem locate_append (before rest : Text) : locate (before ++ rest) (size before : Int) =
    ⟨before.count '\n' + 1, (lastLine before).length + 1⟩ := by
  rw [locate_eq_behind, Position.clamp_natCast, size_append, Nat.min_eq_left (by omega),
    begun_size, Location.behind]

/-! ## The order of locations -/

/-- Locations are ordered by their lines, and those on one line by their columns. -/
def Location.rank (place : Location) : Nat ×ₗ Nat := toLex (place.line, place.column)

theorem lastLine_append (text : Text) {more : Text} (h : '\n' ∉ more) :
    lastLine (text ++ more) = lastLine text ++ more := by
  induction text with
  | nil => exact lastLine_of_not_mem h
  | cons c text ih =>
      rw [List.cons_append, lastLine, lastLine]
      by_cases hmem : '\n' ∈ text
      · rw [if_pos (List.mem_append_left _ hmem), if_pos hmem, ih]
      · rw [if_neg (by simp [hmem, h]), if_neg hmem]
        split <;> rfl

namespace Location

/-- With more of a text the location moves on. -/
theorem behind_lt (text : Text) {more : Text} (h : more ≠ []) :
    (behind text).rank < (behind (text ++ more)).rank := by
  rw [rank, rank, Prod.Lex.toLex_lt_toLex]
  simp only [behind, List.count_append]
  by_cases hmem : '\n' ∈ more
  · have hpos := List.count_pos_iff.2 hmem
    left
    omega
  · have hzero := List.count_eq_zero_of_not_mem hmem
    have hlength := List.length_pos_iff.2 h
    right
    rw [lastLine_append text hmem, List.length_append]
    omega

theorem behind_mono {text text' : Text} (h : text <+: text') :
    (behind text).rank ≤ (behind text').rank := by
  obtain ⟨more, rfl⟩ := h
  by_cases hmore : more = []
  · rw [hmore, List.append_nil]
  · exact (behind_lt text hmore).le

/-- The line of a location is there, and at least as long as the column tells. -/
theorem behind_onLine (before rest : Text) :
    ∃ line, (lines (before ++ rest))[(behind before).line - 1]? = some line ∧
      (behind before).column ≤ line.length + 1 := by
  refine ⟨_, lines_getElem?_count before rest, ?_⟩
  rw [List.length_append]
  exact Nat.succ_le_succ (Nat.le_add_right _ _)

end Location

/-! ## Counting -/

/-- The newlines of a text, by their places. -/
def newlines (text : Text) : Finset Nat :=
  {index ∈ Finset.range text.length | text[index]? = some '\n'}

/-- The characters of a text behind all of its newlines, by their places. -/
def behindNewlines (text : Text) : Finset Nat :=
  {index ∈ Finset.range text.length | ∀ newline ∈ newlines text, newline < index}

theorem mem_newlines {text : Text} {index : Nat} :
    index ∈ newlines text ↔ text[index]? = some '\n' := by
  simp only [newlines, Finset.mem_filter, Finset.mem_range, and_iff_right_iff_imp]
  intro h
  exact (List.getElem?_eq_some_iff.1 h).1

theorem newlines_concat (text : Text) (c : Char) : newlines (text ++ [c]) =
    if c = '\n' then insert text.length (newlines text) else newlines text := by
  have hbefore : {index ∈ Finset.range text.length | (text ++ [c])[index]? = some '\n'} =
      newlines text := by
    refine Finset.filter_congr fun index hindex => ?_
    rw [List.getElem?_append_left (Finset.mem_range.1 hindex)]
  rw [newlines, List.length_append, List.length_singleton, Finset.range_add_one,
    Finset.filter_insert, List.getElem?_concat_length, hbefore]
  simp

/-- There are as many places as there are newlines. -/
theorem card_newlines (text : Text) : (newlines text).card = text.count '\n' := by
  induction text using List.reverseRecOn with
  | nil => rfl
  | append_singleton text c ih =>
      rw [newlines_concat, List.count_append, List.count_singleton]
      by_cases hc : c = '\n'
      · have hnew : text.length ∉ newlines text := by simp [mem_newlines]
        rw [if_pos hc, Finset.card_insert_of_notMem hnew, ih]
        simp [hc]
      · rw [if_neg hc, ih]
        simp [hc]

/-- Behind the last newline of a text there is one line. -/
theorem behindNewlines_append (upper : Text) {line : Text} (hline : '\n' ∉ line) :
    behindNewlines (upper ++ '\n' :: line) =
      Finset.Ico (upper.length + 1) (upper ++ '\n' :: line).length := by
  ext index
  simp only [behindNewlines, Finset.mem_filter, Finset.mem_range, Finset.mem_Ico, mem_newlines]
  constructor
  · rintro ⟨hindex, hbehind⟩
    exact ⟨hbehind upper.length (by simp), hindex⟩
  · rintro ⟨hupper, hindex⟩
    refine ⟨hindex, ?_⟩
    intro newline hnewline
    by_contra hle
    obtain ⟨more, rfl⟩ : ∃ more, newline = upper.length + (more + 1) :=
      ⟨newline - upper.length - 1, by omega⟩
    rw [List.getElem?_append_right (Nat.le_add_right _ _), Nat.add_sub_cancel_left,
      List.getElem?_cons_succ] at hnewline
    exact hline (List.mem_of_getElem? hnewline)

theorem card_behindNewlines (text : Text) :
    (behindNewlines text).card = (lastLine text).length := by
  have hline := not_mem_lastLine text
  rcases eq_lastLine text with htext | ⟨upper, htext⟩
  · have hnone : newlines text = ∅ := by
      rw [← Finset.card_eq_zero, card_newlines, List.count_eq_zero, htext]
      exact hline
    simp [behindNewlines, hnone, ← htext]
  · have hlast := behindNewlines_append upper hline
    rw [← htext] at hlast
    have hlength := congrArg List.length htext
    rw [List.length_append, List.length_cons] at hlength
    rw [hlast, Nat.card_Ico]
    omega

/-- The newlines of a source that lie wholly within its first bytes, by their places. -/
def newlinesWithin (source : Text) (bytes : Nat) : Finset Nat :=
  {index ∈ Finset.range source.length |
    source[index]? = some '\n' ∧ size (source.take (index + 1)) ≤ bytes}

/-- The characters of a source behind these newlines whose first byte is within its first bytes
    too, by their places. -/
def begunOnLine (source : Text) (bytes : Nat) : Finset Nat :=
  {index ∈ Finset.range source.length |
    size (source.take index) < bytes ∧ ∀ newline ∈ newlinesWithin source bytes, newline < index}

/-- A newline has one byte, so it lies within the first bytes if it begins there. -/
theorem newlinesWithin_eq (source : Text) (bytes : Nat) :
    newlinesWithin source bytes = newlines (begun bytes source) := by
  ext index
  have hget : (begun bytes source)[index]? =
      if index < (begun bytes source).length then source[index]? else none := by
    conv_lhs => rw [List.prefix_iff_eq_take.1 (begun_begins bytes source)]
    exact List.getElem?_take
  have hsize (hnewline : source[index]? = some '\n') :
      size (source.take (index + 1)) = size (source.take index) + 1 := by
    rw [List.take_add_one, hnewline, size_append]
    rfl
  simp only [newlinesWithin, Finset.mem_filter, Finset.mem_range, mem_newlines, hget]
  by_cases hindex : index < (begun bytes source).length
  · have hbegins := lt_length_begun_iff.1 hindex
    rw [if_pos hindex]
    constructor
    · rintro ⟨-, hnewline, -⟩
      exact hnewline
    · intro hnewline
      exact ⟨hbegins.1, hnewline, by rw [hsize hnewline]; exact hbegins.2⟩
  · rw [if_neg hindex]
    constructor
    · rintro ⟨hlength, hnewline, hwithin⟩
      rw [hsize hnewline] at hwithin
      exact absurd (lt_length_begun_iff.2 ⟨hlength, hwithin⟩) hindex
    · intro hnone
      exact absurd hnone (by simp)

theorem begunOnLine_eq (source : Text) (bytes : Nat) :
    begunOnLine source bytes = behindNewlines (begun bytes source) := by
  ext index
  simp only [begunOnLine, behindNewlines, newlinesWithin_eq, Finset.mem_filter, Finset.mem_range,
    lt_length_begun_iff, and_assoc]

/-! ## Any offset -/

/-- How many of the first bytes of a source are before an offset: a negative one counts from the
    end, and outside the source the nearest end is meant. -/
abbrev bytesBefore (source : Text) (offset : Int) : Nat := Position.clamp (size source) offset

section Offsets

variable {source : Text} {offset later : Int}

/-- An offset inside a character is located behind that character. -/
theorem locate_inside {before after : Text} {c : Char} (hsource : source = before ++ c :: after)
    (hbegun : size before < bytesBefore source offset)
    (hinside : bytesBefore source offset ≤ size (before ++ [c])) :
    locate source offset = locate source (size (before ++ [c])) := by
  have hsplit : source = (before ++ [c]) ++ after := by simp [hsource]
  have hbehind : locate source (size (before ++ [c])) = .behind (before ++ [c]) := by
    rw [hsplit]
    exact locate_append (before ++ [c]) after
  have hcharacters : begun (bytesBefore source offset) source = before ++ [c] := by
    conv_lhs => rw [hsource]
    exact begun_inside (hsource ▸ hbegun) (hsource ▸ hinside)
  rw [hbehind, locate_eq_behind, hcharacters]

theorem locate_mono (h : bytesBefore source offset ≤ bytesBefore source later) :
    (locate source offset).rank ≤ (locate source later).rank := by
  rw [locate_eq_behind, locate_eq_behind]
  exact Location.behind_mono (begun_mono h source)

/-- Behind a place at which a character begins, every location is a later one. -/
theorem locate_lt {before rest : Text} (hsource : source = before ++ rest)
    (hbefore : bytesBefore source offset = size before)
    (hlater : size before < bytesBefore source later) :
    (locate source offset).rank < (locate source later).rank := by
  obtain ⟨count, hcount⟩ := Nat.exists_eq_add_of_lt hlater
  have hbegun : begun (bytesBefore source offset) source = before := by
    rw [hbefore, hsource, begun_size]
  have hmore : begun (bytesBefore source later) source = before ++ begun (count + 1) rest := by
    rw [hcount, Nat.add_assoc]
    conv_lhs => rw [hsource]
    exact begun_append before rest (count + 1)
  have hrest : begun (count + 1) rest ≠ [] := by
    have hle : bytesBefore source later ≤ size source := Position.clamp_le ..
    cases rest with
    | nil =>
        have hsize : size source = size before := by rw [hsource, List.append_nil]
        omega
    | cons c rest => simp [begun]
  rw [locate_eq_behind, locate_eq_behind, hbegun, hmore]
  exact Location.behind_lt before hrest

theorem exists_line (source : Text) (offset : Int) : ∃ line,
    (lines source)[(locate source offset).line - 1]? = some line ∧
      (locate source offset).column ≤ line.length + 1 := by
  obtain ⟨rest, hrest⟩ := begun_begins (bytesBefore source offset) source
  have hline := Location.behind_onLine (begun (bytesBefore source offset) source) rest
  rw [hrest, ← locate_eq_behind] at hline
  exact hline

end Offsets

/-- What the location of an offset in a source is, for all offsets at once. -/
structure LocatedByCounting (source : Text) : Prop where
  clamped : ∀ offset : Int, (bytesBefore source offset : Int) =
    max 0 (min (size source : Int) (if offset < 0 then size source + offset else offset))
  /-- The line counts newlines, the column characters of the line. -/
  counted : ∀ offset, locate source offset =
    ⟨1 + (newlinesWithin source (bytesBefore source offset)).card,
      1 + (begunOnLine source (bytesBefore source offset)).card⟩
  inside : ∀ before c after offset, source = before ++ c :: after →
    size before < bytesBefore source offset → bytesBefore source offset ≤ size (before ++ [c]) →
    locate source offset = locate source (size (before ++ [c]))
  monotone : ∀ offset later, bytesBefore source offset ≤ bytesBefore source later →
    (locate source offset).rank ≤ (locate source later).rank
  strict : ∀ before rest offset later, source = before ++ rest →
    bytesBefore source offset = size before → size before < bytesBefore source later →
    (locate source offset).rank < (locate source later).rank
  line_le : ∀ offset, (locate source offset).line ≤ (lines source).length
  onLine : ∀ offset, ∃ line, (lines source)[(locate source offset).line - 1]? = some line ∧
    (locate source offset).column ≤ line.length + 1
  /-- There is a line to show for every error, whatever its span. -/
  shown : ∀ error, ∃ line,
    (lines source)[(locate source (markedSpan source error).lo).line - 1]? = some line

/-- **The location of an offset counts newlines and characters.** So it moves on with the offset,
    from each character to the next, and is always on a line of the source. -/
theorem located_by_counting (source : Text) : LocatedByCounting source where
  clamped offset := by
    unfold bytesBefore Position.clamp
    split <;> omega
  counted offset := by
    rw [locate_eq_behind, newlinesWithin_eq, begunOnLine_eq, card_newlines, card_behindNewlines,
      Nat.add_comm 1, Nat.add_comm 1]
    rfl
  inside before c after offset := locate_inside
  monotone offset later := locate_mono
  strict before rest offset later := locate_lt
  line_le offset := by
    obtain ⟨line, hline, -⟩ := exists_line source offset
    have hlt := (List.getElem?_eq_some_iff.1 hline).1
    omega
  onLine := exists_line source
  shown error := by
    obtain ⟨line, hline, -⟩ := exists_line source (markedSpan source error).lo
    exact ⟨line, hline⟩

/-- An offset inside a character of three bytes, and one that counts from the end. -/
example : locate "a\n€b".toList 3 = ⟨2, 2⟩ ∧ locate "a\n€b".toList (-2) = ⟨2, 2⟩ := by
  decide +kernel

end ScriptFront
