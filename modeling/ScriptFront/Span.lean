import ScriptFront.Text.Numeral

set_option autoImplicit false

/-! # Slices and spans

A slice `[low, high)` of a list takes positions that may be any integers. A negative one counts
from the end, and what then still lies outside the list is moved to its nearest end, so every pair
of positions names a slice; it is empty when they do not increase.

A span is a half-open interval `[lo, hi)` of byte offsets into the UTF-8 form of a source. Its ends
are plain integers: a span records where something was found and is not checked against any source
until it is used to cut one. -/

namespace ScriptFront

/-! ## Slices by signed positions -/

/-- The place in a list of `length` items that a signed position names. -/
def Position.clamp (length : Nat) (position : Int) : Nat :=
  if position < 0 then (length + position).toNat else min position.toNat length

theorem Position.clamp_le (length : Nat) (position : Int) :
    Position.clamp length position ≤ length := by
  unfold Position.clamp
  split <;> omega

@[simp] theorem Position.clamp_natCast (length n : Nat) :
    Position.clamp length (n : Int) = min n length := by
  unfold Position.clamp
  split <;> omega

namespace Slice

variable {α : Type}

/-- The items of a list before a signed position. -/
def upTo (items : List α) (high : Int) : List α := items.take (Position.clamp items.length high)

/-- The items of a list from one signed position up to another. -/
def between (items : List α) (low high : Int) : List α :=
  (upTo items high).drop (Position.clamp items.length low)

/-- The item at a signed position, if there is one: negative positions count from the end. -/
def item? (items : List α) (position : Int) : Option α :=
  if 0 ≤ position then items[position.toNat]?
  else if 0 ≤ items.length + position then items[(items.length + position).toNat]?
  else none

end Slice

/-! ## Spans -/

/-- A half-open interval of byte offsets. -/
structure Span where
  lo : Int
  hi : Int
  deriving DecidableEq, Repr

namespace Span

/-- From the start of one span to the end of another. -/
def combine (first last : Span) : Span := ⟨first.lo, last.hi⟩

@[simp] theorem combine_lo (a b : Span) : (a.combine b).lo = a.lo := rfl

@[simp] theorem combine_hi (a b : Span) : (a.combine b).hi = b.hi := rfl

/-- A span that is as good as none. -/
def nowhere : Span := ⟨0, 0⟩

/-- The bytes of a source that a span covers. -/
def bytes (span : Span) (source : Text) : List UInt8 :=
  Slice.between (Utf8.encode source) span.lo span.hi

/-- The text that a span covers, unless an end of it lies inside a character. -/
def slice? (span : Span) (source : Text) : Option Text := Utf8.decode? (span.bytes source)

/-- A span as diagnostics show it. -/
def display (span : Span) : Text :=
  "Span(lo=".toList ++ Numeral.ofInt span.lo ++ ", hi=".toList ++ Numeral.ofInt span.hi ++ [')']

/-- A span that may be unknown, as diagnostics show it. -/
def displayOptional : Option Span → Text
  | some span => span.display
  | none => "None".toList

end Span

end ScriptFront
