set_option autoImplicit false

/-! # UTF-8: the bytes of a text, and the text of bytes

A text is the list of its characters; `encode` gives its UTF-8 bytes. Decoding has to cope with
bytes that were cut in the middle of a character, so it is an automaton: it keeps the character
that is under construction and, for every byte, says what was completed. Each part of the input
that is no character comes out as one `none`. A part is as long as possible: a byte that cannot
continue the character under construction ends the part and is looked at again on its own. From
that one list both readings follow: the strict one refuses any `none`, the lenient one shows the
replacement character for it. -/

namespace ScriptFront

/-- A text, as the list of its characters. -/
abbrev Text := List Char

namespace Utf8

/-! ## Encoding -/

/-- The UTF-8 bytes of a text. -/
def encode (text : Text) : List UInt8 := text.flatMap String.utf8EncodeChar

/-- How many bytes a text takes in UTF-8. -/
def size : Text → Nat
  | [] => 0
  | c :: text => c.utf8Size + size text

@[simp] theorem size_nil : size [] = 0 := rfl

@[simp] theorem size_cons (c : Char) (text : Text) :
    size (c :: text) = c.utf8Size + size text := rfl

@[simp] theorem size_append (a b : Text) : size (a ++ b) = size a + size b := by
  induction a with
  | nil => simp
  | cons c a ih => simp [ih, Nat.add_assoc]

@[simp] theorem encode_nil : encode [] = [] := rfl

@[simp] theorem encode_append (a b : Text) : encode (a ++ b) = encode a ++ encode b := by
  simp [encode]

theorem length_encode (text : Text) : (encode text).length = size text := by
  induction text with
  | nil => rfl
  | cons c text ih => simp_all [encode, size]

/-! ## Decoding -/

/-- A character under construction: how many continuation bytes are still missing, the bits
    gathered so far, and the range that the next byte has to lie in. The range is narrower than
    `80..BF` after the lead bytes that would otherwise allow an overlong form, a surrogate or a
    code point beyond the last one. -/
structure Pending where
  missing : Nat
  bits : Nat
  low : Nat
  high : Nat
  deriving DecidableEq, Repr

/-- What the decoder has built so far: nothing, or the first bytes of a character. -/
abbrev State := Option Pending

/-- Read a byte with nothing under construction: a character of one byte, the start of a longer
    one, or a byte that starts no character. -/
def start (b : Nat) : State × List (Option Char) :=
  if b < 0x80 then (none, [some (Char.ofNat b)])
  else if b < 0xC2 then (none, [none])
  else if b < 0xE0 then (some ⟨1, b - 0xC0, 0x80, 0xBF⟩, [])
  else if b = 0xE0 then (some ⟨2, 0, 0xA0, 0xBF⟩, [])
  else if b = 0xED then (some ⟨2, 0xD, 0x80, 0x9F⟩, [])
  else if b < 0xF0 then (some ⟨2, b - 0xE0, 0x80, 0xBF⟩, [])
  else if b = 0xF0 then (some ⟨3, 0, 0x90, 0xBF⟩, [])
  else if b < 0xF4 then (some ⟨3, b - 0xF0, 0x80, 0xBF⟩, [])
  else if b = 0xF4 then (some ⟨3, 4, 0x80, 0x8F⟩, [])
  else (none, [none])

/-- Read a byte in any state. A byte out of range ends the part under construction and starts
    anew. -/
def step (state : State) (b : Nat) : State × List (Option Char) :=
  match state with
  | none => start b
  | some p =>
    if p.low ≤ b ∧ b ≤ p.high then
      let bits := p.bits * 0x40 + (b - 0x80)
      if p.missing ≤ 1 then (none, [some (Char.ofNat bits)])
      else (some ⟨p.missing - 1, bits, 0x80, 0xBF⟩, [])
    else
      let (state, out) := start b
      (state, none :: out)

/-- What is left when the bytes end: a character under construction was cut short. -/
def finish : State → List (Option Char)
  | none => []
  | some _ => [none]

/-- Decode from a state on. -/
def run : State → List UInt8 → List (Option Char)
  | state, [] => finish state
  | state, b :: bytes =>
    let (next, out) := step state b.toNat
    out ++ run next bytes

/-- The characters of a byte sequence in order, with `none` for each part that is no character. -/
def decode (bytes : List UInt8) : List (Option Char) := run none bytes

/-- The text that the bytes encode, if they encode one. -/
def decode? (bytes : List UInt8) : Option Text := (decode bytes).mapM id

/-- The character shown for a part of the input that is no character. -/
def replacement : Char := '\uFFFD'

/-- The text of the bytes, with the replacement character for each part that is no character. -/
def decodeLossy (bytes : List UInt8) : Text := (decode bytes).map (·.getD replacement)

end Utf8

end ScriptFront
