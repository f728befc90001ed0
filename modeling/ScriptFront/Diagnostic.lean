import ScriptFront.Failure

set_option autoImplicit false

/-! # Diagnostics

Where in a source an error is, for a reader: the line and column of a byte offset, and a rendering
of an error in three lines, with the line of the source that it is on and carets below the text that
is blamed. Offsets may be any integers and may lie inside a character. -/

namespace ScriptFront

/-- A place in a source as an editor shows it; both numbers start at one. -/
structure Location where
  line : Nat
  column : Nat
  deriving DecidableEq, Repr

/-- The byte of the line feed. -/
def lineFeed : UInt8 := 10

/-- The bytes after the last line feed. -/
def afterLastLine : List UInt8 → List UInt8
  | [] => []
  | b :: bytes =>
    if lineFeed ∈ bytes then afterLastLine bytes
    else if b = lineFeed then bytes
    else b :: bytes

/-- The location of a byte offset. The line counts the line feeds before it, the column the
    characters between the last of them and the offset; a character that the offset cuts counts. -/
def locate (source : Text) (offset : Int) : Location :=
  let before := Slice.upTo (Utf8.encode source) offset
  { line := before.count lineFeed + 1
    column := (Utf8.decodeLossy (afterLastLine before)).length + 1 }

/-- The lines of a text: the parts between its line feeds, one more than there are of those. -/
def lines : Text → List Text
  | [] => [[]]
  | c :: rest =>
    if c = '\n' then [] :: lines rest
    else
      match lines rest with
      | [] => [[c]]
      | first :: others => (c :: first) :: others

/-- The first line of a text. -/
def firstLine (text : Text) : Text := text.takeWhile (· ≠ '\n')

/-- The span to mark for an error in a source: its own, or the end of the source. -/
def markedSpan (source : Text) (error : SourceError) : Span :=
  error.span?.getD ⟨Utf8.size source, Utf8.size source⟩

/-- An error in a source in three lines: location, class and message; the line of the source; and
    carets below the first line of the text it is about, at least one. -/
def render (source : Text) (error : SourceError) : Text :=
  let span := markedSpan source error
  let place := locate source span.lo
  let header := Numeral.ofNat place.line ++ [':'] ++ Numeral.ofNat place.column ++
    ": ".toList ++ error.label ++ ": ".toList ++ error.message
  let line := ((lines source)[place.line - 1]?).getD []
  let marked := firstLine (Utf8.decodeLossy (span.bytes source))
  header ++ ['\n'] ++ line ++ ['\n'] ++ List.replicate (place.column - 1) ' ' ++
    List.replicate (max 1 marked.length) '^'

end ScriptFront
