import TreeLint.Text.Span
import TreeLint.Text.Units

/-!
# Lines and columns

Trees address text by byte offset; hosts and reports speak of lines and columns. A line map keeps
a text with the offset at which each of its lines starts and answers in both directions.

A line ends with a line feed, a carriage return and a line feed, or a lone carriage return. Columns
count 16-bit units from the start of the line, and a column never points past the content of its
line: the terminator is not part of it.
-/

namespace TreeLint

/-- A place in a text: line and column, both counted from zero, the column in 16-bit units. -/
structure Position where
  line : Nat
  character : Nat
  deriving DecidableEq, Repr

/-- A text and the offsets at which its lines start. -/
structure LineMap where
  text : List Char
  starts : List Nat
  deriving DecidableEq, Repr

namespace LineMap

/-- The starts of the lines behind each terminator of a text that begins at `offset`. -/
def startsAfter (offset : Nat) : List Char → List Nat
  | [] => []
  | '\n' :: rest => (offset + 1) :: startsAfter (offset + 1) rest
  | '\r' :: rest =>
    if rest.head? = some '\n' then startsAfter (offset + 1) rest
    else (offset + 1) :: startsAfter (offset + 1) rest
  | c :: rest => startsAfter (offset + c.utf8Size) rest

/-- The line map of a text. There is always a first line, at offset zero. -/
def ofText (text : String) : LineMap := ⟨text.toList, 0 :: startsAfter 0 text.toList⟩

def lineCount (m : LineMap) : Nat := m.starts.length

def lineStart? (m : LineMap) (line : Nat) : Option Nat := m.starts[line]?

/-- The line that an offset lies on: the last one that starts at or before it. -/
def lineOf (m : LineMap) (offset : Nat) : Nat := (m.starts.takeWhile (· ≤ offset)).length - 1

/-- The place of an offset. An offset past the end of the text counts as the end, and an offset
inside a character has column zero. -/
def positionOf (m : LineMap) (offset : Nat) : Position :=
  let line := m.lineOf offset
  let stop := min offset (Text.byteLength m.text)
  let start := min (m.starts.getD line 0) stop
  ⟨line, Text.unitLength ((Text.slice? m.text start stop).getD [])⟩

/-- How many bytes to go into a line to reach a column: whole characters only, and never into the
line's terminator. -/
def bytesTo (column : Nat) : List Char → Nat
  | [] => 0
  | c :: rest =>
    if c = '\n' ∨ c = '\r' ∨ column < Text.unitWidth c then 0
    else c.utf8Size + bytesTo (column - Text.unitWidth c) rest

/-- The text of a line with its terminator. -/
def line? (m : LineMap) (line : Nat) : Option (List Char) :=
  match m.starts[line]? with
  | none => none
  | some start =>
    some ((Text.slice? m.text start (m.starts.getD (line + 1) (Text.byteLength m.text))).getD [])

/-- The offset of a place, unless the line does not exist. A column past the end of the line, or
inside a character, counts as the nearest place in front of it. -/
def offsetOf? (m : LineMap) (place : Position) : Option Nat :=
  match m.starts[place.line]?, m.line? place.line with
  | some start, some content => some (start + bytesTo place.character content)
  | _, _ => none

def rangeOf (m : LineMap) (s : Span) : Position × Position :=
  (m.positionOf s.start, m.positionOf s.stop)

end LineMap

end TreeLint
