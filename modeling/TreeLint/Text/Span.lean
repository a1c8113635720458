/-!
# Spans of source text

Every offset in this library is a count of bytes in the UTF-8 form of a text, and a span is where
it starts and how many bytes it takes. Offsets are read from 32-bit fields, so the end of a span
whose start and length are both large is cut off at the largest offset there is: two ends are then
compared without ever wrapping round.
-/

namespace TreeLint

/-- The largest offset a span can name. -/
def maxOffset : Nat := 4294967295

/-- A contiguous piece of source text. -/
structure Span where
  start : Nat
  length : Nat
  deriving DecidableEq, Repr

namespace Span

/-- The text between two offsets, and the empty span at `start` when `stop` lies before it. -/
def ofBounds (start stop : Nat) : Span := ⟨start, stop - start⟩

def caret (offset : Nat) : Span := ⟨offset, 0⟩

/-- The exclusive end, cut off at the largest offset. -/
def stop (s : Span) : Nat := min (s.start + s.length) maxOffset

/-- The exclusive end, unless it lies past the largest offset. -/
def stop? (s : Span) : Option Nat :=
  if s.start + s.length ≤ maxOffset then some (s.start + s.length) else none

def isEmpty (s : Span) : Bool := s.length == 0

def contains (s : Span) (offset : Nat) : Bool := s.start ≤ offset && offset < s.stop

/-- Whether another span lies in this one. An empty span at the end counts as inside, so a caret
behind a word still touches it. -/
def containsSpan (s other : Span) : Bool := s.start ≤ other.start && other.stop ≤ s.stop

/-- The half-open interval, as it is written in messages. -/
def display (s : Span) : String :=
  "[" ++ toString s.start ++ ".." ++ toString s.stop ++ ")"

end Span

end TreeLint
