import TreeLint.Diagnostic
import TreeLint.Json.Value
import TreeLint.Text.LineMap
import TreeLint.Text.Split

/-!
# Reports

A report shows each diagnostic with its place and, below that, the line of source it starts on with
the span underlined. Places count lines and columns from one.

A line of source is shown as it stands between line feeds, without the carriage return that may
stand in front of a line feed; a text that ends with a line feed has no line behind that.

The length of the underline is a difference of offsets. A span may start behind the line that is
shown, and what the difference is then depends on how the program was built.
-/

namespace TreeLint

/-- The escape sequences that colour a piece of output. -/
inductive Colour where
  | boldRed
  | boldYellow
  | boldCyan
  | brightBlue
  | red
  deriving DecidableEq, Repr

def Colour.code : Colour → String
  | .boldRed => "1;31"
  | .boldYellow => "1;33"
  | .boldCyan => "1;36"
  | .brightBlue => "94"
  | .red => "31"

def Severity.colour : Severity → Colour
  | .error => .boldRed
  | .warning => .boldYellow
  | .info => .boldCyan

/-- What becomes of a difference of two offsets that is below zero. -/
inductive Arithmetic where
  /-- The program stops. -/
  | checked
  /-- The difference is taken modulo the number of offsets. -/
  | wrapping
  deriving DecidableEq, Repr

/-- The difference of two offsets, or nothing if the program stops. -/
def Arithmetic.minus? (a : Arithmetic) (m n : Nat) : Option Nat :=
  if n ≤ m then some (m - n)
  else
    match a with
    | .checked => none
    | .wrapping => some (m + (maxOffset + 1) - n)

/-- The source texts that diagnostics refer to, and whether to colour. -/
structure Reporter where
  colours : Bool
  /-- The lines of each text by name, the latest text of a name first. -/
  sources : List (String × LineMap) := []
  arithmetic : Arithmetic := .checked

/-- The row that a snippet shows: where the span starts, the offset at which that line starts, and
the text shown for it. -/
structure Excerpt where
  place : Position
  lineStart : Nat
  row : List Char

/-- The offset at which the row ends. -/
def Excerpt.stop (e : Excerpt) : Nat := e.lineStart + Text.byteLength e.row

namespace Reporter

def addSource (r : Reporter) (name text : String) : Reporter :=
  { r with sources := (name, LineMap.ofText text) :: r.sources }

def source? (r : Reporter) (name : String) : Option LineMap :=
  (r.sources.find? fun entry => entry.1 == name).map (·.2)

def paint (r : Reporter) (colour : Colour) (text : String) : String :=
  if r.colours then "\x1b[" ++ colour.code ++ "m" ++ text ++ "\x1b[0m" else text

/-- A line without a carriage return at its end. -/
def dropReturn (line : List Char) : List Char :=
  if line.getLast? = some '\r' then line.dropLast else line

/-- The lines of a text as they are shown. A carriage return goes only with the line feed behind
it, so one at the very end of the text stays. -/
def shownLines (text : List Char) : List (List Char) :=
  let parts := Text.splitAt '\n' text
  parts.dropLast.map dropReturn ++ parts.getLast?.toList.filter fun last => !last.isEmpty

/-- A number in at least three columns. -/
def padNumber (n : Nat) : String :=
  let digits := toString n
  String.ofList (List.replicate (3 - digits.length) ' ') ++ digits

/-- The row that is shown for a diagnostic, if any. -/
def excerpt? (r : Reporter) (d : Diagnostic) : Option Excerpt := do
  if d.location.span.isEmpty then none
  let map ← r.source? d.location.file
  let place := map.positionOf d.location.span.start
  let row ← (shownLines map.text)[place.line]?
  let lineStart ← map.lineStart? place.line
  pure ⟨place, lineStart, row⟩

/-- How much of a span is underlined: as far as it goes on the row, but at least one character. -/
def underlined? (r : Reporter) (s : Span) (e : Excerpt) : Option Nat :=
  (r.arithmetic.minus? (min s.stop e.stop) s.start).map fun length => max length 1

/-- What stands under a row: blanks up to the span, with the tabs of the row kept, and the
underline. -/
def mark (r : Reporter) (e : Excerpt) (count : Nat) : String :=
  let indent := (e.row.take e.place.character).map fun c => if c = '\t' then '\t' else ' '
  String.ofList indent ++ r.paint .red (String.ofList (List.replicate count '~'))

/-- The line a span starts on with the span underlined, as far as it goes on that line. -/
def snippet? (r : Reporter) (d : Diagnostic) : Option String := do
  let e ← r.excerpt? d
  let count ← r.underlined? d.location.span e
  pure ("\n  " ++ padNumber (e.place.line + 1) ++ "   " ++ String.ofList e.row ++ "\n        " ++
    r.mark e count)

/-- Whether the program stops at a diagnostic: there is a row, but no length to underline. -/
def stopsAt (r : Reporter) (d : Diagnostic) : Bool :=
  match r.excerpt? d with
  | some e => (r.underlined? d.location.span e).isNone
  | none => false

/-- Where a diagnostic is: file, line and column, or as much of that as is known. -/
def placeOf (r : Reporter) (location : Location) : String :=
  match r.source? location.file with
  | some map =>
    let place := map.positionOf location.span.start
    location.file ++ ":" ++ toString (place.line + 1) ++ ":" ++ toString (place.character + 1)
  | none => if location.file.isEmpty then "<unknown>" else location.file

/-- A diagnostic with its snippet, if it has one. Nothing if the program stops at it. -/
def renderOne? (r : Reporter) (d : Diagnostic) : Option String :=
  if r.stopsAt d then none
  else some (r.placeOf d.location ++ " - " ++ r.paint d.severity.colour d.severity.name ++ " " ++
    r.paint .brightBlue d.id ++ ": " ++ d.message ++ (r.snippet? d).getD "")

/-- The report on some diagnostics. Nothing if the program stops at one of them. -/
def render (r : Reporter) (diagnostics : List Diagnostic) : Option String :=
  (diagnostics.mapM r.renderOne?).map (String.intercalate "\n")

/-- How many diagnostics there are of each severity, in one line. -/
def summary (r : Reporter) (diagnostics : List Diagnostic) : String :=
  let count : Severity → Nat := fun s => diagnostics.countP fun d => d.severity == s
  let text := toString (count .error) ++ " error(s), " ++ toString (count .warning) ++
    " warning(s), " ++ toString (count .info) ++ " info"
  if 0 < count .error then r.paint .boldRed text else text

end Reporter

namespace Diagnostic

open Json (Value)

def toJson (d : Diagnostic) : Value :=
  .object [("id", .string d.id), ("title", .string d.title), ("message", .string d.message),
    ("severity", .string d.severity.name),
    ("location", .object [("file", .string d.location.file),
      ("span", .object [("start", .ofNat d.location.span.start),
        ("length", .ofNat d.location.span.length)])])]

/-- Reads a record all of whose fields must be there. -/
def wholeRecord? (keys : List String) (v : Value) : Option (List Value) :=
  (v.record? keys).bind fun fields => fields.mapM fun field => field

def spanOfJson? (v : Value) : Option Span := do
  match ← wholeRecord? ["start", "length"] v with
  | [start, length] => pure ⟨← start.natBelow32?, ← length.natBelow32?⟩
  | _ => none

def locationOfJson? (v : Value) : Option Location := do
  match ← wholeRecord? ["file", "span"] v with
  | [file, span] => pure ⟨← file.string?, ← spanOfJson? span⟩
  | _ => none

def ofJson? (v : Value) : Option Diagnostic := do
  match ← wholeRecord? ["id", "title", "message", "severity", "location"] v with
  | [id, title, message, severity, location] =>
    pure ⟨← id.string?, ← title.string?, ← message.string?,
      ← severity.word? >>= Severity.ofName?, ← locationOfJson? location⟩
  | _ => none

end Diagnostic

end TreeLint
