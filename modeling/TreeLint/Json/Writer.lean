import TreeLint.Json.Value

/-!
# Writing JSON text

A value is written in two layouts. The compact one has no blanks at all. The indented one puts
every item and entry on a line of its own, two spaces further in than its list or object; an empty
list or object stays closed. In strings only the quote, the backslash and the control characters
are escaped.
-/

namespace TreeLint.Json

def hexDigit (n : Nat) : Char := if n < 10 then Char.ofNat (48 + n) else Char.ofNat (87 + n)

/-- How a character is written inside a string. -/
def writeChar (c : Char) : List Char :=
  if c = '"' then ['\\', '"']
  else if c = '\\' then ['\\', '\\']
  else if c = '\x08' then ['\\', 'b']
  else if c = '\x0c' then ['\\', 'f']
  else if c = '\n' then ['\\', 'n']
  else if c = '\r' then ['\\', 'r']
  else if c = '\t' then ['\\', 't']
  else if c.toNat < 0x20 then
    ['\\', 'u', '0', '0', hexDigit (c.toNat / 16), hexDigit (c.toNat % 16)]
  else [c]

def writeString (s : String) : List Char := '"' :: (s.toList.flatMap writeChar ++ ['"'])

/-- A number. A decimal is its digits with an exponent. -/
def writeNumber : Number → List Char
  | .integer value => (toString value).toList
  | .decimal negative digits exponent =>
    (if negative then ['-'] else []) ++ (toString digits).toList ++
      'e' :: (toString exponent).toList

namespace Value

mutual

def writeCompact : Value → List Char
  | .null => ['n', 'u', 'l', 'l']
  | .bool true => ['t', 'r', 'u', 'e']
  | .bool false => ['f', 'a', 'l', 's', 'e']
  | .number n => writeNumber n
  | .string s => writeString s
  | .array items => '[' :: (writeItems items ++ [']'])
  | .object entries => '{' :: (writeEntries entries ++ ['}'])

def writeItems : List Value → List Char
  | [] => []
  | [item] => item.writeCompact
  | item :: rest => item.writeCompact ++ ',' :: writeItems rest

def writeEntries : List (String × Value) → List Char
  | [] => []
  | [(key, value)] => writeString key ++ ':' :: value.writeCompact
  | (key, value) :: rest => writeString key ++ ':' :: value.writeCompact ++ ',' :: writeEntries rest

end

/-- A line break and the blanks that a line at some depth starts with. -/
def lineBreak (depth : Nat) : List Char := '\n' :: List.replicate (2 * depth) ' '

mutual

/-- The value on indented lines; `depth` is that of the line it starts on. -/
def writeIndented (depth : Nat) : Value → List Char
  | .array [] => ['[', ']']
  | .array items =>
    '[' :: (lineBreak (depth + 1) ++ writeItemLines (depth + 1) items ++ lineBreak depth ++ [']'])
  | .object [] => ['{', '}']
  | .object entries =>
    '{' ::
      (lineBreak (depth + 1) ++ writeEntryLines (depth + 1) entries ++ lineBreak depth ++ ['}'])
  | .null => ['n', 'u', 'l', 'l']
  | .bool true => ['t', 'r', 'u', 'e']
  | .bool false => ['f', 'a', 'l', 's', 'e']
  | .number n => writeNumber n
  | .string s => writeString s

def writeItemLines (depth : Nat) : List Value → List Char
  | [] => []
  | [item] => item.writeIndented depth
  | item :: rest => item.writeIndented depth ++ ',' :: lineBreak depth ++ writeItemLines depth rest

def writeEntryLines (depth : Nat) : List (String × Value) → List Char
  | [] => []
  | [(key, value)] => writeString key ++ ':' :: ' ' :: value.writeIndented depth
  | (key, value) :: rest =>
    writeString key ++ ':' :: ' ' :: value.writeIndented depth ++ ',' :: lineBreak depth ++
      writeEntryLines depth rest

end

def compact (v : Value) : String := String.ofList v.writeCompact

def indented (v : Value) : String := String.ofList (v.writeIndented 0)

end Value

end TreeLint.Json
