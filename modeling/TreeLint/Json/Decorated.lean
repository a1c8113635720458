import TreeLint.Text.Blank

/-!
# JSON with comments

Configuration is written as JSON with two liberties: comments of both forms may stand between
tokens, and a comma may stand behind the last item of a list or object. Stripping turns such a text
into plain JSON and leaves every string as it is. The line break behind a line comment stays, so
that lines keep their numbers.
-/

namespace TreeLint.Json

/-- Where stripping stands in a text. -/
inductive StripState where
  | code
  | string
  | escaped
  | lineComment
  /-- In front of the star that opens a block comment. -/
  | blockOpening
  /-- Inside a block comment, perhaps behind a star that might close it. -/
  | blockComment (star : Bool)
  deriving DecidableEq, Repr

/-- What has been written, last character first, without a comma at its end and the blanks behind
that. Where there is no such comma, nothing is dropped. -/
def dropComma (written : List Char) : List Char :=
  match written.dropWhile Text.isBlank with
  | ',' :: rest => rest
  | _ => written

/-- Strips the rest of a text; `written` holds what has been kept so far, last character first. -/
def stripFrom : StripState → (written : List Char) → List Char → List Char
  | _, written, [] => written.reverse
  | .code, written, c :: rest =>
    if c = '/' ∧ rest.head? = some '/' then stripFrom .lineComment written rest
    else if c = '/' ∧ rest.head? = some '*' then stripFrom .blockOpening written rest
    else if c = '}' ∨ c = ']' then stripFrom .code (c :: dropComma written) rest
    else if c = '"' then stripFrom .string (c :: written) rest
    else stripFrom .code (c :: written) rest
  | .string, written, c :: rest =>
    if c = '\\' then stripFrom .escaped (c :: written) rest
    else if c = '"' then stripFrom .code (c :: written) rest
    else stripFrom .string (c :: written) rest
  | .escaped, written, c :: rest => stripFrom .string (c :: written) rest
  | .lineComment, written, c :: rest =>
    if c = '\n' then stripFrom .code (c :: written) rest else stripFrom .lineComment written rest
  | .blockOpening, written, _ :: rest => stripFrom (.blockComment false) written rest
  | .blockComment star, written, c :: rest =>
    if star = true ∧ c = '/' then stripFrom .code written rest
    else stripFrom (.blockComment (c == '*')) written rest

/-- A text with comments and trailing commas dropped. -/
def strip (text : List Char) : List Char := stripFrom .code [] text

end TreeLint.Json
