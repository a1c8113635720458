/-!
# Counting a text in bytes and in 16-bit units

Spans count bytes of UTF-8 and editors count 16-bit units. Both measures are sums over the
characters of a text, and a text can only be cut between characters: a cut at a byte offset inside
a character does not exist.
-/

namespace TreeLint.Text

/-- How many bytes the characters take in UTF-8. -/
def byteLength (text : List Char) : Nat := text.foldr (fun c length => c.utf8Size + length) 0

/-- How many 16-bit units one character takes: two outside the basic plane. -/
def unitWidth (c : Char) : Nat := if c.toNat ≤ 0xFFFF then 1 else 2

/-- How many 16-bit units the characters take. -/
def unitLength (text : List Char) : Nat := text.foldr (fun c length => unitWidth c + length) 0

/-- What is left behind the first `n` bytes, if a character starts there or the text ends there. -/
def dropBytes? : List Char → Nat → Option (List Char)
  | text, 0 => some text
  | [], _ + 1 => none
  | c :: rest, n + 1 => if c.utf8Size ≤ n + 1 then dropBytes? rest (n + 1 - c.utf8Size) else none

/-- The first `n` bytes, if a character starts behind them or the text ends there. -/
def takeBytes? : List Char → Nat → Option (List Char)
  | _, 0 => some []
  | [], _ + 1 => none
  | c :: rest, n + 1 =>
    if c.utf8Size ≤ n + 1 then
      match takeBytes? rest (n + 1 - c.utf8Size) with
      | some taken => some (c :: taken)
      | none => none
    else none

/-- The characters between two byte offsets, if both lie between characters. -/
def slice? (text : List Char) (start stop : Nat) : Option (List Char) :=
  if start ≤ stop then
    match dropBytes? text start with
    | some rest => takeBytes? rest (stop - start)
    | none => none
  else none

end TreeLint.Text
