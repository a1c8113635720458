import TreeLint.Tree.Cursor

/-!
# Inspection texts

One-line texts of nodes and tokens for logs and failing checks: a node in its place by kind and
span, a bare node with everything under it. Texts of tokens stand in quotes with the escapes of a
string literal.
-/

namespace TreeLint

def hexText (n : Nat) : String := String.ofList (Nat.toDigits 16 n)

/-- How an inspection text writes a character inside quotes. Line breaks, tabs and zero have
escapes of their own; other control characters are written by number. -/
def inspectChar (c : Char) : String :=
  if c = '"' then "\\\""
  else if c = '\\' then "\\\\"
  else if c = '\n' then "\\n"
  else if c = '\r' then "\\r"
  else if c = '\t' then "\\t"
  else if c = '\x00' then "\\0"
  else if c.toNat < 0x20 ∨ c.toNat = 0x7F then "\\u\x7b" ++ hexText c.toNat ++ "\x7d"
  else String.singleton c

def inspectText (s : String) : String :=
  "\"" ++ String.join (s.toList.map inspectChar) ++ "\""

def Token.inspect (t : Token) : String := t.kind.name ++ " " ++ inspectText t.text

namespace Tree

mutual

/-- A tree with everything under it. -/
def inspect : Tree → String
  | .token t => t.inspect
  | .node k children =>
    "GreenNode \x7b kind: " ++ k.name ++ ", width: " ++ toString (widthAll children) ++
      ", children: [" ++ inspectAll children ++ "] \x7d"

def inspectAll : List Tree → String
  | [] => ""
  | [t] => t.inspect
  | t :: rest => t.inspect ++ ", " ++ inspectAll rest

end

end Tree

def Cursor.inspect (c : Cursor) : String := c.kind.name ++ "@" ++ c.fullSpan.display

end TreeLint
