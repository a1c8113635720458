import TreeLint.Text.Blank

/-!
# Logging

Logging is off unless one of two environment variables carries directives: the program's own, or
else the common one. Blank values do not count. A third variable picks the layout.
-/

namespace TreeLint.Command

inductive LogFormat where
  | text
  | tree
  | json
  deriving DecidableEq, Repr

namespace LogFormat

/-- An ASCII capital in lower case; any other character as it is. -/
def lower (c : Char) : Char := if 'A' ≤ c ∧ c ≤ 'Z' then Char.ofNat (c.toNat + 32) else c

/-- The layout that a value names; anything unknown is plain text. -/
def ofText (value : String) : LogFormat :=
  let word := String.ofList ((Text.trim value.toList).map lower)
  if word = "tree" then .tree else if word = "json" then .json else .text

end LogFormat

/-- The directives to log by: the first that are not blank. -/
def logDirectives (own common : Option String) : Option String :=
  [own, common].findSome? fun value =>
    value.filter fun directives => !(Text.trim directives.toList).isEmpty

end TreeLint.Command
