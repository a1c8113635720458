import TreeLint.Json.Value

/-!
# Merging values

One value over another: where both are objects their keys are merged one by one, and anywhere else
the value on top wins.
-/

namespace TreeLint.Json

namespace Value

mutual

/-- `top` over `base`. -/
def merge (base : Value) : (top : Value) → Value
  | .object entries =>
    match base with
    | .object baseEntries => .object (mergeEntries baseEntries entries)
    | _ => .object entries
  | .null => .null
  | .bool b => .bool b
  | .number n => .number n
  | .string s => .string s
  | .array items => .array items

/-- The entries of an object over those of another. -/
def mergeEntries (base : List (String × Value)) :
    (top : List (String × Value)) → List (String × Value)
  | [] => base
  | (key, value) :: rest =>
    let merged :=
      match lastValue? key base with
      | some below => merge below value
      | none => value
    mergeEntries (putEntry key merged base) rest

end

end Value

end TreeLint.Json
