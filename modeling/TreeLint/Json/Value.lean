import TreeLint.Json.Number

/-!
# JSON values

An object keeps its entries in the order of the text, repeated keys included: what a repeated key
means is for the reader of the value to say. `Value.get?` reads the last one; `Value.distinct`
drops the others for good.
-/

namespace TreeLint.Json

inductive Value where
  | null
  | bool (value : Bool)
  | number (value : Number)
  | string (value : String)
  | array (items : List Value)
  | object (entries : List (String × Value))

/-- Why a text was not read: it is no JSON, or no value of the wanted form, or the wanted form has
a word of its own to say about it. -/
inductive Refusal where
  | malformed
  | rejected (reason : String)
  deriving DecidableEq, Repr

def lastValue? (key : String) (entries : List (String × Value)) : Option Value :=
  (entries.reverse.find? fun entry => entry.1 == key).map (·.2)

/-- Puts a value under a key: over the old one if the key is there, else behind all others. -/
def putEntry (key : String) (value : Value) : List (String × Value) → List (String × Value)
  | [] => [(key, value)]
  | entry :: rest =>
    if entry.1 = key then (key, value) :: rest else entry :: putEntry key value rest

def dropEntry (key : String) (entries : List (String × Value)) : List (String × Value) :=
  entries.filter fun entry => entry.1 != key

namespace Value

def ofNat (n : Nat) : Value := .number (.integer n)

/-- The value under a key of an object, the last one if the key is repeated. -/
def get? (key : String) : Value → Option Value
  | .object entries => lastValue? key entries
  | _ => none

def string? : Value → Option String
  | .string s => some s
  | _ => none

def bool? : Value → Option Bool
  | .bool b => some b
  | _ => none

def items? : Value → Option (List Value)
  | .array items => some items
  | _ => none

/-- A whole number that was written as one, from zero to 32 bits. -/
def natBelow32? : Value → Option Nat
  | .number (.integer n) => if 0 ≤ n ∧ n.toNat < Nat.pow 2 32 then some n.toNat else none
  | _ => none

mutual

/-- The value with only the last of repeated keys left, in the place of the first. -/
def distinct : Value → Value
  | .array items => .array (distinctItems items)
  | .object entries => .object (distinctEntries [] entries)
  | value => value

def distinctItems : List Value → List Value
  | [] => []
  | item :: rest => item.distinct :: distinctItems rest

def distinctEntries (done : List (String × Value)) :
    List (String × Value) → List (String × Value)
  | [] => done
  | (key, value) :: rest => distinctEntries (putEntry key value.distinct done) rest

end

/-- The word of an enumeration: a string, or an object whose only entry is the word with nothing
under it. -/
def word? : Value → Option String
  | .string word => some word
  | .object [(word, .null)] => some word
  | _ => none

/-- The fields of a record in the order of their names: from an object by key, from an array by
position. An array may leave out fields at the end and holds nothing else; an object may hold
other keys. -/
def record? (names : List String) : Value → Option (List (Option Value))
  | .object entries => some (names.map fun name => lastValue? name entries)
  | .array items =>
    if items.length ≤ names.length then
      some (items.map some ++ List.replicate (names.length - items.length) none)
    else none
  | _ => none

end Value

end TreeLint.Json
