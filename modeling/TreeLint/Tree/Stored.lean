import TreeLint.Json.Reader
import TreeLint.Json.Writer
import TreeLint.Tree.Basic

/-!
# Stored trees

A tree is stored as JSON: a token is an object with its kind and text, a node an object with its
kind and the list of its children.

Reading goes in two steps. The first looks at the form alone: an object with one kind and one text
that is a string is a token, whatever else it holds; any other object with one kind and one list of
children is a node; unknown keys are passed over. The second looks at the kinds, in document order
and each node before its children: a token needs the kind of a token, a node that of a node. The
root has to be a node.
-/

namespace TreeLint

/-- What is wrong with a stored tree whose form is right. -/
inductive TreeFault where
  | notTokenKind (k : Kind)
  | notNodeKind (k : Kind)
  | tokenRoot (k : Kind)
  deriving DecidableEq, Repr

def TreeFault.message : TreeFault → String
  | .notTokenKind k => k.name ++ " is not a token kind"
  | .notNodeKind k => k.name ++ " is not a node kind"
  | .tokenRoot k => "expected a syntax node, found token " ++ k.name

namespace Tree

/-! ## Writing -/

mutual

def toJson : Tree → Json.Value
  | .token t => .object [("kind", .string t.kind.name), ("text", .string t.text)]
  | .node k children =>
    .object [("kind", .string k.name), ("children", .array (toJsonAll children))]

def toJsonAll : List Tree → List Json.Value
  | [] => []
  | t :: rest => t.toJson :: toJsonAll rest

end

/-! ## Reading the form -/

/-- The entries of an object that matter to a tree, each as what it was read as. -/
structure StoredParts where
  kinds : List (Option Kind) := []
  texts : List (Option String) := []
  children : List (Option (List Tree)) := []

/-- The tree that an object with these parts stands for. -/
def StoredParts.tree? (parts : StoredParts) : Option Tree :=
  match parts.kinds, parts.texts, parts.children with
  | [some k], [some text], _ => some (.token ⟨k, text⟩)
  | [some k], _, [some children] => some (.node k children)
  | _, _, _ => none

def storedKind? (v : Json.Value) : Option Kind :=
  match v.word? with
  | some word => Kind.ofName? word
  | none => none

mutual

/-- The tree of a stored value by form alone. -/
def ofJson? : Json.Value → Option Tree
  | .object entries => (partsOf entries).tree?
  | _ => none

def partsOf : List (String × Json.Value) → StoredParts
  | [] => ⟨[], [], []⟩
  | (key, value) :: rest =>
    let parts := partsOf rest
    if key = "kind" then { parts with kinds := storedKind? value :: parts.kinds }
    else if key = "text" then { parts with texts := value.string? :: parts.texts }
    else if key = "children" then
      { parts with children := childrenOf? value :: parts.children }
    else parts

def childrenOf? : Json.Value → Option (List Tree)
  | .array items => ofJsonAll? items
  | _ => none

def ofJsonAll? : List Json.Value → Option (List Tree)
  | [] => some []
  | item :: rest =>
    match ofJson? item, ofJsonAll? rest with
    | some t, some others => some (t :: others)
    | _, _ => none

end

/-! ## Checking the kinds -/

mutual

/-- The first element in document order whose kind does not fit its form. -/
def fault? : Tree → Option TreeFault
  | .token t => if t.kind.isToken then none else some (.notTokenKind t.kind)
  | .node k children => if k.isNode then faultAll? children else some (.notNodeKind k)

def faultAll? : List Tree → Option TreeFault
  | [] => none
  | t :: rest =>
    match t.fault? with
    | some fault => some fault
    | none => faultAll? rest

end

end Tree

namespace Node

def toJson (n : Node) : Json.Value := n.toTree.toJson

/-- The node that a tree of the right form is, or what is wrong with it. -/
def ofForm (t : Tree) : Except TreeFault Node :=
  match t.fault?, t with
  | some fault, _ => .error fault
  | none, .node k children => .ok ⟨k, children⟩
  | none, .token t => .error (.tokenRoot t.kind)

/-- The node that a stored value stands for. -/
def ofJson (v : Json.Value) : Except Json.Refusal Node :=
  match Tree.ofJson? v with
  | none => .error .malformed
  | some t =>
    match ofForm t with
    | .ok n => .ok n
    | .error fault => .error (.rejected fault.message)

/-- Reads a stored node off the front of a text. -/
def readStored (rounds depth : Nat) : Json.Reader Node := fun text =>
  match Json.readValue rounds depth text with
  | .error refusal => .error refusal
  | .ok (v, rest) =>
    match ofJson v with
    | .error refusal => .error refusal
    | .ok n => .ok (n, rest)

def parseStored (text : List Char) : Except Json.Refusal Node :=
  Json.readAll (readStored text.length Json.maxDepth) text

end Node

end TreeLint
