import TreeLint.Text.Split
import TreeLint.Tree.Cursor

/-!
# Dotted names

A dotted name is a text of segments with dots between them. In a tree it is an identifier, or a
qualified name or member access over two dotted names; anything else has no dotted name.

Segments are what stands between dots; they may be empty, and joining them gives the text back.
-/

namespace TreeLint

namespace Dotted

def segments (name : String) : List String := (Text.splitAt '.' name.toList).map String.ofList

def join (segments : List String) : String :=
  String.ofList (Text.joinWith '.' (segments.map String.toList))

/-- The starts of a name that end in front of one of its dots, and the name itself, the longest
first. -/
def shortenings (name : String) : List String :=
  let parts := segments name
  (List.range parts.length).map fun dropped => join (parts.take (parts.length - dropped))

/-- The ends of a name that start behind one of its dots, the shortest first. -/
def properSuffixes (name : String) : List String :=
  let parts := segments name
  ((List.range (parts.length - 1)).map fun dropped => join (parts.drop (dropped + 1))).reverse

end Dotted

namespace Tree

mutual

/-- The dotted name of a tree. -/
def dotted? : Tree → Option String
  | .token _ => none
  | .node k children =>
    if k = .identifierName then
      ((children.filterMap Tree.token?).find? fun t => t.kind == .identifierToken).map (·.text)
    else if k = .qualifiedName ∨ k = .simpleMemberAccessExpression then
      match dottedParts children with
      | some left :: some right :: _ => some (left ++ "." ++ right)
      | _ => none
    else none

def dottedParts : List Tree → List (Option String)
  | [] => []
  | .token _ :: rest => dottedParts rest
  | .node k children :: rest => (Tree.node k children).dotted? :: dottedParts rest

end

end Tree

namespace Node

def dotted? (n : Node) : Option String := n.toTree.dotted?

def namespaceName? (n : Node) : Option String :=
  match n.childNodes.find? fun c => c.kind == .identifierName || c.kind == .qualifiedName with
  | some name => name.dotted?
  | none => none

def importedName? (n : Node) : Option String :=
  match n.childNodes.head? with
  | some name => name.dotted?
  | none => none

def importedNames (n : Node) : List String :=
  (n.childNodes.filter fun c => c.kind == .usingDirective).filterMap importedName?

end Node

/-- The names of the namespaces among the nodes around a place, the innermost node first: joined
with the outermost namespace in front, if there is any. -/
def containingNamespace? (around : List Node) : Option String :=
  match (around.filter fun n => n.kind == .namespaceDeclaration).filterMap Node.namespaceName? with
  | [] => none
  | names => some (Dotted.join names.reverse)

/-- The names imported in the containers among some nodes, those of the first container first. -/
def importsInScope (scope : List Node) : List String :=
  (scope.filter fun n => n.kind.isContainer).flatMap Node.importedNames

end TreeLint
