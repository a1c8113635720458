import TreeLint.Tree.Build
import TreeLint.Workspace

/-!
# Shortening qualified names

A qualified name in a base list, a qualified attribute name, and the receiver of a member access
that is an attribute's argument are shortened to the shortest of their ends that still stands for
the same type in the same place.

What to shorten is decided on the tree as it was. The abbreviations are then made from the last to
the first, so that the spans of those still to come stay right.
-/

namespace TreeLint

/-- A name to be shortened: where it is, of what kind, and what it becomes. -/
structure Abbreviation where
  span : Span
  kind : Kind
  shorter : String
  deriving DecidableEq, Repr

namespace Simplify

/-- Whether a node is a name that may be shortened, and then whether it names an attribute. -/
def candidate? (c : Cursor) : Option Bool :=
  match c.above with
  | [] => none
  | frame :: outer =>
    if c.kind = .qualifiedName ∧ frame.node.kind = .simpleBaseType then some false
    else if c.kind = .qualifiedName ∧ frame.node.kind = .attribute then some true
    else if c.kind = .simpleMemberAccessExpression ∧
        frame.node.kind = .simpleMemberAccessExpression ∧ frame.index = 0 ∧
        (outer.head?.map fun f => f.node.kind) = some .attributeArgument then some false
    else none

/-- The shortest proper end of a name that stands for the same type at a node. -/
def shorter? (table : SymbolTable) (dotted : String) (scope : List Node) (asAttribute : Bool) :
    Option String :=
  match table.resolve? dotted scope asAttribute with
  | none => none
  | some type =>
    (Dotted.properSuffixes dotted).find? fun suffix =>
      table.resolve? suffix scope asAttribute == some type

/-- The abbreviation of a node, if it has one. -/
def abbreviation? (table : SymbolTable) (c : Cursor) : Option Abbreviation :=
  match candidate? c, c.node.dotted? with
  | some asAttribute, some dotted =>
    match shorter? table dotted c.scope asAttribute with
    | some shorter => some ⟨c.fullSpan, c.kind, shorter⟩
    | none => none
  | _, _ => none

def abbreviations (table : SymbolTable) (root : Node) : List Abbreviation :=
  (Cursor.ofRoot root).descendants.filterMap (abbreviation? table)

/-- The trivia in front of the first token of a node that is not trivia. -/
def leadingTrivia (n : Node) : List Tree :=
  (n.tokens.takeWhile fun t => t.kind.isTrivia).map Tree.token

/-- The shorter name in place of a node, with the trivia that the node started with. -/
def replacement (a : Abbreviation) (old : Node) : Node :=
  let name := if a.kind = .qualifiedName then Build.name a.shorter
    else Build.memberAccessChain a.shorter
  name.splice 0 0 (leadingTrivia old)

/-- The tree with one abbreviation made, at the first node of its kind and span. -/
def applyAbbreviation (root : Node) (a : Abbreviation) : Node :=
  let target := (Cursor.ofRoot root).descendants.find? fun c =>
    c.kind == a.kind && c.fullSpan == a.span
  match target with
  | some c => c.replaceWith (replacement a c.node)
  | none => root

def simplifyRoot (table : SymbolTable) (root : Node) : Node :=
  (abbreviations table root).reverse.foldl applyAbbreviation root

end Simplify

def Document.simplify (d : Document) : Document :=
  d.withRoot (Simplify.simplifyRoot d.compilation.table d.root)

end TreeLint
