import TreeLint.Tree.Dotted

/-!
# The parts of a node by role

What a declaration, an attribute or an expression is made of, found among the children of its node.
Each function expects a node of the kind its comment names; on any other it finds what it can.
-/

namespace TreeLint

namespace Cursor

def childrenOfKind (c : Cursor) (k : Kind) : List Cursor :=
  c.childNodes.filter fun child => child.kind == k

/-! ## Type declarations -/

/-- The name token of a type declaration. -/
def identifier? (c : Cursor) : Option TokenCursor := c.firstTokenOfKind? .identifierToken

def attributeLists (c : Cursor) : List Cursor := c.childrenOfKind .attributeList

def baseList? (c : Cursor) : Option Cursor := c.firstChildOfKind? .baseList

/-- The methods and nested types of a type declaration. -/
def members (c : Cursor) : List Cursor :=
  c.childNodes.filter fun child => child.kind == .methodDeclaration || child.kind.isTypeDeclaration

def baseTypes (c : Cursor) : List Cursor := c.childrenOfKind .simpleBaseType

/-- The names in the base list of a type declaration. -/
def baseNames (c : Cursor) : List Cursor :=
  match c.baseList? with
  | some list => list.baseTypes.filterMap firstChild?
  | none => []

/-! ## Attributes -/

def attributes (c : Cursor) : List Cursor := c.childrenOfKind .attribute

def arguments (c : Cursor) : List Cursor :=
  match c.firstChildOfKind? .attributeArgumentList with
  | some list => (list.childrenOfKind .attributeArgument).filterMap firstChild?
  | none => []

/-! ## Expressions -/

/-- The left side of an assignment, and the receiver of a member access. -/
def left? (c : Cursor) : Option Cursor := c.childNodes[0]?

/-- The right side of an assignment, and the name of a member access. -/
def right? (c : Cursor) : Option Cursor := c.childNodes[1]?

/-- The member that a member access names. -/
def memberName? (c : Cursor) : Option String :=
  match c.right? with
  | some name => name.node.dotted?
  | none => none

def literalToken? (c : Cursor) : Option TokenCursor := c.childTokens.find? fun t => !t.isTrivia

def isLiteral (c : Cursor) : Bool :=
  c.kind == .stringLiteralExpression || c.kind == .numericLiteralExpression

def isStringLiteral (c : Cursor) : Bool :=
  match c.literalToken? with
  | some t => t.kind == .stringLiteralToken
  | none => false

/-- The namespaces around a node as one name. -/
def containingNamespace? (c : Cursor) : Option String :=
  TreeLint.containingNamespace? (c.above.map (·.node))

end Cursor

namespace Node

/-- Where a new attribute list goes: directly behind the last one, in front of everything if there
is none. -/
def attributeListEnd (n : Node) : Nat :=
  match (n.children.reverse.findIdx? fun t => t.kind == .attributeList) with
  | some behind => n.children.length - behind
  | none => 0

/-- A type declaration with more attribute lists behind those it has. -/
def addAttributeLists (n : Node) (lists : List Node) : Node :=
  n.splice n.attributeListEnd n.attributeListEnd (lists.map Node.toTree)

end Node

end TreeLint
