import TreeLint.Symbols.Hierarchy
import TreeLint.Tree.View

/-!
# Binding trees to symbols

A compilation is a table of types together with the trees that declare some of them and the types of
simple names. Binding goes over the trees twice: first every declared type gets its place in the
table, then base lists are resolved, so that a type may be named before it is declared.

A name is resolved where it stands: as it is, then inside each namespace around it from the
innermost out, then inside each namespace that a using directive around it imports.
-/

namespace TreeLint

/-- What may follow a type's name for an attribute to leave out. -/
def attributeSuffix : String := "Attribute"

namespace SymbolTable

/-- The type with a name. The name of an attribute may also leave out its suffix. -/
def lookUp? (table : SymbolTable) (asAttribute : Bool) (candidate : String) : Option TypeId :=
  match table.find? candidate with
  | some id => some id
  | none =>
    if asAttribute && !attributeSuffix.toList.isSuffixOf candidate.toList then
      table.find? (candidate ++ attributeSuffix)
    else none

/-- The full names that a dotted name may stand for at a node with the given nodes around it, in the
order in which they are tried. -/
def candidates (dotted : String) (scope : List Node) : List String :=
  let spaces :=
    match containingNamespace? scope.tail with
    | some space => Dotted.shortenings space
    | none => []
  dotted :: (spaces ++ importsInScope scope).map fun space => space ++ "." ++ dotted

/-- The type that a dotted name stands for at a node. -/
def resolve? (table : SymbolTable) (dotted : String) (scope : List Node) (asAttribute : Bool) :
    Option TypeId :=
  (candidates dotted scope).findSome? (table.lookUp? asAttribute)

def resolveName? (table : SymbolTable) (name : Cursor) : Option TypeId :=
  match name.node.dotted? with
  | some dotted => table.resolve? dotted name.scope false
  | none => none

/-! ## Binding -/

/-- A declaration with its place in the table. -/
structure Declared where
  id : TypeId
  kind : TypeKind
  declaration : Cursor

def declaredKind : Kind → TypeKind
  | .structDeclaration => .structType
  | .interfaceDeclaration => .interfaceType
  | _ => .classType

/-- The declarations of a tree, each before those inside it. -/
def declarationsIn (root : Node) : List Cursor :=
  (Cursor.ofRoot root).descendants.filter fun c => c.kind.isTypeDeclaration

/-- Gives each declaration that has a name its place. -/
def declareAll (table : SymbolTable) : List Cursor → SymbolTable × List Declared
  | [] => (table, [])
  | c :: rest =>
    match c.identifier? with
    | none => declareAll table rest
    | some name =>
      let kind := declaredKind c.kind
      let (table, id) := table.declare (c.containingNamespace?.getD "") name.text kind
      let (table, others) := declareAll table rest
      (table, ⟨id, kind, c⟩ :: others)

/-- The name under which the base of a type is looked up when its base list names none. -/
def defaultBaseName : TypeKind → String
  | .classType => objectName
  | .structType => valueTypeName
  | _ => ""

/-- The table with the base list of a declaration bound: the interfaces it names, and for a class
the first other type. -/
def bindBases (table : SymbolTable) (d : Declared) : SymbolTable :=
  let named := d.declaration.baseNames.filterMap table.resolveName?
  let interfaces := named.filter table.isInterface
  let listed :=
    if d.kind = .classType then named.find? fun id => !table.isInterface id else none
  let base :=
    match listed with
    | some id => some id
    | none =>
      match table.find? (defaultBaseName d.kind) with
      | some id => if id = d.id then none else some id
      | none => none
  let based :=
    match base with
    | some base => table.setBase d.id base
    | none => table
  interfaces.foldl (fun table i => table.addInterface d.id i) based

def bind (table : SymbolTable) (trees : List Node) : SymbolTable :=
  let (table, declared) := table.declareAll (trees.flatMap declarationsIn)
  declared.foldl bindBases table

end SymbolTable

/-- Trees with the symbols they are bound to. -/
structure Compilation where
  table : SymbolTable
  trees : List Node
  /-- The types of simple names and dotted receivers, the latest declaration of a name first. -/
  locals : List (String × TypeId) := []
  deriving DecidableEq

namespace Compilation

def ofTrees (table : SymbolTable) (trees : List Node) : Compilation :=
  { table := table.bind trees, trees }

def declareLocal (c : Compilation) (name : String) (type : TypeId) : Compilation :=
  { c with locals := (name, type) :: c.locals }

def local? (c : Compilation) (name : String) : Option TypeId :=
  (c.locals.find? fun entry => entry.1 == name).map (·.2)

/-- The static type of an expression: that of a declared name, or else of a type of that name. -/
def typeOf? (c : Compilation) (expression : Cursor) : Option TypeId :=
  match expression.kind with
  | .stringLiteralExpression => c.table.find? SymbolTable.stringName
  | .numericLiteralExpression => c.table.find? SymbolTable.integerName
  | .identifierName | .simpleMemberAccessExpression =>
    match expression.node.dotted? with
    | some dotted =>
      match c.local? dotted with
      | some type => some type
      | none => c.table.resolve? dotted expression.scope false
    | none => none
  | _ => none

end Compilation

end TreeLint
