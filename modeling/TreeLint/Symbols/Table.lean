/-!
# Type symbols and their table

A type has a name, a kind, perhaps a base type, and the interfaces it declares; an interface
declares those it extends. Types refer to each other by their place in a table, and no two types of
a table have the same metadata name: an index beside the types says which place has a name.

Bases never form a cycle: a base is only taken if the chain of bases that starts at it does not
reach the type itself. Chains are followed for at most one step more than there are types, which on
such a table is to their end. Interfaces may extend each other in any way at all.
-/

namespace TreeLint

/-- The place of a type in a table. -/
abbrev TypeId := Nat

inductive TypeKind where
  | classType
  | interfaceType
  | structType
  | enumType
  | delegateType
  deriving DecidableEq, Repr

namespace TypeKind

def all : List TypeKind := [.classType, .interfaceType, .structType, .enumType, .delegateType]

def name : TypeKind → String
  | .classType => "class"
  | .interfaceType => "interface"
  | .structType => "struct"
  | .enumType => "enum"
  | .delegateType => "delegate"

def ofName? (name : String) : Option TypeKind := all.find? fun k => k.name == name

/-- Whether values of such a type are references. -/
def isReference : TypeKind → Bool
  | .classType | .interfaceType | .delegateType => true
  | .structType | .enumType => false

end TypeKind

structure TypeSymbol where
  name : String
  /-- The namespace around the type, none for the global one. -/
  space? : Option String
  kind : TypeKind
  /-- Whether this is the root of all reference types. -/
  isObject : Bool := false
  base : Option TypeId := none
  interfaces : List TypeId := []
  deriving DecidableEq, Repr

namespace TypeSymbol

/-- A type with neither base nor interfaces. An empty namespace is the global one. -/
def bare (space name : String) (kind : TypeKind) : TypeSymbol :=
  { name, space? := if space.isEmpty then none else some space, kind }

def metadataName (s : TypeSymbol) : String :=
  match s.space? with
  | some space => space ++ "." ++ s.name
  | none => s.name

def isInterface (s : TypeSymbol) : Bool := s.kind == .interfaceType

end TypeSymbol

/-- Types by place, and the places of their metadata names, the latest name first. -/
structure SymbolTable where
  symbols : Array TypeSymbol := #[]
  places : List (String × TypeId) := []
  deriving DecidableEq, Repr

namespace SymbolTable

def size (table : SymbolTable) : Nat := table.symbols.size

def symbol? (table : SymbolTable) (id : TypeId) : Option TypeSymbol := table.symbols[id]?

def find? (table : SymbolTable) (metadataName : String) : Option TypeId :=
  table.places.lookup metadataName

def base? (table : SymbolTable) (id : TypeId) : Option TypeId :=
  match table.symbol? id with
  | some s => s.base
  | none => none

def interfaces (table : SymbolTable) (id : TypeId) : List TypeId :=
  match table.symbol? id with
  | some s => s.interfaces
  | none => []

def isInterface (table : SymbolTable) (id : TypeId) : Bool :=
  match table.symbol? id with
  | some s => s.isInterface
  | none => false

/-- A type and the bases behind it, as far as some number of steps goes. -/
def chainFrom (table : SymbolTable) : (steps : Nat) → TypeId → List TypeId
  | 0, _ => []
  | steps + 1, id =>
    id :: (match table.base? id with
      | some base => chainFrom table steps base
      | none => [])

/-- A type followed by its base, the base of that, and so on. -/
def chain (table : SymbolTable) (id : TypeId) : List TypeId := table.chainFrom (table.size + 1) id

/-! ## Growing a table -/

def modify (table : SymbolTable) (id : TypeId) (change : TypeSymbol → TypeSymbol) : SymbolTable :=
  { table with symbols := table.symbols.modify id change }

def push (table : SymbolTable) (symbol : TypeSymbol) : SymbolTable where
  symbols := table.symbols.push symbol
  places := (symbol.metadataName, table.size) :: table.places

/-- Whether a type may take a base: it has to be in the table and off the chain of the base. -/
def acceptsBase (table : SymbolTable) (id base : TypeId) : Bool :=
  !(table.chain base).contains id && id < table.size

/-- The table with a base set, unless that would close a cycle. -/
def setBase (table : SymbolTable) (id base : TypeId) : SymbolTable :=
  if table.acceptsBase id base then table.modify id fun s => { s with base := some base } else table

/-- The table with an interface declared, once only. -/
def addInterface (table : SymbolTable) (id interface : TypeId) : SymbolTable :=
  table.modify id fun s =>
    if s.interfaces.contains interface then s
    else { s with interfaces := s.interfaces ++ [interface] }

/-- The table with a type, in place of the one that had its metadata name, and where it went. The
base of a replacement is dropped if it would close a cycle; nothing can derive from a new type. -/
def add (table : SymbolTable) (symbol : TypeSymbol) : SymbolTable × TypeId :=
  match table.find? symbol.metadataName with
  | some id =>
    let replaced := table.modify id fun _ => { symbol with base := none }
    match symbol.base with
    | some base => (replaced.setBase id base, id)
    | none => (replaced, id)
  | none => (table.push symbol, table.size)

/-- The table with a type of a name, as it is if it is there already and bare if not. -/
def declare (table : SymbolTable) (space name : String) (kind : TypeKind) : SymbolTable × TypeId :=
  let symbol := TypeSymbol.bare space name kind
  match table.find? symbol.metadataName with
  | some id => (table, id)
  | none => table.add symbol

/-! ## Interfaces -/

/-- The interfaces that a type declares and that are not listed yet, each once. -/
def fresh (table : SymbolTable) (listed : List TypeId) (id : TypeId) : List TypeId :=
  ((table.interfaces id).filter fun i => !listed.contains i).eraseDups

/-- Behind interfaces already listed, those that they extend and so on, breadth first: `queue` holds
the listed interfaces whose own have not been looked at. -/
def extend (table : SymbolTable) : (steps : Nat) → (listed queue : List TypeId) → List TypeId
  | 0, listed, _ => listed
  | _, listed, [] => listed
  | steps + 1, listed, id :: queue =>
    extend table steps (listed ++ table.fresh listed id) (queue ++ table.fresh listed id)

/-- How often interfaces are declared in the whole table, which bounds how many there are. -/
def declarations (table : SymbolTable) : Nat :=
  (table.symbols.toList.flatMap fun s => s.interfaces).length

/-- The interfaces declared along the chain of a type, each once, those of the nearest type
first. -/
def declaredAlong (table : SymbolTable) (id : TypeId) : List TypeId :=
  ((table.chain id).flatMap table.interfaces).eraseDups

/-- All interfaces of a type, each once: those declared along its chain, and then what they extend,
breadth first. -/
def allInterfaces (table : SymbolTable) (id : TypeId) : List TypeId :=
  table.extend (table.declarations + 1) (table.declaredAlong id) (table.declaredAlong id)

/-! ## The types every program can see -/

/-- Metadata names that other parts of the library look up. -/
def objectName : String := "System.Object"
def valueTypeName : String := "System.ValueType"
def stringName : String := "System.String"
def integerName : String := "System.Int32"
def attributeName : String := "System.Attribute"

/-- The core library, in order of place. -/
def coreSymbols : List TypeSymbol :=
  [{ TypeSymbol.bare "System" "Object" .classType with isObject := true },
    { TypeSymbol.bare "System" "ValueType" .classType with base := some 0 },
    { TypeSymbol.bare "System" "Enum" .classType with base := some 1 },
    TypeSymbol.bare "System.Collections" "IEnumerable" .interfaceType,
    { TypeSymbol.bare "System.Collections.Generic" "IEnumerable\x601" .interfaceType with
      interfaces := [3] },
    TypeSymbol.bare "System" "IDisposable" .interfaceType,
    TypeSymbol.bare "System.Runtime.InteropServices" "_Attribute" .interfaceType,
    { TypeSymbol.bare "System" "String" .classType with base := some 0, interfaces := [3] },
    { TypeSymbol.bare "System" "Int32" .structType with base := some 1 },
    { TypeSymbol.bare "System" "Attribute" .classType with base := some 0, interfaces := [6] },
    { TypeSymbol.bare "System" "AttributeUsageAttribute" .classType with base := some 9 },
    { TypeSymbol.bare "System" "AttributeTargets" .enumType with base := some 2 }]

def core : SymbolTable := coreSymbols.foldl (fun table symbol => (table.add symbol).1) {}

def object? (table : SymbolTable) : Option TypeId := table.find? objectName

end SymbolTable

end TreeLint
