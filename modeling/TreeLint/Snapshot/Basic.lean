import TreeLint.Tree.Stored
import TreeLint.Workspace

/-!
# Snapshots

A snapshot is the input of a run, already parsed: the trees of the documents, the types that the
trees refer to but do not declare, and the static types of simple names. Binding it gives a
workspace.

All types are declared before any base is set, so they may refer to each other in any order.
-/

namespace TreeLint

structure DocumentSnapshot where
  name : String
  tree : Node
  deriving DecidableEq

/-- A type from outside of the trees; its base and interfaces are metadata names. -/
structure TypeSnapshot where
  space : String := ""
  name : String
  kind : TypeKind
  base : Option String := none
  interfaces : List String := []
  deriving DecidableEq, Repr

structure LocalSnapshot where
  name : String
  type : String
  deriving DecidableEq, Repr

structure Snapshot where
  /-- Whether the documents are loose files outside of any project. -/
  looseFiles : Bool := false
  documents : List DocumentSnapshot
  types : List TypeSnapshot := []
  locals : List LocalSnapshot := []
  deriving DecidableEq

inductive BindError where
  | unknownType (referrer name : String)
  | baseCycle (name : String)
  | notCompilationUnit (document : String) (root : Kind)
  | unknownLocalType (name type : String)
  deriving DecidableEq, Repr

def BindError.message : BindError → String
  | .unknownType referrer name => "type " ++ referrer ++ " refers to unknown type " ++ name
  | .baseCycle name => "base type of " ++ name ++ " would form an inheritance cycle"
  | .notCompilationUnit document root =>
    "document " ++ document ++ " has a " ++ root.name ++ " root, expected CompilationUnit"
  | .unknownLocalType name type => "local " ++ name ++ " has unknown type " ++ type

namespace TypeSnapshot

def lookUp (table : SymbolTable) (t : TypeSnapshot) (name : String) : Except BindError TypeId :=
  match table.find? name with
  | some id => .ok id
  | none => .error (.unknownType t.name name)

/-- The base of a type: the one it names, and the root of all reference types for a class that
names none. -/
def base? (table : SymbolTable) (t : TypeSnapshot) (id : TypeId) :
    Except BindError (Option TypeId) :=
  match t.base with
  | some name => (t.lookUp table name).map some
  | none =>
    if t.kind = .classType then .ok (table.object?.filter fun object => object != id) else .ok none

def linkBase (table : SymbolTable) (t : TypeSnapshot) (id : TypeId) :
    Except BindError SymbolTable :=
  match t.base? table id with
  | .error e => .error e
  | .ok none => .ok table
  | .ok (some base) =>
    if table.acceptsBase id base then .ok (table.setBase id base) else .error (.baseCycle t.name)

def linkInterfaces (t : TypeSnapshot) (id : TypeId) :
    List String → SymbolTable → Except BindError SymbolTable
  | [], table => .ok table
  | name :: rest, table =>
    match t.lookUp table name with
    | .error e => .error e
    | .ok i => linkInterfaces t id rest (table.addInterface id i)

def link (table : SymbolTable) (t : TypeSnapshot) (id : TypeId) : Except BindError SymbolTable :=
  match t.linkBase table id with
  | .error e => .error e
  | .ok table => t.linkInterfaces id t.interfaces table

end TypeSnapshot

namespace Snapshot

/-- Declares types in order and pairs each with its place. -/
def declareTypes (table : SymbolTable) :
    List TypeSnapshot → SymbolTable × List (TypeSnapshot × TypeId)
  | [] => (table, [])
  | t :: rest =>
    let (table, id) := table.declare t.space t.name t.kind
    let (table, others) := declareTypes table rest
    (table, (t, id) :: others)

/-- Links types in order. -/
def linkTypes : List (TypeSnapshot × TypeId) → SymbolTable → Except BindError SymbolTable
  | [], table => .ok table
  | (t, id) :: rest, table =>
    match t.link table id with
    | .error e => .error e
    | .ok table => linkTypes rest table

/-- The core library with the types of a snapshot. -/
def symbolTable (types : List TypeSnapshot) : Except BindError SymbolTable :=
  let (table, declared) := declareTypes .core types
  linkTypes declared table

/-- The roots of documents, all of which have to be compilation units. -/
def roots : List DocumentSnapshot → Except BindError (List Node)
  | [] => .ok []
  | d :: rest =>
    if d.tree.kind = .compilationUnit then (roots rest).map (d.tree :: ·)
    else .error (.notCompilationUnit d.name d.tree.kind)

/-- The compilation with the types of simple names. -/
def declareLocals : List LocalSnapshot → Compilation → Except BindError Compilation
  | [], c => .ok c
  | l :: rest, c =>
    match c.table.find? l.type with
    | some type => declareLocals rest (c.declareLocal l.name type)
    | none => .error (.unknownLocalType l.name l.type)

def bind (s : Snapshot) : Except BindError Workspace :=
  match symbolTable s.types with
  | .error e => .error e
  | .ok table =>
    match roots s.documents with
    | .error e => .error e
    | .ok trees =>
      match declareLocals s.locals (.ofTrees table trees) with
      | .error e => .error e
      | .ok compilation =>
        .ok (.ofCompilation (if s.looseFiles then .looseFiles else .host) compilation
          (s.documents.map (·.name)))

end Snapshot

end TreeLint
