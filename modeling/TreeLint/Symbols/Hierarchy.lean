import TreeLint.Symbols.Table

/-!
# What a type derives from

Two questions are asked of the hierarchy, and they treat interfaces differently. Asked for a type,
an interface counts however it is reached; asked for a name, only those that the type or one of its
bases declares.
-/

namespace TreeLint.SymbolTable

def hasName (table : SymbolTable) (id : TypeId) (metadataName : String) : Bool :=
  match table.symbol? id with
  | some s => s.metadataName == metadataName
  | none => false

/-- Whether a type, one of its bases, or an interface that one of these declares has a name. -/
def derivesFromName (table : SymbolTable) (current : TypeId) (expected : String) : Bool :=
  (table.chain current).any fun link =>
    table.hasName link expected || (table.interfaces link).any fun i => table.hasName i expected

/-- Whether a type is another, derives from it or implements it. Only reference types derive from
the root of all reference types, although the chain of a value type runs through it. -/
def derivesFrom (table : SymbolTable) (current expected : TypeId) : Bool :=
  if current = expected then true
  else
    match table.symbol? current, table.symbol? expected with
    | some currentSymbol, some expectedSymbol =>
      if currentSymbol.metadataName = expectedSymbol.metadataName then true
      else if expectedSymbol.isObject then currentSymbol.kind.isReference
      else if expectedSymbol.isInterface && (table.allInterfaces current).contains expected then
        true
      else table.derivesFromName current expectedSymbol.metadataName
    | _, _ => false

end TreeLint.SymbolTable
