import Mathlib.Data.List.Forall2
import TreeLint.Symbols.Compilation

/-!
# What a name is resolved by

A name is resolved by the names that a table finds and by the nodes around the place it stands at.
Of a node around it only two things are ever asked: which namespace it opens and which namespaces it
imports. Two scopes whose nodes agree in these, one by one, resolve every name alike.

The nodes themselves may differ in anything else, and the node that the name is looked up at counts
as well: it opens and imports nothing unless it is a container itself.
-/

namespace TreeLint

/-- The namespace that a node opens, if it is one. -/
def Node.space? (n : Node) : Option String :=
  if n.kind = .namespaceDeclaration then n.namespaceName? else none

/-- The namespaces that a node imports, which only containers do. -/
def Node.imports (n : Node) : List String := if n.kind.isContainer then n.importedNames else []

/-- Two nodes that open and import the same. -/
structure SameScope (n m : Node) : Prop where
  space : n.space? = m.space?
  imports : n.imports = m.imports

theorem SameScope.of_not_container {n m : Node} (hn : n.kind.isContainer = false)
    (hm : m.kind.isContainer = false) : SameScope n m := by
  have hne : ∀ k : Kind, k.isContainer = false → k ≠ .namespaceDeclaration := by
    rintro _ hk rfl
    cases hk
  constructor
  · rw [Node.space?, Node.space?, if_neg (hne _ hn), if_neg (hne _ hm)]
  · simp only [Node.imports, hn, hm]
    rfl

/-- Of a child it counts whether it is a name, and what name: the first of these names the
namespace. -/
theorem namespaceName?_congr {n m : Node}
    (h : List.Forall₂ (fun a b : Node =>
      (a.kind == .identifierName || a.kind == .qualifiedName) =
        (b.kind == .identifierName || b.kind == .qualifiedName) ∧ a.dotted? = b.dotted?)
      n.childNodes m.childNodes) :
    n.namespaceName? = m.namespaceName? := by
  rw [Node.namespaceName?, Node.namespaceName?]
  generalize n.childNodes = children at h
  generalize m.childNodes = children' at h
  induction h with
  | nil => rfl
  | @cons a b _ _ hchild _ ih =>
      obtain ⟨hname, hdotted⟩ := hchild
      rw [List.find?_cons, List.find?_cons, hname]
      cases b.kind == .identifierName || b.kind == .qualifiedName with
      | true => exact hdotted
      | false => exact ih

theorem importedNames_congr {n m : Node}
    (h : List.Forall₂ (fun a b : Node => (a.kind == .usingDirective) = (b.kind == .usingDirective) ∧
      (a.kind = .usingDirective → a.importedName? = b.importedName?)) n.childNodes m.childNodes) :
    n.importedNames = m.importedNames := by
  rw [Node.importedNames, Node.importedNames]
  generalize n.childNodes = children at h
  generalize m.childNodes = children' at h
  induction h with
  | nil => rfl
  | @cons a b _ _ hchild _ ih =>
      obtain ⟨hkind, himported⟩ := hchild
      rw [List.filter_cons, List.filter_cons, ← hkind]
      split
      · next husing =>
          rw [List.filterMap_cons, List.filterMap_cons, himported (beq_iff_eq.1 husing), ih]
      · exact ih

/-- Two children of containers that name and import the same. -/
structure SameName (n m : Node) : Prop where
  kind : n.kind = m.kind
  dotted : n.dotted? = m.dotted?
  imported : n.kind = .usingDirective → n.importedName? = m.importedName?

theorem SameScope.of_children {n m : Node} (hkind : n.kind = m.kind)
    (h : List.Forall₂ SameName n.childNodes m.childNodes) : SameScope n m where
  space := by
    have hname := namespaceName?_congr (h.imp fun _ _ hsame => ⟨by rw [hsame.kind], hsame.dotted⟩)
    rw [Node.space?, Node.space?, hkind, hname]
  imports := by
    have hnames := importedNames_congr (h.imp fun _ _ hsame => ⟨by rw [hsame.kind], hsame.imported⟩)
    rw [Node.imports, Node.imports, hkind, hnames]

theorem spaces_eq (around : List Node) :
    (around.filter fun n => n.kind == .namespaceDeclaration).filterMap Node.namespaceName? =
      around.filterMap Node.space? := by
  rw [List.filterMap_filter]
  refine List.filterMap_congr fun n _ => ?_
  simp only [Node.space?, beq_iff_eq]

theorem importsInScope_eq (scope : List Node) :
    importsInScope scope = scope.flatMap Node.imports := by
  induction scope with
  | nil => rfl
  | cons n rest ih =>
      rw [importsInScope] at ih
      rw [importsInScope, List.filter_cons, List.flatMap_cons, Node.imports]
      split
      · rw [List.flatMap_cons, ih]
      · rw [ih, List.nil_append]

theorem containingNamespace?_congr {around around' : List Node}
    (h : List.Forall₂ SameScope around around') :
    containingNamespace? around = containingNamespace? around' := by
  have hspaces : around.filterMap Node.space? = around'.filterMap Node.space? := by
    induction h with
    | nil => rfl
    | cons hsame _ ih => rw [List.filterMap_cons, List.filterMap_cons, hsame.space, ih]
  rw [containingNamespace?, containingNamespace?, spaces_eq, spaces_eq, hspaces]

theorem importsInScope_congr {scope scope' : List Node}
    (h : List.Forall₂ SameScope scope scope') : importsInScope scope = importsInScope scope' := by
  rw [importsInScope_eq, importsInScope_eq]
  induction h with
  | nil => rfl
  | cons hsame _ ih => rw [List.flatMap_cons, List.flatMap_cons, hsame.imports, ih]

namespace SymbolTable

theorem candidates_congr (dotted : String) {scope scope' : List Node}
    (h : List.Forall₂ SameScope scope scope') :
    candidates dotted scope = candidates dotted scope' := by
  have htail : List.Forall₂ SameScope scope.tail scope'.tail := by
    cases h with
    | nil => exact .nil
    | cons _ hrest => exact hrest
  rw [candidates, candidates, containingNamespace?_congr htail, importsInScope_congr h]

theorem find?_congr {table table' : SymbolTable} (hplaces : table.places = table'.places) :
    table.find? = table'.find? := by
  funext name
  rw [find?, find?, hplaces]

theorem lookUp?_congr {table table' : SymbolTable} (hplaces : table.places = table'.places)
    (asAttribute : Bool) (candidate : String) :
    table.lookUp? asAttribute candidate = table'.lookUp? asAttribute candidate := by
  rw [lookUp?, lookUp?, find?_congr hplaces]

/-- Resolving depends on the index of a table and on what the nodes around a name open and
import. -/
theorem resolve?_congr {table table' : SymbolTable} (hplaces : table.places = table'.places)
    {scope scope' : List Node} (hscope : List.Forall₂ SameScope scope scope') (dotted : String)
    (asAttribute : Bool) :
    table.resolve? dotted scope asAttribute = table'.resolve? dotted scope' asAttribute := by
  have hlookUp : table.lookUp? asAttribute = table'.lookUp? asAttribute :=
    funext fun candidate => lookUp?_congr hplaces asAttribute candidate
  rw [resolve?, resolve?, candidates_congr dotted hscope, hlookUp]

end SymbolTable

end TreeLint
