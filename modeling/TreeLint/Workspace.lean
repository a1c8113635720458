import TreeLint.Symbols.Compilation

/-!
# Documents and workspaces

A document is a snapshot: a tree and the compilation it was bound in. Changing a document makes a
new snapshot; a workspace says which snapshot of each document is the current one.
-/

namespace TreeLint

abbrev DocumentId := Nat

structure Document where
  id : DocumentId
  name : String
  root : Node
  compilation : Compilation
  deriving DecidableEq

namespace Document

def cursor (d : Document) : Cursor := .ofRoot d.root

def text (d : Document) : String := d.root.text

/-- The document with another tree, bound as before. -/
def withRoot (d : Document) (root : Node) : Document := { d with root }

end Document

/-- Where a workspace came from. Loose files opened outside of any project are not refactored. -/
inductive WorkspaceKind where
  | host
  | looseFiles
  deriving DecidableEq, Repr

/-- The current snapshots, in order of id. -/
structure Workspace where
  kind : WorkspaceKind
  compilation : Compilation
  documents : List Document
  deriving DecidableEq

namespace Workspace

/-- One document for each tree of a compilation. Trees without a name are numbered. -/
def ofCompilation (kind : WorkspaceKind) (compilation : Compilation) (names : List String) :
    Workspace :=
  { kind, compilation
    documents := compilation.trees.mapIdx fun id root =>
      ⟨id, names.getD id ("document" ++ toString id ++ ".cs"), root, compilation⟩ }

def document? (w : Workspace) (id : DocumentId) : Option Document :=
  w.documents.find? fun d => d.id == id

def documentNamed? (w : Workspace) (name : String) : Option Document :=
  w.documents.find? fun d => d.name == name

/-- The workspace with a document as the current snapshot of its id, if it has such a document. -/
def update? (w : Workspace) (changed : Document) : Option Workspace :=
  if (w.document? changed.id).isSome then
    some { w with documents := w.documents.map fun d => if d.id = changed.id then changed else d }
  else none

end Workspace

end TreeLint
