import TreeLint.Config.Options
import TreeLint.Simplify
import TreeLint.Tree.Locate

/-!
# From a class to an annotated document

Annotating goes through three stages, each a type of its own: a class was located in a document; it
is eligible, because a type in its base list that is no interface derives from the attribute class;
and a document was built in which the class has one attribute list more. The built document is then
laid out and, if wanted, its names are shortened. Any stage may end the request with nothing.

An annotation is added even where the class has an equal one already.
-/

namespace TreeLint

/-- A class declaration in a document. -/
structure Located where
  document : Document
  declaration : Cursor
  deriving DecidableEq

/-- A class that may be annotated, and the base type that makes it one. -/
structure Eligible where
  document : Document
  declaration : Cursor
  attributeBase : TypeId
  deriving DecidableEq

/-- A document with its annotation, before layout. -/
structure Built where
  document : Document
  deriving DecidableEq

/-- Lays out a tree in the state of the work it is part of. -/
abbrev Formatter (σ : Type) := FormattingOptions → Node → StateM σ Node

def Formatter.standard {σ : Type} : Formatter σ := fun options n => pure (options.format n)

namespace Located

/-- The class around the token that a span selects. -/
def atSpan? (d : Document) (s : Span) : Option Located :=
  (d.cursor.findForSpan? s .classDeclaration).map fun c => ⟨d, c⟩

def first {σ : Type} (token : CancelToken σ) (d : Document) : Task σ (Option Located) := do
  let found ← d.cursor.findFirst token .classDeclaration
  return found.map fun c => ⟨d, c⟩

/-- The first type in the base list of a class that is no interface and derives from the attribute
class. -/
def attributeBase? (table : SymbolTable) (declaration : Cursor) : Option TypeId :=
  match table.find? SymbolTable.attributeName with
  | none => none
  | some root =>
    (declaration.baseNames.filterMap table.resolveName?).find? fun type =>
      (table.symbol? type).isSome && !table.isInterface type && table.derivesFrom type root

def eligible? (l : Located) : Option Eligible :=
  (attributeBase? l.document.compilation.table l.declaration).map fun base =>
    ⟨l.document, l.declaration, base⟩

end Located

namespace Eligible

def annotatedRoot (e : Eligible) (target : AttributeTarget) : Node :=
  e.declaration.replaceWith (e.declaration.node.addAttributeLists [target.annotation])

/-- Adds the annotation. The token is polled before anything is built. -/
def build {σ : Type} (token : CancelToken σ) (e : Eligible) (target : AttributeTarget) :
    Task σ Built := do
  token.check
  return ⟨e.document.withRoot (e.annotatedRoot target)⟩

end Eligible

namespace Built

/-- Lays out the document and shortens its names if the options say so. -/
def finish {σ : Type} (formatter : Formatter σ) (options : AnalyzerOptions) (b : Built) :
    StateM σ Document := do
  let root ← formatter options.formatting b.document.root
  let laidOut := b.document.withRoot root
  return if options.simplify then laidOut.simplify else laidOut

end Built

/-- Builds and finishes. The token is polled again at the end: a result that comes too late is
dropped. -/
def Eligible.annotate {σ : Type} (token : CancelToken σ) (formatter : Formatter σ)
    (options : AnalyzerOptions) (e : Eligible) : Task σ Document := do
  let built ← e.build token options.attributeUsage.target
  let document ← built.finish formatter options
  token.check
  return document

end TreeLint
