import TreeLint.Annotation.Stages

/-!
# Annotating at a cursor

A request names a document and a selected span. If the class around the selection may be annotated,
an action is offered; the change itself is computed when the action is invoked, and again each time.
-/

namespace TreeLint

/-- A change with a title that has not been computed yet. -/
structure CodeAction (σ : Type) where
  title : String
  change : CancelToken σ → Task σ Document

namespace CodeAction

def changedDocument {σ : Type} (token : CancelToken σ) (a : CodeAction σ) : Task σ Document := do
  token.check
  a.change token

/-- The action in one line, for logs and failing checks. -/
def inspect {σ : Type} (a : CodeAction σ) : String :=
  "CodeAction \x7b title: \"" ++ a.title ++ "\", .. \x7d"

end CodeAction

/-- The refactoring that annotates attribute classes. -/
structure AttributeUsageRefactoring (σ : Type) where
  options : AnalyzerOptions
  formatter : Formatter σ := .standard

namespace AttributeUsageRefactoring

variable {σ : Type}

def displayName : String := "Annotate With Attribute Usage"

def title : String := "Annotate with AttributeUsage attribute"

def action (r : AttributeUsageRefactoring σ) (e : Eligible) : CodeAction σ where
  title := title
  change token := e.annotate token r.formatter r.options

/-- The action offered for a selection, if any. Loose files are not refactored. -/
def compute (r : AttributeUsageRefactoring σ) (token : CancelToken σ) (kind : WorkspaceKind)
    (d : Document) (s : Span) : Task σ (Option (CodeAction σ)) :=
  match kind with
  | .looseFiles => pure none
  | .host => do
    token.check
    let located := Located.atSpan? d s
    token.check
    return (located.bind Located.eligible?).map r.action

end AttributeUsageRefactoring

end TreeLint
