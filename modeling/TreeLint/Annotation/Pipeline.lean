import TreeLint.Annotation.Stages

/-!
# Annotating without a cursor

The pipeline annotates the first class of a document, if it may be annotated. Over a workspace it
takes the documents in order of id and makes each result current before it goes on to the next.
-/

namespace TreeLint

structure AnnotationPipeline (σ : Type) where
  options : AnalyzerOptions
  formatter : Formatter σ := .standard

namespace AnnotationPipeline

variable {σ : Type}

/-- The annotated document, or nothing if the document has no class or its first class may not be
annotated. -/
def run (p : AnnotationPipeline σ) (token : CancelToken σ) (d : Document) :
    Task σ (Option Document) := do
  let located ← Located.first token d
  match located.bind Located.eligible? with
  | none => return none
  | some eligible => return some (← eligible.annotate token p.formatter p.options)

/-- Annotates a document and makes the result current. A result for a document that the workspace
does not have is dropped. -/
def runAndApply (p : AnnotationPipeline σ) (token : CancelToken σ) (d : Document) (w : Workspace) :
    StateM σ (Except Cancelled (Option Document) × Workspace) := do
  match ← (p.run token d).run with
  | .error cancelled => return (.error cancelled, w)
  | .ok none => return (.ok none, w)
  | .ok (some changed) =>
    match w.update? changed with
    | some w => return (.ok (some changed), w)
    | none => return (.ok none, w)

/-- Annotates documents in order. What was applied before the token was raised stays applied. -/
def runDocuments (p : AnnotationPipeline σ) (token : CancelToken σ) :
    List Document → Workspace → StateM σ (Except Cancelled (List Document) × Workspace)
  | [], w => pure (.ok [], w)
  | d :: rest, w => do
    match ← p.runAndApply token d w with
    | (.error cancelled, w) => return (.error cancelled, w)
    | (.ok changed, w) =>
      match ← runDocuments p token rest w with
      | (.error cancelled, w) => return (.error cancelled, w)
      | (.ok others, w) => return (.ok (changed.toList ++ others), w)

/-- Annotates every document of a workspace. The answer lists the documents that changed. -/
def runWorkspace (p : AnnotationPipeline σ) (token : CancelToken σ) (w : Workspace) :
    StateM σ (Except Cancelled (List Document) × Workspace) :=
  p.runDocuments token w.documents w

end AnnotationPipeline

end TreeLint
