import TreeLint.Cancellation
import TreeLint.Diagnostic
import TreeLint.Workspace

/-!
# Analyzers and the scan that drives them

An analyzer names the kinds of nodes it looks at. A registry keeps analyzers in order of
registration, and beside them a table of the analyzers for each kind, which registering fills. A
scan goes over a document once, each node before those under it, and hands each node to the
analyzers that the table lists for its kind. An analyzer that names a kind twice sees its nodes
twice.

The token is polled before every node, and analyzers run in the state of the scan, so they may raise
it. A scan that was cancelled gives nothing.
-/

namespace TreeLint

/-- What looks at nodes of some kinds. -/
structure Analyzer (σ : Type) where
  rules : List Rule
  kinds : List Kind
  analyze : Document → Cursor → StateM σ (List Diagnostic)

/-- The analyzers for each kind of node that some analyzer names. -/
abbrev KindTable (σ : Type) := List (Kind × List (Analyzer σ))

namespace KindTable

variable {σ : Type}

/-- Puts an analyzer behind those for a kind. -/
def enlist (a : Analyzer σ) (k : Kind) : KindTable σ → KindTable σ
  | [] => [(k, [a])]
  | entry :: rest =>
    if entry.1 = k then (k, entry.2 ++ [a]) :: rest else entry :: enlist a k rest

def lookUp (table : KindTable σ) (k : Kind) : List (Analyzer σ) :=
  match table.find? fun entry => entry.1 == k with
  | some entry => entry.2
  | none => []

end KindTable

/-- Analyzers in order of registration, and by the kinds they look at. -/
structure AnalyzerRegistry (σ : Type) where
  analyzers : List (Analyzer σ) := []
  byKind : KindTable σ := []

namespace AnalyzerRegistry

variable {σ : Type}

/-- Puts an analyzer behind the others, and behind those for a kind each time it names the kind. -/
def register (r : AnalyzerRegistry σ) (a : Analyzer σ) : AnalyzerRegistry σ where
  analyzers := r.analyzers ++ [a]
  byKind := a.kinds.foldl (fun table k => table.enlist a k) r.byKind

def forKind (r : AnalyzerRegistry σ) (k : Kind) : List (Analyzer σ) := r.byKind.lookUp k

def rules (r : AnalyzerRegistry σ) : List Rule := r.analyzers.flatMap (·.rules)

/-- The registry in one line, for logs and failing checks. -/
def inspect (r : AnalyzerRegistry σ) : String :=
  "AnalyzerRegistry \x7b diagnostics: [" ++
    String.intercalate ", " (r.rules.map fun rule => "\"" ++ rule.id ++ "\"") ++
    "], kinds: " ++ toString r.byKind.length ++ " \x7d"

/-! ## Scanning -/

def analyzeNode (d : Document) (c : Cursor) : List (Analyzer σ) → StateM σ (List Diagnostic)
  | [] => pure []
  | a :: rest => do
    let first ← a.analyze d c
    let others ← analyzeNode d c rest
    return first ++ others

/-- Scans nodes in order; `found` is what came before. -/
def scanNodes (r : AnalyzerRegistry σ) (token : CancelToken σ) (d : Document) :
    (found : List Diagnostic) → List Cursor → Task σ (List Diagnostic)
  | found, [] => pure found
  | found, c :: rest => do
    token.check
    let fresh ← analyzeNode d c (r.forKind c.kind)
    scanNodes r token d (found ++ fresh) rest

/-- The diagnostics of a document, in document order. -/
def scan (r : AnalyzerRegistry σ) (token : CancelToken σ) (d : Document) :
    Task σ (List Diagnostic) :=
  r.scanNodes token d [] d.cursor.descendants

/-- The diagnostics of some documents, in their order. One cancelled scan cancels all. -/
def scanAll (r : AnalyzerRegistry σ) (token : CancelToken σ) :
    List Document → Task σ (List (DocumentId × List Diagnostic))
  | [] => pure []
  | d :: rest => do
    let first ← r.scan token d
    let others ← scanAll r token rest
    return (d.id, first) :: others

end AnalyzerRegistry

end TreeLint
