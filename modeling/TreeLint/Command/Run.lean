import TreeLint.Analysis.LocalisableString
import TreeLint.Annotation.Pipeline
import TreeLint.Annotation.Refactoring
import TreeLint.Command.Arguments
import TreeLint.Config.Load
import TreeLint.Json.Writer
import TreeLint.Report
import TreeLint.Snapshot.Stored

/-!
# The commands

Each command reads a snapshot, runs over it and says what to print. Nothing is ever cancelled here.
What goes wrong is a chain of causes, the outermost first: what was being done, and why it failed.
-/

namespace TreeLint.Command

/-- One link of a chain of causes. -/
inductive Cause where
  | message (text : String)
  /-- A JSON text was refused, perhaps with a reason of the tree in it. -/
  | json (reason : Option String)
  | file (error : ReadError)
  deriving DecidableEq, Repr

/-- Why a command failed. -/
inductive Failure where
  | config (error : ConfigError)
  | snapshotUnreadable (path : String) (error : ReadError)
  | snapshotInvalid (path : String) (refusal : Json.Refusal)
  | bind (error : BindError)
  | noDocument (name : String)
  | cancelled (reason : Cancelled)
  | vanished (name : String)
  /-- A difference of offsets is below zero, and the program stops. -/
  | overflow
  deriving DecidableEq, Repr

def ConfigTextError.causes : ConfigTextError → List Cause
  | .malformed => [.message "failed to parse config JSON", .json none]
  | .notObject => [.message "config must be a JSON object"]

def ConfigParseError.causes : ConfigParseError → List Cause
  | .text cause => ConfigTextError.causes cause
  | .invalid => [.message "invalid configuration", .json none]

def ConfigError.causes : ConfigError → List Cause
  | .cycle path => [.message ("config extends cycle detected at " ++ path)]
  | .unreadable path cause => [.message ("failed to read config: " ++ path), .file cause]
  | .unparsable path cause =>
    .message ("failed to parse config: " ++ path) :: ConfigTextError.causes cause
  | .extendsNotString path => [.message ("\"extends\" in " ++ path ++ " must be a string")]
  | .noParent => [.message "config has no parent directory"]
  | .invalid path => [.message ("invalid configuration in " ++ path), .json none]

def refusalCauses : Json.Refusal → List Cause
  | .malformed => [.message "invalid snapshot JSON", .json none]
  | .rejected reason => [.message "invalid snapshot JSON", .json (some reason)]

def Failure.causes : Failure → List Cause
  | .config error => ConfigError.causes error
  | .snapshotUnreadable path error =>
    [.message ("failed to read snapshot: " ++ path), .file error]
  | .snapshotInvalid path refusal =>
    .message ("failed to parse snapshot: " ++ path) :: refusalCauses refusal
  | .bind error => [.message error.message]
  | .noDocument name => [.message ("no document named " ++ name ++ " in snapshot")]
  | .cancelled reason => [.message reason.message]
  | .vanished name =>
    [.message ("document " ++ name ++
      " vanished from the workspace before the change was applied")]
  | .overflow => [.message "attempt to subtract with overflow"]

/-! ## Working on a snapshot -/

def loadWorkspace (fs : FileSystem) (path : String) : Except Failure Workspace :=
  match fs.read path with
  | .error error => .error (.snapshotUnreadable path error)
  | .ok text =>
    match Snapshot.parse text with
    | .error refusal => .error (.snapshotInvalid path refusal)
    | .ok snapshot => snapshot.bind.mapError .bind

structure CheckReport where
  diagnostics : List Diagnostic
  output : String

def CheckReport.hasErrors (r : CheckReport) : Bool :=
  r.diagnostics.any fun d => d.severity == .error

/-- Scans every document of a snapshot. -/
def check (fs : FileSystem) (snapshot : String) (options : AnalyzerOptions) (json colours : Bool) :
    Except Failure CheckReport := do
  let workspace ← loadWorkspace fs snapshot
  let registry := AnalyzerRegistry.builtIn Unit options
  let (scanned, _) := registry.scanAll .never workspace.documents ()
  let results ← scanned.mapError .cancelled
  let diagnostics := results.flatMap (·.2)
  if json then
    return ⟨diagnostics, (Json.Value.array (diagnostics.map Diagnostic.toJson)).indented⟩
  else
    let reporter := workspace.documents.foldl (fun r d => r.addSource d.name d.text)
      { colours : Reporter }
    let some rendered := reporter.render diagnostics | throw .overflow
    return ⟨diagnostics, (if rendered.isEmpty then "" else rendered ++ "\n\n") ++
      reporter.summary diagnostics⟩

/-- The refactored text of a document, or nothing if no refactoring is offered. -/
def refactor (fs : FileSystem) (snapshot : String) (options : AnalyzerOptions) (document : String)
    (selection : Span) : Except Failure (Option String) := do
  let workspace ← loadWorkspace fs snapshot
  match workspace.documentNamed? document with
  | none => throw (.noDocument document)
  | some d =>
    let refactoring : AttributeUsageRefactoring Unit := { options }
    let (offered, _) := refactoring.compute .never workspace.kind d selection ()
    match ← offered.mapError Failure.cancelled with
    | none => return none
    | some action =>
      let (changed, _) := action.changedDocument .never ()
      let changed ← changed.mapError Failure.cancelled
      match workspace.update? changed with
      | some _ => return some changed.text
      | none => throw (.vanished document)

/-- The names and texts of the documents that annotating a snapshot changes. -/
def annotate (fs : FileSystem) (snapshot : String) (options : AnalyzerOptions) :
    Except Failure (List (String × String)) := do
  let workspace ← loadWorkspace fs snapshot
  let pipeline : AnnotationPipeline Unit := { options }
  let ((changed, _), _) := pipeline.runWorkspace .never workspace ()
  let changed ← changed.mapError Failure.cancelled
  return changed.map fun d => (d.name, d.text)

def showConfig (options : AnalyzerOptions) : String := options.toJson.indented

/-! ## Running a command line -/

/-- What a run prints and how it ends. -/
structure Outcome where
  status : Nat
  stdout : String := ""
  stderr : String := ""
  deriving DecidableEq, Repr

def Cause.text : Cause → String
  | .message text => text
  | .json reason => reason.getD "malformed JSON"
  | .file .notFound => "No such file or directory (os error 2)"
  | .file .isDirectory => "Is a directory (os error 21)"
  | .file .notDirectory => "Not a directory (os error 20)"
  | .file (.other description) => description

/-- A number in at least five columns. -/
def padOrdinal (n : Nat) : String :=
  let digits := toString n
  String.ofList (List.replicate (5 - digits.length) ' ') ++ digits

/-- The causes behind the outermost one, each on a line of its own and numbered if there are
several. -/
def innerCauses : List Cause → String
  | [] => ""
  | [cause] => "\n\nCaused by:\n    " ++ cause.text
  | causes =>
    "\n\nCaused by:" ++ String.join ((causes.zipIdx).map fun (cause, n) =>
      "\n" ++ padOrdinal n ++ ": " ++ cause.text)

def Failure.text (f : Failure) : String :=
  match f.causes with
  | [] => "Error: \n"
  | outer :: inner => "Error: " ++ outer.text ++ innerCauses inner ++ "\n"

/-- The status of a run that fails. A program that stops has one of its own. -/
def Failure.status : Failure → Nat
  | .overflow => 101
  | _ => 1

/-- How a run ends whose command line is not understood, or asks for help. -/
def ArgumentError.outcome (e : ArgumentError) : Outcome :=
  match e with
  | .help | .version => { status := 0, stdout := e.message }
  | _ => { status := 2, stderr := e.message }

/-- Runs a subcommand with its options loaded. -/
def runCommand (fs : FileSystem) (options : AnalyzerOptions) (colours : Bool) :
    Subcommand → Except Failure Outcome
  | .check snapshot json => do
    let report ← check fs snapshot options json (colours && !json)
    return { status := if report.hasErrors then 1 else 0, stdout := report.output ++ "\n" }
  | .refactor snapshot document offset length => do
    match ← refactor fs snapshot options document ⟨offset, length⟩ with
    | some text => return { status := 0, stdout := text }
    | none =>
      return { status := 0, stderr := "No refactoring available at " ++ document ++ ":" ++
        toString offset ++ ".\n" }
  | .annotate snapshot => do
    let changed ← annotate fs snapshot options
    return { status := 0
             stdout := String.join (changed.map fun (name, text) => "// " ++ name ++ "\n" ++ text)
             stderr := if changed.isEmpty then "No attribute classes to annotate.\n" else "" }
  | .showConfig => return { status := 0, stdout := showConfig options ++ "\n" }

def run (fs : FileSystem) (directory : String) (colours : Bool) (arguments : List String) :
    Outcome :=
  match Arguments.parse arguments with
  | .error error => error.outcome
  | .ok parsed =>
    let result := do
      let options ← (Config.resolve fs parsed.config directory).mapError Failure.config
      runCommand fs options colours parsed.command
    match result with
    | .ok outcome => outcome
    | .error failure => { status := failure.status, stderr := failure.text }

end TreeLint.Command
