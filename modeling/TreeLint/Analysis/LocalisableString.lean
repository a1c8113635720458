import TreeLint.Analysis.Scan
import TreeLint.Config.Options

/-!
# Localisable strings

A string literal assigned to a member of a view is shown to users, so it may have to be localised.
The rule looks at assignments with a string literal on the right and a member access on the left
whose receiver has a static type that derives from the configured view type. Any other shape, a
receiver without a type, and a program without the view type give nothing.
-/

namespace TreeLint.LocalisableString

def rule : Rule where
  id := "IR001"
  title := "Potentially Localisable String"
  message := "This could be potentially localised. Consider using a resource lookup instead."
  severity := .warning

def assignsString (assignment : Cursor) : Bool :=
  match assignment.right? with
  | some right => right.isLiteral && right.isStringLiteral
  | none => false

/-- The receiver of the member that an assignment assigns to. -/
def receiver? (assignment : Cursor) : Option Cursor :=
  match assignment.left? with
  | some left => if left.kind = .simpleMemberAccessExpression then left.left? else none
  | none => none

/-- Whether an assignment breaks the rule. -/
def isLocalisable (options : LocalisableStringOptions) (compilation : Compilation)
    (assignment : Cursor) : Bool :=
  assignment.kind == .simpleAssignmentExpression && assignsString assignment &&
    match receiver? assignment with
    | none => false
    | some receiver =>
      match compilation.typeOf? receiver, compilation.table.find? options.viewType with
      | some type, some view => compilation.table.derivesFrom type view
      | _, _ => false

def diagnose (options : LocalisableStringOptions) (d : Document) (c : Cursor) : List Diagnostic :=
  if isLocalisable options d.compilation c then
    [{ rule.at ⟨d.name, c.span⟩ with severity := options.severity }]
  else []

def analyzer (σ : Type) (options : LocalisableStringOptions) : Analyzer σ where
  rules := [rule]
  kinds := [.simpleAssignmentExpression]
  analyze d c := pure (diagnose options d c)

end TreeLint.LocalisableString

namespace TreeLint.AnalyzerRegistry

/-- The built-in analyzers that the options enable. -/
def builtIn (σ : Type) (options : AnalyzerOptions) : AnalyzerRegistry σ :=
  if options.localisableString.enabled then
    AnalyzerRegistry.register {} (LocalisableString.analyzer σ options.localisableString)
  else {}

end TreeLint.AnalyzerRegistry
