import TreeLint.Annotation.Target
import TreeLint.Diagnostic
import TreeLint.Json.Value
import TreeLint.Layout

/-!
# Options

Everything that can be configured, each option with a default. As JSON, options may leave out any
key and hold keys nobody knows; a record may also be a list of its fields in order. What is present
must have the right form: nothing is converted, and a missing value is not the same as null.
-/

namespace TreeLint

/-- Options of the rule on localisable strings. -/
structure LocalisableStringOptions where
  enabled : Bool := true
  /-- The metadata name of the type that views derive from. -/
  viewType : String := "Xamarin.Forms.View"
  severity : Severity := .warning
  deriving DecidableEq, Repr

/-- Options of the annotation of attribute classes. -/
structure AttributeUsageOptions where
  target : AttributeTarget := .classes
  deriving DecidableEq, Repr

structure AnalyzerOptions where
  localisableString : LocalisableStringOptions := {}
  attributeUsage : AttributeUsageOptions := {}
  formatting : FormattingOptions := {}
  /-- Shorten names after annotating. -/
  simplify : Bool := true
  deriving DecidableEq, Repr

open Json (Value)

/-- Reads a field: its default when it is missing, nothing when it has the wrong form. -/
def fieldOr {α : Type} (default : α) (read : Value → Option α) : Option Value → Option α
  | none => some default
  | some v => read v

namespace LocalisableStringOptions

def keys : List String := ["enabled", "viewType", "severity"]

def ofJson? (v : Value) : Option LocalisableStringOptions :=
  let defaults : LocalisableStringOptions := {}
  match v.record? keys with
  | some [enabled, viewType, severity] => do
    let enabled ← fieldOr defaults.enabled Value.bool? enabled
    let viewType ← fieldOr defaults.viewType Value.string? viewType
    let severity ← fieldOr defaults.severity (·.word? >>= Severity.ofName?) severity
    pure { enabled, viewType, severity }
  | _ => none

def toJson (o : LocalisableStringOptions) : Value :=
  .object [("enabled", .bool o.enabled), ("viewType", .string o.viewType),
    ("severity", .string o.severity.name)]

end LocalisableStringOptions

namespace AttributeUsageOptions

def keys : List String := ["target"]

def ofJson? (v : Value) : Option AttributeUsageOptions :=
  let defaults : AttributeUsageOptions := {}
  match v.record? keys with
  | some [target] => do
    let target ← fieldOr defaults.target (·.word? >>= AttributeTarget.ofName?) target
    pure { target }
  | _ => none

def toJson (o : AttributeUsageOptions) : Value := .object [("target", .string o.target.name)]

end AttributeUsageOptions

namespace FormattingOptions

def keys : List String := ["indentSize", "insertSpaces", "newLine", "attributeListsOnOwnLine"]

def ofJson? (v : Value) : Option FormattingOptions :=
  let defaults : FormattingOptions := {}
  match v.record? keys with
  | some [indentSize, insertSpaces, newLine, ownLine] => do
    let indentSize ← fieldOr defaults.indentSize Value.natBelow32? indentSize
    let insertSpaces ← fieldOr defaults.insertSpaces Value.bool? insertSpaces
    let newLine ← fieldOr defaults.newLine Value.string? newLine
    let attributeListsOnOwnLine ← fieldOr defaults.attributeListsOnOwnLine Value.bool? ownLine
    pure { indentSize, insertSpaces, newLine, attributeListsOnOwnLine }
  | _ => none

def toJson (o : FormattingOptions) : Value :=
  .object [("indentSize", .ofNat o.indentSize), ("insertSpaces", .bool o.insertSpaces),
    ("newLine", .string o.newLine), ("attributeListsOnOwnLine", .bool o.attributeListsOnOwnLine)]

end FormattingOptions

namespace AnalyzerOptions

def keys : List String := ["localisableString", "attributeUsage", "formatting", "simplify"]

def ofJson? (v : Value) : Option AnalyzerOptions :=
  let defaults : AnalyzerOptions := {}
  match v.record? keys with
  | some [localisableString, attributeUsage, formatting, simplify] => do
    let localisableString ←
      fieldOr defaults.localisableString LocalisableStringOptions.ofJson? localisableString
    let attributeUsage ←
      fieldOr defaults.attributeUsage AttributeUsageOptions.ofJson? attributeUsage
    let formatting ← fieldOr defaults.formatting FormattingOptions.ofJson? formatting
    let simplify ← fieldOr defaults.simplify Value.bool? simplify
    pure { localisableString, attributeUsage, formatting, simplify }
  | _ => none

def toJson (o : AnalyzerOptions) : Value :=
  .object [("localisableString", o.localisableString.toJson),
    ("attributeUsage", o.attributeUsage.toJson), ("formatting", o.formatting.toJson),
    ("simplify", .bool o.simplify)]

end AnalyzerOptions

end TreeLint
