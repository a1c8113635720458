import TreeLint.Text.Span

/-!
# Diagnostics

A rule is described once; a diagnostic is one observation of a rule at a place in a file.
-/

namespace TreeLint

/-- How much a diagnostic matters, the least first. -/
inductive Severity where
  | info
  | warning
  | error
  deriving DecidableEq, Repr

namespace Severity

def all : List Severity := [info, warning, error]

def rank (s : Severity) : Nat := s.ctorIdx

def name : Severity → String
  | info => "info"
  | warning => "warning"
  | error => "error"

def ofName? (name : String) : Option Severity := all.find? fun s => s.name == name

instance : Ord Severity := ⟨fun a b => compare a.rank b.rank⟩

end Severity

/-- A rule that analyzers report. -/
structure Rule where
  id : String
  title : String
  message : String
  severity : Severity
  deriving DecidableEq, Repr

structure Location where
  file : String
  span : Span
  deriving DecidableEq, Repr

/-- One observation. -/
structure Diagnostic where
  id : String
  title : String
  message : String
  severity : Severity
  location : Location
  deriving DecidableEq, Repr

/-- The observation of a rule at a place, with the severity of the rule. -/
def Rule.at (rule : Rule) (location : Location) : Diagnostic :=
  ⟨rule.id, rule.title, rule.message, rule.severity, location⟩

end TreeLint
