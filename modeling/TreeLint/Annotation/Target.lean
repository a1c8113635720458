import TreeLint.Tree.Build

/-!
# Attribute targets and the annotation for them

What an attribute may be applied to, and the attribute list that says so in source.
-/

namespace TreeLint

/-- The program elements an attribute may be applied to. -/
inductive AttributeTarget where
  | assemblies
  | modules
  | classes
  | structs
  | enums
  | constructors
  | methods
  | properties
  | fields
  | events
  | interfaces
  | parameters
  | delegates
  | returnValues
  | genericParameters
  | all
  deriving DecidableEq, Repr

namespace AttributeTarget

def every : List AttributeTarget :=
  [.assemblies, .modules, .classes, .structs, .enums, .constructors, .methods, .properties, .fields,
    .events, .interfaces, .parameters, .delegates, .returnValues, .genericParameters, .all]

def name : AttributeTarget → String
  | .assemblies => "Assembly"
  | .modules => "Module"
  | .classes => "Class"
  | .structs => "Struct"
  | .enums => "Enum"
  | .constructors => "Constructor"
  | .methods => "Method"
  | .properties => "Property"
  | .fields => "Field"
  | .events => "Event"
  | .interfaces => "Interface"
  | .parameters => "Parameter"
  | .delegates => "Delegate"
  | .returnValues => "ReturnValue"
  | .genericParameters => "GenericParameter"
  | .all => "All"

def ofName? (name : String) : Option AttributeTarget := every.find? fun t => t.name == name

def enumerationName : String := "System.AttributeTargets"

/-- The attribute that states a target, as it is written in source. -/
def usageName : String := "System.AttributeUsage"

def annotation (target : AttributeTarget) : Node :=
  let argument := Build.memberAccess (Build.memberAccessChain enumerationName) target.name
  Build.attributeList
    [Build.attributeOf (Build.name usageName)
      (some (Build.attributeArgumentList [Build.attributeArgument argument]))]

end AttributeTarget

end TreeLint
