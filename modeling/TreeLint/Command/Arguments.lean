/-!
# Command line arguments

A command line is a subcommand with its positional argument and options. Options take their value
from behind an equals sign or from the next argument, and each may be given once. The option for the
configuration file belongs to the program and to every subcommand; given on both sides of the
subcommand, the inner one counts.

Arguments are read from left to right. A positional argument, and an option that takes its value
from the next argument, are settled only when the reading goes on behind them, which decides what is
complained about when several things are wrong: an unknown argument right behind a bad value is
reported, the bad value is not.
-/

namespace TreeLint.Command

/-- What is wrong with a command line, or what is shown in place of running. -/
inductive ArgumentError where
  | help
  | version
  /-- There are no arguments at all. -/
  | helpForNothing
  | missingSubcommand
  | invalidSubcommand
  | missingArgument
  | unknownArgument
  /-- An option's value is missing or empty. -/
  | invalidValue
  /-- An option's value cannot be read. -/
  | unreadableValue
  | repeatedOption
  /-- A flag is given a value. -/
  | surplusValue
  deriving DecidableEq, Repr

def usage : String :=
  "Usage: sharpen [--config FILE] COMMAND\n\nCommands:\n" ++
  "  check SNAPSHOT [--json]\n" ++
  "  refactor SNAPSHOT --document NAME --offset N [--length N]\n" ++
  "  annotate SNAPSHOT\n" ++
  "  show-config\n"

/-- What the program calls itself, with its version. -/
def versionText : String := "sharpen 0.1.0\n"

def ArgumentError.message : ArgumentError → String
  | .help | .helpForNothing => usage
  | .version => versionText
  | .missingSubcommand => "error: a command is missing\n"
  | .invalidSubcommand => "error: unknown command\n"
  | .missingArgument => "error: an argument is missing\n"
  | .unknownArgument => "error: unexpected argument\n"
  | .invalidValue => "error: an option lacks its value\n"
  | .unreadableValue => "error: the value of an option is not a number\n"
  | .repeatedOption => "error: an option is given twice\n"
  | .surplusValue => "error: an option takes no value\n"

/-- A subcommand with what it was given. -/
inductive Subcommand where
  | check (snapshot : String) (json : Bool)
  | refactor (snapshot document : String) (offset length : Nat)
  | annotate (snapshot : String)
  | showConfig
  deriving DecidableEq, Repr

def Subcommand.snapshot? : Subcommand → Option String
  | .check snapshot _ => some snapshot
  | .refactor snapshot _ _ _ => some snapshot
  | .annotate snapshot => some snapshot
  | .showConfig => none

structure Arguments where
  config : Option String
  command : Subcommand
  deriving DecidableEq, Repr

/-- What an argument may be for: an option, or the positional argument. -/
inductive Slot where
  | config
  | json
  | document
  | offset
  | length
  | snapshot
  deriving DecidableEq, Repr

namespace Slot

/-- The name of an option; the positional argument is not asked for by name. -/
def text : Slot → String
  | .config => "config"
  | .json => "json"
  | .document => "document"
  | .offset => "offset"
  | .length => "length"
  | .snapshot => "snapshot"

def takesValue : Slot → Bool
  | .json => false
  | _ => true

end Slot

inductive SubcommandName where
  | check
  | refactor
  | annotate
  | showConfig
  deriving DecidableEq, Repr

namespace SubcommandName

def ofText? : String → Option SubcommandName
  | "check" => some .check
  | "refactor" => some .refactor
  | "annotate" => some .annotate
  | "show-config" => some .showConfig
  | "showConfig" => some .showConfig
  | _ => none

def options : SubcommandName → List Slot
  | .check => [.config, .json]
  | .refactor => [.config, .document, .offset, .length]
  | .annotate => [.config]
  | .showConfig => [.config]

def takesSnapshot : SubcommandName → Bool
  | .showConfig => false
  | _ => true

end SubcommandName

/-- What has been given so far on one level of the command line. -/
structure Given where
  config : Option String := none
  json : Bool := false
  document : Option String := none
  offset : Option Nat := none
  length : Option Nat := none
  snapshot : Option String := none
  /-- What is not settled yet: an option whose value may be the next argument or has just been, or
  the positional argument. -/
  pending : Option (Slot × Option String) := none
  deriving DecidableEq, Repr

/-- A whole number of 32 bits, perhaps with a sign in front. -/
def number? (text : String) : Option Nat :=
  let (negative, digits) :=
    match text.toList with
    | '-' :: digits => (true, digits)
    | '+' :: digits => (false, digits)
    | digits => (false, digits)
  if digits.isEmpty || !digits.all fun c => '0' ≤ c && c ≤ '9' then none
  else
    let value := digits.foldl (fun value c => 10 * value + (c.toNat - '0'.toNat)) 0
    if value < Nat.pow 2 32 ∧ (negative → value = 0) then some value else none

namespace Given

def has (g : Given) : Slot → Bool
  | .config => g.config.isSome
  | .json => g.json
  | .document => g.document.isSome
  | .offset => g.offset.isSome
  | .length => g.length.isSome
  | .snapshot => g.snapshot.isSome

/-- A path, which may not be empty. -/
def path (text : String) : Except ArgumentError String :=
  if text.isEmpty then .error .invalidValue else .ok text

def put (g : Given) (name : Slot) (value : String) : Except ArgumentError Given :=
  if g.has name then .error .repeatedOption
  else
    match name with
    | .config => (path value).map fun p => { g with config := some p }
    | .json => .ok { g with json := true }
    | .document => .ok { g with document := some value }
    | .offset =>
      match number? value with
      | some n => .ok { g with offset := some n }
      | none => .error .unreadableValue
    | .length =>
      match number? value with
      | some n => .ok { g with length := some n }
      | none => .error .unreadableValue
    | .snapshot => (path value).map fun p => { g with snapshot := some p }

def settle (g : Given) : Except ArgumentError Given :=
  match g.pending with
  | none => .ok g
  | some (_, none) => .error .invalidValue
  | some (name, some value) => { g with pending := none }.put name value

end Given

/-- An argument that starts with two dashes: its name and what stands behind an equals sign. -/
def longOption? (argument : String) : Option (String × Option String) :=
  match argument.toList with
  | '-' :: '-' :: rest =>
    if rest.isEmpty then none
    else
      let name := String.ofList (rest.takeWhile (· != '='))
      match rest.dropWhile (· != '=') with
      | _ :: value => some (name, some (String.ofList value))
      | [] => some (name, none)
  | _ => none

/-- The letters of an argument that starts with one dash. -/
def shortOptions? (argument : String) : Option (List Char) :=
  match argument.toList with
  | '-' :: c :: rest => if c = '-' then none else some (c :: rest)
  | _ => none

/-- What one level of a command line knows. -/
structure Level where
  options : List Slot
  /-- Whether it shows the version. -/
  hasVersion : Bool

def topLevel : Level := ⟨[.config], true⟩

/-- Reads an argument that names an option. -/
def readLong (level : Level) (g : Given) (name : String) (value : Option String) :
    Except ArgumentError Given :=
  if name == "help" || (name == "version" && level.hasVersion) then
    match value with
    | some _ => .error .surplusValue
    | none =>
      match g.settle with
      | .error e => .error e
      | .ok _ => .error (if name == "help" then .help else .version)
  else
    match level.options.find? fun o => o.text == name with
    | none => .error .unknownArgument
    | some option =>
      if option.takesValue then
        match g.settle with
        | .error e => .error e
        | .ok g =>
          match value with
          | some value => g.put option value
          | none => .ok { g with pending := some (option, none) }
      else
        match value with
        | some _ => .error .surplusValue
        | none =>
          match g.settle with
          | .error e => .error e
          | .ok g => g.put option ""

/-- Reads an argument of letters. None of them names anything but help and version. -/
def readShort (level : Level) (g : Given) (letters : List Char) : ArgumentError :=
  let shown :=
    match letters with
    | 'h' :: _ => some ArgumentError.help
    | 'V' :: _ => if level.hasVersion then some ArgumentError.version else none
    | _ => none
  match shown with
  | none => .unknownArgument
  | some error =>
    match g.settle with
    | .error e => e
    | .ok _ => error

/-- Takes a positional argument. -/
def takePositional (name : SubcommandName) (g : Given) (argument : String) :
    Except ArgumentError Given :=
  let isTaken := g.snapshot.isSome || (g.pending.map (·.1)) == some .snapshot
  if name.takesSnapshot && !isTaken then
    match g.settle with
    | .error e => .error e
    | .ok g => .ok { g with pending := some (.snapshot, some argument) }
  else .error .unknownArgument

/-- Reads the arguments of a subcommand. Behind two dashes alone, all arguments are positional. -/
def readSubcommand (name : SubcommandName) :
    (trailing : Bool) → Given → List String → Except ArgumentError Given
  | _, g, [] => g.settle
  | true, g, argument :: rest =>
    match takePositional name g argument with
    | .error e => .error e
    | .ok g => readSubcommand name true g rest
  | false, g, argument :: rest =>
    if argument == "--" then readSubcommand name true g rest
    else
      match longOption? argument with
      | some (option, value) =>
        match readLong ⟨name.options, false⟩ g option value with
        | .error e => .error e
        | .ok g => readSubcommand name false g rest
      | none =>
        match shortOptions? argument with
        | some letters => .error (readShort ⟨name.options, false⟩ g letters)
        | none =>
          match g.pending with
          | some (option, none) =>
            readSubcommand name false { g with pending := some (option, some argument) } rest
          | _ =>
            match takePositional name g argument with
            | .error e => .error e
            | .ok g => readSubcommand name false g rest

/-- The subcommand that was given, if nothing it needs is missing. -/
def Given.subcommand (g : Given) : SubcommandName → Except ArgumentError Subcommand
  | .check =>
    match g.snapshot with
    | some snapshot => .ok (.check snapshot g.json)
    | none => .error .missingArgument
  | .refactor =>
    match g.snapshot, g.document, g.offset with
    | some snapshot, some document, some offset =>
      .ok (.refactor snapshot document offset (g.length.getD 0))
    | _, _, _ => .error .missingArgument
  | .annotate =>
    match g.snapshot with
    | some snapshot => .ok (.annotate snapshot)
    | none => .error .missingArgument
  | .showConfig => .ok .showConfig

/-- What asking for help on some subcommands shows. -/
def helpFor : List String → ArgumentError
  | [] => .help
  | name :: rest =>
    if ((SubcommandName.ofText? name).isSome || name == "help") && rest.isEmpty then .help
    else .invalidSubcommand

/-- Reads a command line without the name of the program. -/
def readArguments : (trailing : Bool) → Given → List String → Except ArgumentError Arguments
  | _, g, [] =>
    match g.settle with
    | .error e => .error e
    | .ok g => .error (if g.config.isSome then .missingSubcommand else .helpForNothing)
  | true, _, argument :: _ =>
    .error (if (SubcommandName.ofText? argument).isSome || argument == "help" then .unknownArgument
      else .invalidSubcommand)
  | false, g, argument :: rest =>
    let takesValue := match g.pending with
      | some (_, none) => true
      | _ => false
    if argument == "help" && !takesValue then .error (helpFor rest)
    else
      match (if takesValue then none else SubcommandName.ofText? argument) with
      | some name =>
        match readSubcommand name false {} rest with
        | .error e => .error e
        | .ok inner =>
          match inner.subcommand name with
          | .error e => .error e
          | .ok command =>
            match g.settle with
            | .error e => .error e
            | .ok g => .ok ⟨inner.config.or g.config, command⟩
      | none =>
        if argument == "--" then readArguments true g rest
        else
          match longOption? argument with
          | some (option, value) =>
            match readLong topLevel g option value with
            | .error e => .error e
            | .ok g => readArguments false g rest
          | none =>
            match shortOptions? argument with
            | some letters => .error (readShort topLevel g letters)
            | none =>
              match g.pending with
              | some (option, none) =>
                readArguments false { g with pending := some (option, some argument) } rest
              | _ => .error .invalidSubcommand

def Arguments.parse (arguments : List String) : Except ArgumentError Arguments :=
  readArguments false {} arguments

end TreeLint.Command
