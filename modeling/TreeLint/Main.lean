import TreeLint.Command.Run

/-!
# The program

Reads the files that a command line is about, runs it on what was read and prints the outcome. All
decisions are made by `Command.run`; this module only looks at files and the terminal.
-/

namespace TreeLint.Command

open FileSystem (Observation)

/-- Why the system could not read a file. -/
def readErrorOf : IO.Error → ReadError
  | .noFileOrDirectory .. => .notFound
  | .inappropriateType _ _ "is a directory" => .isDirectory
  | .inappropriateType _ _ "not a directory" => .notDirectory
  | e => .other (toString e)

/-- What is found at a path. -/
def observe (path : String) : IO Observation := do
  let canonical ← try pure (some (← IO.FS.realPath path).toString) catch _ => pure none
  let content ← try pure (.ok (← IO.FS.readFile path)) catch e => pure (.error (readErrorOf e))
  return { path, canonical, content }

/-- Follows configuration from file to file, until one cannot be read or was read before. -/
partial def observeConfig (record : List Observation) (path : String) :
    IO (List Observation) := do
  let found ← observe path
  let extended := found :: record
  match found.content with
  | .error _ => return extended
  | .ok source =>
    if record.any fun o => o.canonical == found.canonical then return extended
    else
      match Config.extendedPath? path source with
      | some next => observeConfig extended next
      | none => return extended

/-- Everything at the paths that a command line leads to. -/
def observeAll (arguments : Arguments) (directory : String) : IO (List Observation) := do
  let start := arguments.config.getD (Path.join directory configFileName)
  let record ← observeConfig [] start
  match arguments.command.snapshot? with
  | some path => return (← observe path) :: record
  | none => return record

end TreeLint.Command

open TreeLint TreeLint.Command in
def main (arguments : List String) : IO UInt32 := do
  let directory := (← IO.currentDir).toString
  let colours ← (← IO.getStdout).isTty
  let record ← match Arguments.parse arguments with
    | .ok parsed => observeAll parsed directory
    | .error _ => pure []
  let outcome := run (.ofRecord record) directory colours arguments
  IO.print outcome.stdout
  IO.eprint outcome.stderr
  return outcome.status.toUInt32
