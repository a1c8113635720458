import TreeLint.Text.Split

/-!
# Paths

Paths are texts with slashes between their parts, and all operations here are on the text: nothing
is looked up. Empty parts and single dots at the end of a path do not count, so the last part that
counts is its file name unless it is a dot or two.
-/

namespace TreeLint.Path

def parts (path : String) : List String := (Text.splitAt '/' path.toList).map String.ofList

def ofParts (parts : List String) : String :=
  String.ofList (Text.joinWith '/' (parts.map String.toList))

def isAbsolute (path : String) : Bool := path.toList.head? == some '/'

/-- Parts without those at the end that do not count, but for the first part. -/
def trimParts : List String → List String
  | [] => []
  | first :: rest =>
    first :: (rest.reverse.dropWhile fun part => part == "" || part == ".").reverse

/-- The last part of a path that counts, if it names something. -/
def fileName? (path : String) : Option String :=
  match (trimParts (parts path)).getLast? with
  | some part => if part == "" || part == "." || part == ".." then none else some part
  | none => none

/-- What a path is in. Neither a root nor an empty path is in anything. -/
def parent? (path : String) : Option String :=
  match trimParts (parts path) with
  | [] => none
  | [part] => if part == "" then none else some ""
  | first :: rest =>
    match trimParts ((first :: rest).dropLast) with
    | [""] => some "/"
    | outer => some (ofParts outer)

/-- Whether a file name has an extension: a dot that is not its first character. -/
def hasExtension (name : String) : Bool := name.toList.tail.contains '.'

/-- A path with an extension for its file name, if that has none. -/
def withExtension (path extension : String) : String :=
  match fileName? path with
  | none => path
  | some name =>
    if hasExtension name then path
    else ofParts (trimParts (parts path)) ++ "." ++ extension

/-- A path seen from a directory. -/
def join (directory path : String) : String :=
  if isAbsolute path then path
  else if directory.isEmpty then path
  else if directory.toList.getLast? = some '/' then directory ++ path
  else directory ++ "/" ++ path

end TreeLint.Path
