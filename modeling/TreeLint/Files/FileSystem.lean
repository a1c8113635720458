import TreeLint.Files.Path

/-!
# File systems

What the library needs to know of files: what a path canonically names, what can be read there, and
whether there is a file at all. A file system knows finitely many canonical paths, and every path
that can be read has one of them. That is what ends a search that follows files from one to the
next and never enters a canonical path twice.

A directory tree in memory is one such system, and so is a record of what was once read.
-/

namespace TreeLint

inductive ReadError where
  | notFound
  | isDirectory
  | notDirectory
  | other (description : String)
  deriving DecidableEq, Repr

structure FileSystem where
  canonical? : String → Option String
  read : String → Except ReadError String
  isFile : String → Bool
  known : List String
  known_of_read : ∀ path text, read path = .ok text → ∃ name ∈ known, canonical? path = some name

namespace FileSystem

/-! ## A directory tree in memory -/

/-- A directory tree: the text that names its top, and its files by the names on the way down. Every
directory on the way to a file exists. -/
structure Directory where
  top : String
  files : List (List String × String)

namespace Directory

def file? (dir : Directory) (names : List String) : Option String :=
  (dir.files.find? fun entry => entry.1 == names).map (·.2)

def isDirectory (dir : Directory) (names : List String) : Bool :=
  names.isEmpty || dir.files.any fun entry =>
    names.isPrefixOf entry.1 && names.length < entry.1.length

/-- The parts of a path below the top; relative paths start at the top. -/
def partsBelow? (dir : Directory) (path : String) : Option (List String) :=
  let top := Path.parts dir.top
  let parts := Path.parts path
  if top.isPrefixOf parts then some (parts.drop top.length)
  else if Path.isAbsolute path || path.isEmpty then none
  else some parts

/-- Follows parts down from a directory; `names` leads to where the walk stands. -/
def follow (dir : Directory) : (names : List String) → List String → Except ReadError (List String)
  | names, [] =>
    if dir.isDirectory names || (dir.file? names).isSome then .ok names else .error .notFound
  | names, part :: rest =>
    if dir.isDirectory names then
      if part == "" || part == "." then follow dir names rest
      else if part == ".." then
        if names.isEmpty then .error (if rest.isEmpty then .isDirectory else .notFound)
        else follow dir names.dropLast rest
      else follow dir (names ++ [part]) rest
    else if (dir.file? names).isSome then .error .notDirectory
    else .error .notFound

def resolve (dir : Directory) (path : String) : Except ReadError (List String) :=
  match dir.partsBelow? path with
  | some parts => dir.follow [] parts
  | none => .error .notFound

/-- The canonical path of a file or directory. -/
def pathOf (dir : Directory) (names : List String) : String :=
  Path.ofParts (Path.parts dir.top ++ names)

def read (dir : Directory) (path : String) : Except ReadError String :=
  match dir.resolve path with
  | .error e => .error e
  | .ok names =>
    match dir.file? names with
    | some text => .ok text
    | none => .error .isDirectory

def canonical? (dir : Directory) (path : String) : Option String :=
  match dir.resolve path with
  | .error _ => none
  | .ok names => some (dir.pathOf names)

end Directory

/-- The file system of a directory tree. -/
def ofTree (dir : Directory) : FileSystem where
  canonical? := dir.canonical?
  read := dir.read
  isFile path := (dir.read path).toOption.isSome
  known := dir.files.map fun entry => dir.pathOf entry.1
  known_of_read := by
    intro path text h
    unfold Directory.read at h
    unfold Directory.canonical?
    split at h
    · cases h
    · next names hr =>
      split at h
      · next found hf =>
        refine ⟨dir.pathOf names, ?_, rfl⟩
        unfold Directory.file? at hf
        obtain ⟨entry, he, -⟩ := Option.map_eq_some_iff.1 hf
        have hkey : entry.1 = names := by simpa using List.find?_some he
        rw [← hkey]
        exact List.mem_map.2 ⟨entry, List.mem_of_find?_eq_some he, rfl⟩
      · cases h

/-! ## A record of what was read -/

structure Observation where
  path : String
  canonical : Option String
  content : Except ReadError String

def observation? (record : List Observation) (path : String) : Option Observation :=
  record.find? fun o => o.path == path

/-- The file system that a record speaks of. A readable path without a canonical one is its own, and
what is there but could not be read is a file nevertheless. -/
def ofRecord (record : List Observation) : FileSystem where
  canonical? path := (observation? record path).map fun o => o.canonical.getD path
  read path :=
    match observation? record path with
    | some o => o.content
    | none => .error .notFound
  isFile path :=
    match observation? record path with
    | none => false
    | some o =>
      match o.content with
      | .ok _ | .error (.other _) => true
      | .error _ => false
  known := record.map fun o => o.canonical.getD o.path
  known_of_read := by
    intro path text h
    cases ho : observation? record path with
    | none => simp [ho] at h
    | some o =>
      have hp : o.path = path := by simpa [observation?] using List.find?_some ho
      refine ⟨o.canonical.getD path, ?_, by simp⟩
      rw [← hp]
      exact List.mem_map.2 ⟨o, List.mem_of_find?_eq_some ho, rfl⟩

end FileSystem

end TreeLint
