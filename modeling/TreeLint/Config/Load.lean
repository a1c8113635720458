import TreeLint.Config.Options
import TreeLint.Files.FileSystem
import TreeLint.Json.Decorated
import TreeLint.Json.Merge
import TreeLint.Json.Reader

/-!
# Loading configuration

A configuration file holds options as JSON with comments. It may extend another file, named
relative to itself and with its extension left out; what it sets itself then goes over what the
other file sets, key by key and into nested objects.

Extending may not come back to a file it started from, and since a file system knows finitely many
canonical paths, following it ends.
-/

namespace TreeLint

def configFileName : String := "sharpen.json"

/-- The key that names the file to extend. -/
def extendsKey : String := "extends"

/-- Why a text is no configuration. -/
inductive ConfigTextError where
  | malformed
  | notObject
  deriving DecidableEq, Repr

inductive ConfigError where
  | cycle (path : String)
  | unreadable (path : String) (cause : ReadError)
  | unparsable (path : String) (cause : ConfigTextError)
  | extendsNotString (path : String)
  | noParent
  /-- The values are not those of options. -/
  | invalid (path : String)
  deriving DecidableEq, Repr

/-- Why a single text is no options. -/
inductive ConfigParseError where
  | text (cause : ConfigTextError)
  | invalid
  deriving DecidableEq, Repr

namespace Config

open Json (Value)

def parseEntries (source : String) : Except ConfigTextError (List (String × Value)) :=
  match Json.parse (Json.strip source.toList) with
  | .error _ => .error .malformed
  | .ok value =>
    match value.distinct with
    | .object entries => .ok entries
    | _ => .error .notObject

/-- The options of a single text. What it extends is not followed. -/
def parse (source : String) : Except ConfigParseError AnalyzerOptions :=
  match parseEntries source with
  | .error cause => .error (.text cause)
  | .ok entries =>
    match AnalyzerOptions.ofJson? (.object (Json.dropEntry extendsKey entries)) with
    | some options => .ok options
    | none => .error .invalid

/-- The path of the file that the file at a path extends under a name. -/
def basePath? (path name : String) : Option String :=
  (Path.parent? path).map fun directory => Path.join directory (Path.withExtension name "json")

/-- The path of the file that a text at a path extends, if it is configuration that extends one. -/
def extendedPath? (path source : String) : Option String :=
  match parseEntries source with
  | .error _ => none
  | .ok entries =>
    match Json.lastValue? extendsKey entries with
    | some (.string name) => basePath? path name
    | _ => none

/-- The canonical path of a path, which is the path itself where there is nothing. -/
def canonicalOr (fs : FileSystem) (path : String) : String := (fs.canonical? path).getD path

/-- Visiting a readable path for the first time leaves fewer canonical paths to visit. -/
theorem length_unvisited_lt (fs : FileSystem) {visited : List String} {path source : String}
    (hread : fs.read path = .ok source) (hfresh : canonicalOr fs path ∉ visited) :
    (fs.known.filter (· ∉ canonicalOr fs path :: visited)).length <
      (fs.known.filter (· ∉ visited)).length := by
  obtain ⟨name, hname, hcanonical⟩ := fs.known_of_read path source hread
  have heq : canonicalOr fs path = name := by simp [canonicalOr, hcanonical]
  rw [← heq] at hname
  have hsub : (fs.known.filter (· ∉ canonicalOr fs path :: visited)) =
      (fs.known.filter (· ∉ visited)).filter (· ≠ canonicalOr fs path) := by
    rw [List.filter_filter]
    refine List.filter_congr fun x _ => ?_
    simp [not_or]
  rw [hsub]
  have hmem : canonicalOr fs path ∈ fs.known.filter (· ∉ visited) :=
    List.mem_filter.2 ⟨hname, by simpa using hfresh⟩
  exact List.length_filter_lt_length_iff_exists.2 ⟨canonicalOr fs path, hmem, by simp⟩

/-- What the file at a path sets, together with what it extends. `visited` holds the canonical paths
on the way here. -/
def loadValue (fs : FileSystem) (visited : List String) (path : String) :
    Except ConfigError Value :=
  if hseen : canonicalOr fs path ∈ visited then .error (.cycle (canonicalOr fs path))
  else
    match hread : fs.read path with
    | .error cause => .error (.unreadable path cause)
    | .ok source =>
      match parseEntries source with
      | .error cause => .error (.unparsable path cause)
      | .ok entries =>
        match Json.lastValue? extendsKey entries with
        | none => .ok (.object entries)
        | some (.string name) =>
          match basePath? path name with
          | none => .error .noParent
          | some base =>
            have := length_unvisited_lt fs hread hseen
            match loadValue fs (canonicalOr fs path :: visited) base with
            | .error e => .error e
            | .ok below => .ok (below.merge (.object (Json.dropEntry extendsKey entries)))
        | some _ => .error (.extendsNotString path)
termination_by (fs.known.filter (· ∉ visited)).length
decreasing_by exact this

def load (fs : FileSystem) (path : String) : Except ConfigError AnalyzerOptions :=
  match loadValue fs [] path with
  | .error e => .error e
  | .ok value =>
    match AnalyzerOptions.ofJson? value with
    | some options => .ok options
    | none => .error (.invalid path)

/-- The options of an explicit file, or else of the configuration file of a directory if it has
one, or else the defaults. -/
def resolve (fs : FileSystem) (explicit : Option String) (directory : String) :
    Except ConfigError AnalyzerOptions :=
  match explicit with
  | some path => load fs path
  | none =>
    let path := Path.join directory configFileName
    if fs.isFile path then load fs path else .ok {}

end Config

end TreeLint
