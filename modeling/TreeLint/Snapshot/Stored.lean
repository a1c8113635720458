import TreeLint.Snapshot.Basic

/-!
# Stored snapshots

A snapshot is read straight from its text. Each record is an object or a list of its fields in
order; an object may hold other keys, which are passed over, and a key that is known only once. What
is wrong first in the text is what a reading fails with, so a tree with a fault of its own is
reported even when something behind it is no JSON at all.
-/

namespace TreeLint

open Json (Reader Refusal Value)

namespace Json

/-- The field of a record that a reader is given: its key in an object, its place in a list. -/
def fieldIndex? (keys : List String) (key : String) : Option Nat :=
  let index := keys.idxOf key
  if index < keys.length then some index else none

/-- Reads a record. `field` reads the field with a number into what has been read so far, and
refuses one it has. -/
def readRecord {σ : Type} (keys : List String) (rounds depth : Nat)
    (field : (depth index : Nat) → σ → Reader σ) (state : σ) : Reader σ := fun text =>
  match depth, skipGap text with
  | depth + 1, '{' :: rest =>
    readObject readString (fun key state =>
      match fieldIndex? keys key with
      | some index => field depth index state
      | none => fun text =>
        match skipValue rounds rounds text with
        | .error refusal => .error refusal
        | .ok (_, rest) => .ok (state, rest)) rounds state rest
  | depth + 1, '[' :: rest =>
    match readList (fun (state : σ × Nat) text =>
        if state.2 < keys.length then
          match field depth state.2 state.1 text with
          | .error refusal => .error refusal
          | .ok (read, rest) => .ok ((read, state.2 + 1), rest)
        else .error .malformed) rounds (state, 0) rest with
    | .error refusal => .error refusal
    | .ok ((state, _), rest) => .ok (state, rest)
  | _, _ => .error .malformed

def readListOf {α : Type} (rounds depth : Nat) (item : (depth : Nat) → Reader α) :
    Reader (List α) := fun text =>
  match depth, skipGap text with
  | depth + 1, '[' :: rest =>
    match readList (collect (item depth)) rounds [] rest with
    | .error refusal => .error refusal
    | .ok (items, rest) => .ok (items.reverse, rest)
  | _, _ => .error .malformed

def readBool : Reader Bool := fun text =>
  match skipGap text with
  | 't' :: 'r' :: 'u' :: 'e' :: rest => .ok (true, rest)
  | 'f' :: 'a' :: 'l' :: 's' :: 'e' :: rest => .ok (false, rest)
  | _ => .error .malformed

def readStringOrNull : Reader (Option String) := fun text =>
  match skipGap text with
  | 'n' :: 'u' :: 'l' :: 'l' :: rest => .ok (none, rest)
  | _ =>
    match readString text with
    | .error refusal => .error refusal
    | .ok (s, rest) => .ok (some s, rest)

/-- Reads a value that is one word of an enumeration. -/
def readWord {α : Type} (rounds depth : Nat) (ofName? : String → Option α) : Reader α := fun text =>
  match readValue rounds depth text with
  | .error refusal => .error refusal
  | .ok (v, rest) =>
    match v.word?.bind ofName? with
    | some a => .ok (a, rest)
    | none => .error .malformed

/-- Reads a field that must not have been read before. -/
def readOnce {α σ : Type} (before : Option α) (reader : Reader α) (put : α → σ) : Reader σ :=
  fun text =>
    match before with
    | some _ => .error .malformed
    | none =>
      match reader text with
      | .error refusal => .error refusal
      | .ok (a, rest) => .ok (put a, rest)

/-- Turns what was read of a record into the record. -/
def finish {σ α : Type} (reader : Reader σ) (whole? : σ → Option α) : Reader α := fun text =>
  match reader text with
  | .error refusal => .error refusal
  | .ok (state, rest) =>
    match whole? state with
    | some a => .ok (a, rest)
    | none => .error .malformed

end Json

open Json

namespace DocumentSnapshot

structure Fields where
  name : Option String := none
  tree : Option Node := none

def read (rounds depth : Nat) : Reader DocumentSnapshot :=
  finish
    (readRecord ["name", "tree"] rounds depth (fun depth index (fields : Fields) =>
      match index with
      | 0 => readOnce fields.name readString fun name => { fields with name := some name }
      | _ => readOnce fields.tree (Node.readStored rounds depth) fun tree =>
          { fields with tree := some tree }) {})
    fun fields => do
      let name ← fields.name
      let tree ← fields.tree
      pure { name, tree }

def toJson (d : DocumentSnapshot) : Value :=
  .object [("name", .string d.name), ("tree", d.tree.toJson)]

end DocumentSnapshot

namespace TypeSnapshot

structure Fields where
  space : Option String := none
  name : Option String := none
  kind : Option TypeKind := none
  base : Option (Option String) := none
  interfaces : Option (List String) := none

def read (rounds depth : Nat) : Reader TypeSnapshot :=
  finish
    (readRecord ["namespace", "name", "kind", "base", "interfaces"] rounds depth
      (fun depth index (fields : Fields) =>
        match index with
        | 0 => readOnce fields.space readString fun space => { fields with space := some space }
        | 1 => readOnce fields.name readString fun name => { fields with name := some name }
        | 2 => readOnce fields.kind (readWord rounds depth TypeKind.ofName?) fun kind =>
            { fields with kind := some kind }
        | 3 => readOnce fields.base readStringOrNull fun base => { fields with base := some base }
        | _ => readOnce fields.interfaces (readListOf rounds depth fun _ => readString)
            fun interfaces => { fields with interfaces := some interfaces }) {})
    fun fields => do
      let name ← fields.name
      let kind ← fields.kind
      pure { space := fields.space.getD "", name, kind, base := fields.base.getD none
             interfaces := fields.interfaces.getD [] }

def toJson (t : TypeSnapshot) : Value :=
  .object ([("namespace", .string t.space), ("name", .string t.name), ("kind", .string t.kind.name)]
    ++ (match t.base with
      | some base => [("base", .string base)]
      | none => [])
    ++ (if t.interfaces.isEmpty then []
      else [("interfaces", .array (t.interfaces.map Value.string))]))

end TypeSnapshot

namespace LocalSnapshot

structure Fields where
  name : Option String := none
  type : Option String := none

def read (rounds depth : Nat) : Reader LocalSnapshot :=
  finish
    (readRecord ["name", "type"] rounds depth (fun _ index (fields : Fields) =>
      match index with
      | 0 => readOnce fields.name readString fun name => { fields with name := some name }
      | _ => readOnce fields.type readString fun type => { fields with type := some type }) {})
    fun fields => do
      let name ← fields.name
      let type ← fields.type
      pure { name, type }

def toJson (l : LocalSnapshot) : Value :=
  .object [("name", .string l.name), ("type", .string l.type)]

end LocalSnapshot

namespace Snapshot

structure Fields where
  looseFiles : Option Bool := none
  documents : Option (List DocumentSnapshot) := none
  types : Option (List TypeSnapshot) := none
  locals : Option (List LocalSnapshot) := none

def read (rounds depth : Nat) : Reader Snapshot :=
  finish
    (readRecord ["miscellaneous", "documents", "types", "locals"] rounds depth
      (fun depth index (fields : Fields) =>
        match index with
        | 0 => readOnce fields.looseFiles readBool fun looseFiles =>
            { fields with looseFiles := some looseFiles }
        | 1 => readOnce fields.documents (readListOf rounds depth (DocumentSnapshot.read rounds))
            fun documents => { fields with documents := some documents }
        | 2 => readOnce fields.types (readListOf rounds depth (TypeSnapshot.read rounds))
            fun types => { fields with types := some types }
        | _ => readOnce fields.locals (readListOf rounds depth (LocalSnapshot.read rounds))
            fun locals => { fields with locals := some locals }) {})
    fun fields => do
      let documents ← fields.documents
      pure { looseFiles := fields.looseFiles.getD false, documents
             types := fields.types.getD [], locals := fields.locals.getD [] }

def parse (text : String) : Except Refusal Snapshot :=
  let characters := text.toList
  readAll (read characters.length maxDepth) characters

def toJson (s : Snapshot) : Value :=
  .object [("miscellaneous", .bool s.looseFiles),
    ("documents", .array (s.documents.map DocumentSnapshot.toJson)),
    ("types", .array (s.types.map TypeSnapshot.toJson)),
    ("locals", .array (s.locals.map LocalSnapshot.toJson))]

end Snapshot

end TreeLint
