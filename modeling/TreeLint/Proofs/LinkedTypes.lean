import TreeLint.Proofs.BoundTypes
import TreeLint.Snapshot.Basic

/-!
# Declaring types and linking them

The types of a snapshot are put behind those of a table first, bare and in order, and are linked in
a second round, one after the other: each looks up its base and its interfaces by name and writes
them into its own entry. The index is complete by then and no entry is written twice, so a type
reads the same whatever its turn is.

A link can go wrong in two ways. A name is unknown, which the index alone decides. Or the base leads
back to the type, and what leads anywhere depends on who was linked before. All of it is links that
the table had and links that types ask for, though, so if these form no cycle no base is refused.
-/

namespace TreeLint

open SymbolTable
open Relation (TransGen ReflTransGen)

/-- Whether a table finds all of some names. -/
def SymbolTable.Knows (table : SymbolTable) (names : List String) : Prop :=
  ∀ name ∈ names, (table.find? name).isSome = true

namespace TypeSnapshot

/-- The type as it is declared, before it is linked. -/
def symbol (t : TypeSnapshot) : TypeSymbol := .bare t.space t.name t.kind

def metadataName (t : TypeSnapshot) : String := t.symbol.metadataName

/-- The name of the base: the one that is given, or the common root for a class. -/
def baseName? (t : TypeSnapshot) : Option String :=
  t.base.or (if t.kind = .classType then some objectName else none)

/-- The names that are looked up because the type gives them. -/
def mentions (t : TypeSnapshot) : List String := t.base.toList ++ t.interfaces

/-- The base of a type by the index of a table. -/
def baseIn? (table : SymbolTable) (t : TypeSnapshot) : Option TypeId := t.baseName?.bind table.find?

/-- The type as it is linked by the index of a table. -/
def linked (table : SymbolTable) (t : TypeSnapshot) : TypeSymbol :=
  { t.symbol with
    base := t.baseIn? table
    interfaces := (t.interfaces.filterMap table.find?).eraseDups }

/-- The table with a type linked. -/
def written (table : SymbolTable) (t : TypeSnapshot) (id : TypeId) : SymbolTable :=
  (t.interfaces.filterMap table.find?).foldl (fun table i => table.addInterface id i)
    (table.setBase? id (t.baseIn? table))

variable {table next : SymbolTable} {t : TypeSnapshot} {id : TypeId}

/-! ## Linking one type -/

theorem linkInterfaces_eq_ok (names : List String) :
    t.linkInterfaces id names table = .ok next ↔
      table.Knows names ∧
        next = (names.filterMap table.find?).foldl (fun table i => table.addInterface id i)
          table := by
  induction names generalizing table with
  | nil => simpa [linkInterfaces, Knows] using eq_comm
  | cons name rest ih =>
      rw [linkInterfaces, lookUp, Knows, List.forall_mem_cons]
      cases hfound : table.find? name with
      | none => simp
      | some i =>
          have hsame : (table.addInterface id i).find? = table.find? := rfl
          simp only [ih, Knows, hsame, hfound, Option.isSome_some, true_and,
            List.filterMap_cons, List.foldl_cons]

theorem base?_eq_ok {base : Option TypeId} (hroot : table.find? objectName ≠ some id) :
    t.base? table id = .ok base ↔ table.Knows t.base.toList ∧ base = t.baseIn? table := by
  unfold TypeSnapshot.base? baseIn? baseName? Knows
  cases t.base with
  | some name =>
      cases hfound : table.find? name with
      | none => simp [lookUp, hfound, Except.map]
      | some found => simpa [lookUp, hfound, Except.map] using eq_comm
  | none =>
      have hkept : (table.find? objectName).filter (fun object => object != id) =
          table.find? objectName := by
        cases hobject : table.find? objectName with
        | none => rfl
        | some object =>
            rw [hobject] at hroot
            have hne : object ≠ id := fun h => hroot (by rw [h])
            simp [hne]
      by_cases hclass : t.kind = .classType
      · simpa [hclass, hkept, object?] using eq_comm
      · simpa [hclass] using eq_comm

theorem linkBase_eq_ok (hroot : table.find? objectName ≠ some id) :
    t.linkBase table id = .ok next ↔
      table.Knows t.base.toList ∧
        (∀ base, t.baseIn? table = some base → table.acceptsBase id base = true) ∧
          next = table.setBase? id (t.baseIn? table) := by
  have hbase : ∀ base, t.base? table id = .ok base ↔
      table.Knows t.base.toList ∧ base = t.baseIn? table := fun _ => base?_eq_ok hroot
  unfold linkBase
  cases hresult : t.base? table id with
  | error e =>
      simp only [reduceCtorEq, false_iff]
      rintro ⟨hknown, -⟩
      have hok := (hbase _).2 ⟨hknown, rfl⟩
      rw [hresult] at hok
      cases hok
  | ok base =>
      obtain ⟨hknown, rfl⟩ := (hbase base).1 hresult
      cases hb : t.baseIn? table with
      | none => simpa [hknown, setBase?] using eq_comm
      | some base =>
          by_cases haccepts : table.acceptsBase id base = true
          · simpa [hknown, haccepts, setBase?] using eq_comm
          · simp [haccepts]

/-- A type is linked if the names it gives are known and it may have its base. -/
theorem link_eq_ok (hroot : table.find? objectName ≠ some id) :
    t.link table id = .ok next ↔
      table.Knows t.mentions ∧
        (∀ base, t.baseIn? table = some base → table.acceptsBase id base = true) ∧
          next = t.written table id := by
  have hbase : ∀ based, t.linkBase table id = .ok based ↔ table.Knows t.base.toList ∧
      (∀ base, t.baseIn? table = some base → table.acceptsBase id base = true) ∧
        based = table.setBase? id (t.baseIn? table) := fun _ => linkBase_eq_ok hroot
  have hmentions : table.Knows t.mentions ↔
      table.Knows t.base.toList ∧ table.Knows t.interfaces := List.forall_mem_append
  unfold link
  rw [hmentions]
  cases hresult : t.linkBase table id with
  | error e =>
      simp only [reduceCtorEq, false_iff]
      rintro ⟨⟨hknown, -⟩, haccepts, -⟩
      have hok := (hbase _).2 ⟨hknown, haccepts, rfl⟩
      rw [hresult] at hok
      cases hok
  | ok based =>
      obtain ⟨hknown, haccepts, rfl⟩ := (hbase based).1 hresult
      have hsame : (table.setBase? id (t.baseIn? table)).find? = table.find? :=
        find?_congr (places_setBase? table id _)
      simp only [linkInterfaces_eq_ok, Knows, hsame]
      exact ⟨fun h => ⟨⟨hknown, h.1⟩, haccepts, h.2⟩, fun h => ⟨h.1.2, h.2.2⟩⟩

theorem places_written (table : SymbolTable) (t : TypeSnapshot) (id : TypeId) :
    (t.written table id).places = table.places := by
  rw [written, places_addInterfaces, places_setBase?]

/-- Linking writes into the entry of the type and nowhere else. -/
theorem symbol?_linked (hs : table.symbol? id = some t.symbol)
    (haccepts : ∀ base, t.baseIn? table = some base → table.acceptsBase id base = true)
    (other : TypeId) : (t.written table id).symbol? other =
      if id = other then some (t.linked table) else table.symbol? other := by
  rw [written, symbol?_written hs rfl rfl haccepts]
  rfl

theorem reachable_written (h : Reachable table) (t : TypeSnapshot) (id : TypeId) :
    Reachable (t.written table id) := by
  have hbased : Reachable (table.setBase? id (t.baseIn? table)) := by
    cases hbase : t.baseIn? table with
    | none => exact h
    | some base =>
        obtain ⟨name, -, hname⟩ := Option.bind_eq_some_iff.1 hbase
        exact h.setBase id base (h.invariant.lt_size_of_find? hname)
  exact hbased.addInterfaces id _

theorem linked_congr {table' : SymbolTable} (hplaces : table.places = table'.places) :
    t.baseIn? table = t.baseIn? table' ∧ t.linked table = t.linked table' := by
  have hfind := find?_congr hplaces
  have hbase : t.baseIn? table = t.baseIn? table' := by rw [baseIn?, baseIn?, hfind]
  exact ⟨hbase, by rw [linked, linked, hbase, hfind]⟩

end TypeSnapshot

namespace Snapshot

open TypeSnapshot

variable {old table now next : SymbolTable} {types : List TypeSnapshot}

/-! ## Declaring types -/

/-- Types that a table knows none of, each with a name of its own. -/
structure NewTypes (table : SymbolTable) (types : List TypeSnapshot) : Prop where
  distinct : (types.map (·.metadataName)).Nodup
  absent : ∀ t ∈ types, table.find? t.metadataName = none

theorem NewTypes.push {t : TypeSnapshot} (h : NewTypes table (t :: types)) :
    NewTypes (table.push t.symbol) types := by
  obtain ⟨hdistinct, habsent⟩ := h
  rw [List.map_cons, List.nodup_cons] at hdistinct
  refine ⟨hdistinct.2, fun u hu => ?_⟩
  rw [find?_push, if_neg, habsent u (List.mem_cons_of_mem t hu)]
  exact fun heq => hdistinct.1 (List.mem_map.2 ⟨u, hu, heq⟩)

/-- New types go behind those of the table, in order. -/
theorem declareTypes_eq (h : NewTypes table types) : declareTypes table types =
    ((types.map symbol).foldl push table, types.zipIdx table.size) := by
  induction types generalizing table with
  | nil => rfl
  | cons t rest ih =>
      have hdeclare : table.declare t.space t.name t.kind = (table.push t.symbol, table.size) := by
        have habsent : table.find? (TypeSymbol.bare t.space t.name t.kind).metadataName = none :=
          h.absent t List.mem_cons_self
        simp only [declare, add, habsent]
        rfl
      rw [declareTypes, hdeclare]
      simp only [ih h.push, size_push]
      rfl

theorem symbol?_pushed (symbols : List TypeSymbol) (id : TypeId) :
    (symbols.foldl push table).symbol? id =
      if id < table.size then table.symbol? id else symbols[id - table.size]? := by
  induction symbols generalizing table with
  | nil =>
      split
      · rfl
      · next h => exact (symbol?_eq_none id).2 (Nat.le_of_not_lt h)
  | cons s rest ih =>
      rw [List.foldl_cons, ih, size_push, symbol?_push]
      rcases Nat.lt_trichotomy id table.size with hlt | heq | hgt
      · rw [if_pos (Nat.lt_succ_of_lt hlt), if_pos hlt, if_neg (Nat.ne_of_lt hlt)]
      · rw [if_pos (Nat.lt_succ_of_le (Nat.le_of_eq heq)), if_pos heq,
          if_neg (Nat.not_lt.2 (Nat.le_of_eq heq.symm)), heq, Nat.sub_self]
        rfl
      · have hsub : id - table.size = id - (table.size + 1) + 1 :=
          (Nat.sub_add_cancel (Nat.sub_pos_of_lt hgt)).symm
        rw [if_neg (Nat.not_lt.2 hgt), if_neg (Nat.not_lt.2 (Nat.le_of_lt hgt)), hsub,
          List.getElem?_cons_succ]

/-- A table with the bare types of a snapshot behind those that it had, and the place of each. -/
structure Declared (old : SymbolTable) (types : List TypeSnapshot) (table : SymbolTable)
    (declared : List (TypeSnapshot × TypeId)) : Prop where
  kept : ∀ id < old.size, table.symbol? id = old.symbol? id
  new : ∀ e ∈ declared, e.1 ∈ types ∧ old.size ≤ e.2 ∧ table.symbol? e.2 = some e.1.symbol
  distinct : (declared.map (·.2)).Nodup
  every : ∀ t ∈ types, ∃ id, (t, id) ∈ declared
  only : ∀ id s, table.symbol? id = some s → id < old.size ∨ ∃ t, (t, id) ∈ declared

theorem declared_declareTypes (h : NewTypes old types) :
    Declared old types (declareTypes old types).1 (declareTypes old types).2 := by
  rw [declareTypes_eq h]
  have hmem : ∀ {t : TypeSnapshot} {id : TypeId}, (t, id) ∈ types.zipIdx old.size ↔
      old.size ≤ id ∧ types[id - old.size]? = some t := List.mk_mem_zipIdx_iff_le_and_getElem?_sub
  refine ⟨fun id hid => ?_, fun e he => ?_, ?_, fun t ht => ?_, fun id s hs => ?_⟩
  · rw [symbol?_pushed, if_pos hid]
  · obtain ⟨hle, ht⟩ := hmem.1 he
    refine ⟨List.mem_of_getElem? ht, hle, ?_⟩
    rw [symbol?_pushed, if_neg (Nat.not_lt.2 hle), List.getElem?_map, ht, Option.map_some]
  · rw [List.zipIdx_map_snd]
    exact List.nodup_range'
  · obtain ⟨i, hi⟩ := List.getElem?_of_mem ht
    exact ⟨old.size + i, hmem.2 ⟨Nat.le_add_right _ _, by rw [Nat.add_sub_cancel_left, hi]⟩⟩
  · rw [symbol?_pushed] at hs
    split at hs
    · next hlt => exact .inl hlt
    · next hle =>
        rw [List.getElem?_map] at hs
        obtain ⟨t, ht, -⟩ := Option.map_eq_some_iff.1 hs
        exact .inr ⟨t, hmem.2 ⟨Nat.le_of_not_lt hle, ht⟩⟩

theorem reachable_declareTypes (h : Reachable old) (types : List TypeSnapshot) :
    Reachable (declareTypes old types).1 := by
  induction types generalizing old with
  | nil => exact h
  | cons t rest ih => exact ih (h.declare t.space t.name t.kind)

/-! ## Linking all types -/

/-- A table in which some types still wait to be linked by the index of another. -/
structure Waiting (table now : SymbolTable) (todo : List (TypeSnapshot × TypeId)) : Prop where
  reachable : Reachable now
  places : now.places = table.places
  bare : ∀ e ∈ todo, now.symbol? e.2 = some e.1.symbol
  distinct : (todo.map (·.2)).Nodup
  not_root : ∀ e ∈ todo, table.find? objectName ≠ some e.2

/-- What linking the first of some waiting types comes to. -/
theorem Waiting.link_eq_ok {e : TypeSnapshot × TypeId} {todo : List (TypeSnapshot × TypeId)}
    (h : Waiting table now (e :: todo)) : e.1.link now e.2 = .ok next ↔
      table.Knows e.1.mentions ∧
        (∀ base, e.1.baseIn? table = some base → now.acceptsBase e.2 base = true) ∧
          next = e.1.written now e.2 := by
  have hfind := find?_congr h.places
  rw [TypeSnapshot.link_eq_ok (by rw [hfind]; exact h.not_root e List.mem_cons_self),
    (linked_congr h.places).1, Knows, Knows, hfind]

theorem Waiting.symbol?_written {e : TypeSnapshot × TypeId}
    {todo : List (TypeSnapshot × TypeId)} (h : Waiting table now (e :: todo))
    (haccepts : ∀ base, e.1.baseIn? table = some base → now.acceptsBase e.2 base = true)
    (other : TypeId) : (e.1.written now e.2).symbol? other =
      if e.2 = other then some (e.1.linked table) else now.symbol? other := by
  obtain ⟨hbase, hlinked⟩ := linked_congr (t := e.1) h.places
  rw [symbol?_linked (h.bare e List.mem_cons_self) (by rw [hbase]; exact haccepts), hlinked]

theorem Waiting.step {e : TypeSnapshot × TypeId} {todo : List (TypeSnapshot × TypeId)}
    (h : Waiting table now (e :: todo))
    (haccepts : ∀ base, e.1.baseIn? table = some base → now.acceptsBase e.2 base = true) :
    Waiting table (e.1.written now e.2) todo := by
  have hdistinct := h.distinct
  rw [List.map_cons, List.nodup_cons] at hdistinct
  refine ⟨reachable_written h.reachable e.1 e.2, by rw [places_written, h.places], fun d hd => ?_,
    hdistinct.2, fun d hd => h.not_root d (List.mem_cons_of_mem e hd)⟩
  rw [h.symbol?_written haccepts, if_neg, h.bare d (List.mem_cons_of_mem e hd)]
  exact fun heq => hdistinct.1 (List.mem_map.2 ⟨d, hd, heq.symm⟩)

/-- A table in which some types that waited before are linked, the others as they were. -/
structure AllLinked (table now next : SymbolTable) (todo : List (TypeSnapshot × TypeId)) :
    Prop where
  reachable : Reachable next
  places : next.places = table.places
  known : ∀ e ∈ todo, table.Knows e.1.mentions
  linked : ∀ e ∈ todo, next.symbol? e.2 = some (e.1.linked table)
  kept : ∀ id, (∀ e ∈ todo, e.2 ≠ id) → next.symbol? id = now.symbol? id

/-- What a run that ends well says of the types it was given and leaves behind. -/
theorem Waiting.allLinked {todo : List (TypeSnapshot × TypeId)} (h : Waiting table now todo)
    (hok : linkTypes todo now = .ok next) : AllLinked table now next todo := by
  induction todo generalizing now with
  | nil =>
      cases hok
      exact ⟨h.reachable, h.places, fun e he => (List.not_mem_nil he).elim,
        fun e he => (List.not_mem_nil he).elim, fun _ _ => rfl⟩
  | cons e rest ih =>
      rw [linkTypes] at hok
      split at hok
      · cases hok
      · next based hlink =>
          obtain ⟨hknown, haccepts, rfl⟩ := h.link_eq_ok.1 hlink
          have hwritten := h.symbol?_written haccepts
          obtain ⟨hreachable, hplaces, hothers, hlinked, hkept⟩ := ih (h.step haccepts) hok
          have hdistinct := h.distinct
          rw [List.map_cons, List.nodup_cons] at hdistinct
          have hfirst : next.symbol? e.2 = some (e.1.linked table) := by
            rw [hkept e.2 fun d hd heq => hdistinct.1 (List.mem_map.2 ⟨d, hd, heq⟩), hwritten,
              if_pos rfl]
          refine ⟨hreachable, hplaces, List.forall_mem_cons.2 ⟨hknown, hothers⟩,
            List.forall_mem_cons.2 ⟨hfirst, hlinked⟩, fun id hid => ?_⟩
          rw [List.forall_mem_cons] at hid
          rw [hkept id hid.2, hwritten, if_neg hid.1]

/-- A link of a table, or one that a type asks for by the index of another. -/
def MayLink (old table : SymbolTable) (declared : List (TypeSnapshot × TypeId))
    (id base : TypeId) : Prop :=
  old.Link id base ∨ ∃ t, (t, id) ∈ declared ∧ t.baseIn? table = some base

/-- Types are linked to the last if all names they give are known and the bases they ask for form no
cycle with the links of the table. -/
theorem Waiting.exists_linkTypes {declared todo : List (TypeSnapshot × TypeId)}
    (h : Waiting table now todo) (hsub : ∀ e ∈ todo, e ∈ declared)
    (hknown : ∀ e ∈ todo, table.Knows e.1.mentions)
    (hlinks : ∀ id base, now.Link id base → MayLink old table declared id base)
    (hacyclic : ∀ id, ¬ TransGen (MayLink old table declared) id id) :
    ∃ next, linkTypes todo now = .ok next := by
  induction todo generalizing now with
  | nil => exact ⟨now, rfl⟩
  | cons e rest ih =>
      rw [List.forall_mem_cons] at hsub hknown
      have hasked : ∀ base, e.1.baseIn? table = some base →
          MayLink old table declared e.2 base := fun base hbase => .inr ⟨e.1, hsub.1, hbase⟩
      have haccepts : ∀ base, e.1.baseIn? table = some base →
          now.acceptsBase e.2 base = true := by
        intro base hbase
        have hid : e.2 < now.size := lt_size_of_symbol? (h.bare e List.mem_cons_self)
        have hback : e.2 ∉ now.chain base := fun hmem => by
          have hreach : ReflTransGen (MayLink old table declared) base e.2 :=
            ReflTransGen.mono hlinks _ _ (reaches_of_mem_chainFrom hmem)
          exact hacyclic e.2 (.head' (hasked base hbase) hreach)
        simp [acceptsBase, hback, hid]
      -- what carries the induction: no link is added but one that a type asks for
      have hlinks' : ∀ id base, (e.1.written now e.2).Link id base →
          MayLink old table declared id base := by
        intro id base hlink
        rw [Link, base?_eq, h.symbol?_written haccepts] at hlink
        split at hlink
        · next heq =>
            subst heq
            exact hasked base hlink
        · rw [← base?_eq] at hlink
          exact hlinks id base hlink
      rw [linkTypes, h.link_eq_ok.2 ⟨hknown.1, haccepts, rfl⟩]
      exact ih (h.step haccepts) hsub.2 hknown.2 hlinks'

end Snapshot

end TreeLint
