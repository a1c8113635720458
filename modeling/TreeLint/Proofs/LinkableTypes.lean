import TreeLint.Proofs.HierarchyByName
import TreeLint.Proofs.LinkedTypes
import TreeLint.Proofs.TableGrowth

/-!
# Which types can be linked

Whether a list of types goes into a table is decided by names alone: every name that a type gives
has to be known, and the bases that are given may not lead round in a circle. The walk over the list
reads places instead, and it also follows links that nobody gave: the common root of classes, and
what the table had before. Neither adds a circle. A link that was there leads to a type that was
there, so no walk comes back from these to the new types.

Names are all that the result depends on as well. What is said of a new type is what its own entry
in the list says, and the order of the entries does not come into it.
-/

namespace TreeLint

/-- The name of the type at a place, empty if there is none. -/
def SymbolTable.nameAt (table : SymbolTable) (id : TypeId) : String :=
  (table.metadataName? id).getD ""

namespace Snapshot

open SymbolTable TypeSnapshot
open Relation (TransGen)

variable {old table : SymbolTable} {types types' : List TypeSnapshot}

/-- A base that one of some types gives, both by name. -/
def BaseLink (types : List TypeSnapshot) (name base : String) : Prop :=
  ∃ t ∈ types, t.metadataName = name ∧ t.base = some base

/-- Types that only give names which a table or one of them has, and bases that form no cycle. -/
structure Linkable (old : SymbolTable) (types : List TypeSnapshot) : Prop where
  known : ∀ t ∈ types, ∀ name ∈ t.mentions,
    (old.find? name).isSome = true ∨ ∃ u ∈ types, u.metadataName = name
  acyclic : ∀ name, ¬ TransGen (BaseLink types) name name

theorem Linkable.of_mem (h : Linkable old types) (hmem : ∀ t, t ∈ types ↔ t ∈ types') :
    Linkable old types' where
  known := fun t ht name hname => by
    obtain hold | ⟨u, hu, hname⟩ := h.known t ((hmem t).2 ht) name hname
    · exact .inl hold
    · exact .inr ⟨u, (hmem u).1 hu, hname⟩
  acyclic := fun name hcycle => h.acyclic name <| TransGen.mono
    (fun _ _ hlink => by
      obtain ⟨t, ht, hlink⟩ := hlink
      exact ⟨t, (hmem t).2 ht, hlink⟩) name name hcycle

/-! ## The index over declared types -/

namespace Declared

variable {declared : List (TypeSnapshot × TypeId)} (h : Declared old types table declared)

include h

theorem symbol?_old {id : TypeId} {s : TypeSymbol} (hs : old.symbol? id = some s) :
    table.symbol? id = some s := by
  rw [h.kept id (lt_size_of_symbol? hs), hs]

/-- The new types are bare, so the links are those of the old types. -/
theorem link_old {id base : TypeId} (hlink : table.Link id base) : old.Link id base := by
  rw [Link, base?_eq] at hlink ⊢
  obtain ⟨s, hs, hbase⟩ := Option.bind_eq_some_iff.1 hlink
  rcases h.only id s hs with hlt | ⟨t, hmem⟩
  · rw [← h.kept id hlt, hs, Option.bind_some, hbase]
  · have hsymbol := (h.new _ hmem).2.2
    obtain rfl : s = t.symbol := Option.some.inj (hs.symm.trans hsymbol)
    cases hbase

variable (inv : table.Invariant)

include inv

theorem find?_new {t : TypeSnapshot} {id : TypeId} (hmem : (t, id) ∈ declared) :
    table.find? t.metadataName = some id :=
  inv.find?_symbol (h.new _ hmem).2.2

variable (hold : old.Invariant)

include hold

theorem find?_old {name : String} {id : TypeId} (hfound : old.find? name = some id) :
    table.find? name = some id := by
  obtain ⟨s, hs, rfl⟩ := (hold.indexed _ _).1 hfound
  exact inv.find?_symbol (h.symbol?_old hs)

/-- A name is found as an old type or as one of the new ones. -/
theorem of_find? {name : String} {id : TypeId} (hfound : table.find? name = some id) :
    old.find? name = some id ∨ ∃ t, (t, id) ∈ declared ∧ t.metadataName = name := by
  obtain ⟨s, hs, rfl⟩ := (inv.indexed _ _).1 hfound
  rcases h.only id s hs with hlt | ⟨t, hmem⟩
  · rw [h.kept id hlt] at hs
    exact .inl (hold.find?_symbol hs)
  · have hsymbol := (h.new _ hmem).2.2
    obtain rfl : s = t.symbol := Option.some.inj (hs.symm.trans hsymbol)
    exact .inr ⟨t, hmem, rfl⟩

theorem known_iff (name : String) : (table.find? name).isSome = true ↔
    (old.find? name).isSome = true ∨ ∃ u ∈ types, u.metadataName = name := by
  constructor
  · intro hsome
    obtain ⟨id, hfound⟩ := Option.isSome_iff_exists.1 hsome
    rcases h.of_find? inv hold hfound with hfound | ⟨t, hmem, hname⟩
    · exact .inl (by rw [hfound, Option.isSome_some])
    · exact .inr ⟨t, (h.new _ hmem).1, hname⟩
  · rintro (hsome | ⟨u, hu, rfl⟩)
    · obtain ⟨id, hfound⟩ := Option.isSome_iff_exists.1 hsome
      rw [h.find?_old inv hold hfound, Option.isSome_some]
    · obtain ⟨id, hmem⟩ := h.every u hu
      rw [h.find?_new inv hmem, Option.isSome_some]

theorem knows_mentions_iff : (∀ t ∈ types, table.Knows t.mentions) ↔
    ∀ t ∈ types, ∀ name ∈ t.mentions,
      (old.find? name).isSome = true ∨ ∃ u ∈ types, u.metadataName = name := by
  simp only [Knows, h.known_iff inv hold]

variable {root : TypeId} (hroot : old.find? objectName = some root)

include hroot

/-- The common root is not one of the new types. -/
theorem not_root : ∀ e ∈ declared, table.find? objectName ≠ some e.2 := by
  intro e he heq
  rw [h.find?_old inv hold hroot] at heq
  have hlt := hold.lt_size_of_find? hroot
  rw [Option.some.inj heq] at hlt
  exact Nat.not_lt.2 (h.new e he).2.1 hlt

/-! ## Cycles of places and cycles of names -/

/-- A base that is one of the new types was given by name: the common root is no new type. -/
theorem baseLink {t : TypeSnapshot} {id base : TypeId} (hmem : (t, id) ∈ declared)
    (hbase : t.baseIn? table = some base) (hnew : ¬ base < old.size) :
    BaseLink types (table.nameAt id) (table.nameAt base) := by
  obtain ⟨name, hname, hfound⟩ := Option.bind_eq_some_iff.1 hbase
  have hgiven : t.base = some name := by
    rcases Option.or_eq_some_iff.1 hname with hgiven | ⟨-, hdefault⟩
    · exact hgiven
    · split at hdefault
      · cases hdefault
        rw [h.find?_old inv hold hroot] at hfound
        exact absurd (Option.some.inj hfound ▸ hold.lt_size_of_find? hroot) hnew
      · cases hdefault
  refine ⟨t, (h.new _ hmem).1, ?_, ?_⟩
  · rw [nameAt, inv.metadataName?_of_find? (h.find?_new inv hmem), Option.getD_some]
  · rw [nameAt, inv.metadataName?_of_find? hfound, Option.getD_some, hgiven]

/-- If no cycle of bases is given by name, none is asked for by place. -/
theorem acyclic_mayLink (hacyclic : ∀ name, ¬ TransGen (BaseLink types) name name) (id : TypeId) :
    ¬ TransGen (MayLink old table declared) id id := by
  have hnew : ∀ {t x}, (t, x) ∈ declared → ¬ x < old.size := fun hmem =>
    Nat.not_lt.2 (h.new _ hmem).2.1
  have hclosed : ∀ {x y}, MayLink old table declared x y → x < old.size → y < old.size := by
    rintro x y (hlink | ⟨t, hmem, -⟩) hx
    · exact hold.present x y hlink
    · exact absurd hx (hnew hmem)
  intro hcycle
  -- no walk leads back from the old types to the new ones, so a cycle stays among either
  rcases cycle_within (r := MayLink old table declared) hclosed hcycle with hinside | houtside
  · refine hold.acyclic id (TransGen.mono ?_ id id hinside)
    rintro x y ⟨hlink | ⟨t, hmem, -⟩, hx⟩
    · exact hlink
    · exact absurd hx (hnew hmem)
  · refine hacyclic _ (TransGen.lift table.nameAt ?_ id id houtside)
    rintro x y ⟨hlink | ⟨t, hmem, hbase⟩, hy⟩
    · exact absurd (hold.present x y hlink) hy
    · exact h.baseLink inv hold hroot hmem hbase hy

end Declared

/-! ## What is said of linked types -/

/-- What is said of a type that is linked as its own entry has it. -/
def described (t : TypeSnapshot) : Description where
  name := t.name
  space? := t.symbol.space?
  kind := t.kind
  isObject := false
  base := t.baseName?
  interfaces := t.interfaces.eraseDups

/-- A table that says of some new types what their entries say, and of all others what another
table says. -/
structure Describes (old table : SymbolTable) (types : List TypeSnapshot) : Prop where
  declared : ∀ t ∈ types, table.describe? t.metadataName = some (described t)
  rest : ∀ name, (∀ t ∈ types, t.metadataName ≠ name) → table.describe? name = old.describe? name

/-- Two tables that take the same types from the same table say the same. -/
theorem Describes.sameHierarchy {table' : SymbolTable} (h : Describes old table types)
    (h' : Describes old table' types') (hmem : ∀ t, t ∈ types ↔ t ∈ types') :
    SameHierarchy table table' := by
  intro name
  by_cases hnew : ∃ t ∈ types, t.metadataName = name
  · obtain ⟨t, ht, rfl⟩ := hnew
    rw [h.declared t ht, h'.declared t ((hmem t).1 ht)]
  · have hrest : ∀ t ∈ types, t.metadataName ≠ name := fun t ht heq => hnew ⟨t, ht, heq⟩
    rw [h.rest name hrest, h'.rest name fun t ht => hrest t ((hmem t).2 ht)]

/-- Names that are all known go to places and back. -/
theorem filterMap_metadataName? (inv : table.Invariant) {names : List String}
    (hknown : table.Knows names) :
    ((names.filterMap table.find?).eraseDups).filterMap table.metadataName? = names.eraseDups := by
  have hplace : ∀ name ∈ names, table.find? name = some ((table.find? name).getD 0) := by
    intro name hname
    obtain ⟨id, hid⟩ := Option.isSome_iff_exists.1 (hknown name hname)
    rw [hid, Option.getD_some]
  have hback : ∀ name ∈ names, table.metadataName? ((table.find? name).getD 0) = some name :=
    fun name hname => inv.metadataName?_of_find? (hplace name hname)
  have hinj : ∀ name ∈ names, ∀ other ∈ names,
      (table.find? name).getD 0 = (table.find? other).getD 0 → name = other := by
    intro name hname other hother heq
    have hsame := hback name hname
    rw [heq, hback other hother] at hsame
    exact (Option.some.inj hsame).symm
  have hplaces : names.filterMap table.find? = names.map fun name => (table.find? name).getD 0 := by
    rw [List.filterMap_congr hplace, List.filterMap_eq_map']
  rw [hplaces, eraseDups_map names hinj, List.filterMap_map]
  exact (List.filterMap_congr fun name hname => hback name (List.mem_eraseDups.1 hname)).trans
    List.filterMap_some

/-- What is said of a type that is linked by a complete index. -/
theorem description_linked (inv : table.Invariant) {t : TypeSnapshot}
    (hknown : table.Knows t.mentions) {root : TypeId} (hroot : table.find? objectName = some root) :
    table.description (t.linked table) = described t := by
  have hgiven : table.Knows t.base.toList := fun name hname =>
    hknown name (List.mem_append_left _ hname)
  have hbase : (t.baseIn? table).bind table.metadataName? = t.baseName? := by
    cases hname : t.baseName? with
    | none => rw [baseIn?, hname, Option.bind_none, Option.bind_none]
    | some name =>
        obtain ⟨id, hid⟩ : ∃ id, table.find? name = some id := by
          rcases Option.or_eq_some_iff.1 hname with hbase | ⟨-, hdefault⟩
          · exact Option.isSome_iff_exists.1 (hgiven name (by rw [hbase]; exact List.mem_cons_self))
          · split at hdefault
            · cases hdefault
              exact ⟨root, hroot⟩
            · cases hdefault
        rw [baseIn?, hname, Option.bind_some, hid, Option.bind_some, inv.metadataName?_of_find? hid]
  have hlisted : table.Knows t.interfaces := fun name hname =>
    hknown name (List.mem_append_right _ hname)
  have hinterfaces := filterMap_metadataName? inv hlisted
  rw [description, described, ← hbase, ← hinterfaces]
  rfl

/-! ## Linking new types -/

namespace Declared

variable {declared : List (TypeSnapshot × TypeId)} {linked : SymbolTable}
  (h : Declared old types table declared) (reachable : Reachable table) (hold : old.Invariant)

include h reachable hold

/-- Types that are all linked could be. -/
theorem linkable (hall : AllLinked table table linked declared) : Linkable old types := by
  have inv := reachable.invariant
  have hknown : ∀ t ∈ types, table.Knows t.mentions := fun t ht => by
    obtain ⟨id, hmem⟩ := h.every t ht
    exact hall.known _ hmem
  refine ⟨(h.knows_mentions_iff inv hold).1 hknown, fun name hcycle => ?_⟩
  -- each base that is given by name has become a link between the places of the two names
  refine hall.reachable.invariant.acyclic _
    (TransGen.lift (fun name => (table.find? name).getD 0) ?_ name name hcycle)
  rintro _ base ⟨t, ht, rfl, hbase⟩
  obtain ⟨id, hmem⟩ := h.every t ht
  have hgiven : base ∈ t.mentions := List.mem_append_left _ (by rw [hbase]; exact .head _)
  obtain ⟨place, hplace⟩ := Option.isSome_iff_exists.1 (hknown t ht base hgiven)
  have hasked : t.baseIn? table = some place := by
    rw [baseIn?, baseName?, hbase, Option.some_or, Option.bind_some, hplace]
  simp only [h.find?_new inv hmem, hplace, Option.getD_some, Link, base?_eq, hall.linked _ hmem,
    Option.bind_some]
  exact hasked

theorem describe?_old (hall : AllLinked table table linked declared)
    (present : old.InterfacesPresent) {name : String} (hrest : ∀ t ∈ types, t.metadataName ≠ name) :
    linked.describe? name = old.describe? name := by
  have hkept : ∀ id s, old.symbol? id = some s → linked.symbol? id = some s := by
    intro id s hs
    rw [hall.kept id, h.symbol?_old hs]
    rintro e he rfl
    exact Nat.not_lt.2 (h.new e he).2.1 (lt_size_of_symbol? hs)
  cases hfound : old.find? name with
  | none =>
      have hnone : linked.find? name = none := by
        rw [find?_congr hall.places]
        refine Option.eq_none_iff_forall_ne_some.2 fun id hid => ?_
        rcases h.of_find? reachable.invariant hold hid with hsome | ⟨t, hmem, hname⟩
        · rw [hfound] at hsome
          cases hsome
        · exact hrest t (h.new _ hmem).1 hname
      rw [describe?, describe?, hfound, hnone, Option.bind_none, Option.bind_none]
  | some id =>
      obtain ⟨s, hs, rfl⟩ := (hold.indexed _ _).1 hfound
      rw [hall.reachable.invariant.describe?_eq (hkept id s hs), hold.describe?_eq hs,
        description_kept hkept hold present hs]

variable {root : TypeId} (hroot : old.find? objectName = some root)

include hroot

theorem waiting : Waiting table table declared where
  reachable := reachable
  places := rfl
  bare := fun e he => (h.new e he).2.2
  distinct := h.distinct
  not_root := h.not_root reachable.invariant hold hroot

/-- New types are linked exactly if they can be. -/
theorem exists_linkTypes_iff :
    (∃ linked, linkTypes declared table = .ok linked) ↔ Linkable old types := by
  have inv := reachable.invariant
  have hwaiting := h.waiting reachable hold hroot
  constructor
  · rintro ⟨linked, hok⟩
    exact h.linkable reachable hold (hwaiting.allLinked hok)
  · intro hlinkable
    refine hwaiting.exists_linkTypes (fun _ he => he) (fun e he => ?_)
      (fun _ _ hlink => .inl (h.link_old hlink))
      (h.acyclic_mayLink inv hold hroot hlinkable.acyclic)
    exact (h.knows_mentions_iff inv hold).2 hlinkable.known e.1 (h.new e he).1

theorem describe?_new (hall : AllLinked table table linked declared) {t : TypeSnapshot}
    (ht : t ∈ types) : linked.describe? t.metadataName = some (described t) := by
  have hlinked := hall.reachable.invariant
  have hfind := find?_congr hall.places
  obtain ⟨id, hmem⟩ := h.every t ht
  have hsymbol : linked.symbol? id = some (t.linked linked) := by
    rw [(linked_congr hall.places).2, hall.linked _ hmem]
  have hknown : linked.Knows t.mentions := by
    rw [Knows, hfind]
    exact hall.known _ hmem
  have hname : (t.linked linked).metadataName = t.metadataName := rfl
  rw [← hname, hlinked.describe?_eq hsymbol, description_linked hlinked hknown
    (by rw [hfind, h.find?_old reachable.invariant hold hroot])]

/-- New types that are linked read as their entries have them, and all others as before. -/
theorem describes (present : old.InterfacesPresent) (hok : linkTypes declared table = .ok linked) :
    Describes old linked types := by
  have hall := (h.waiting reachable hold hroot).allLinked hok
  exact ⟨fun t ht => h.describe?_new reachable hold hroot hall ht,
    fun name hrest => h.describe?_old reachable hold hall present hrest⟩

end Declared

/-! ## The types of a snapshot -/

theorem NewTypes.of_perm (h : NewTypes old types) (hperm : types.Perm types') :
    NewTypes old types' where
  distinct := (hperm.map (·.metadataName)).nodup_iff.1 h.distinct
  absent := fun t ht => h.absent t (hperm.mem_iff.2 ht)

/-- What putting some types behind the core library comes to. -/
structure LinksInAnyOrder (types : List TypeSnapshot) : Prop where
  succeeds_iff : (∃ table, symbolTable types = .ok table) ↔ Linkable core types
  describes : ∀ table, symbolTable types = .ok table → Describes core table types
  anyOrder : ∀ types', types.Perm types' →
    ((∃ table, symbolTable types = .ok table) ↔ ∃ table', symbolTable types' = .ok table') ∧
      ∀ table table', symbolTable types = .ok table → symbolTable types' = .ok table' →
        SameHierarchy table table'

/-- Types with names of their own, none of them a name of the core library, go into a table exactly
if all names they give are known and their bases form no cycle, and neither this nor what is said of
them then depends on their order. -/
theorem linksInAnyOrder_of_new (h : NewTypes core types) : LinksInAnyOrder types := by
  have hroot : core.find? objectName = some 0 := by decide
  have hiff : ∀ {types}, NewTypes core types →
      ((∃ table, symbolTable types = .ok table) ↔ Linkable core types) := fun {types} h =>
    (declared_declareTypes h).exists_linkTypes_iff (reachable_declareTypes .core types)
      invariant_core hroot
  have hdescribes : ∀ {types}, NewTypes core types → ∀ {table}, symbolTable types = .ok table →
      Describes core table types := fun {types} h {_} hok =>
    (declared_declareTypes h).describes (reachable_declareTypes .core types) invariant_core hroot
      interfacesPresent_core hok
  refine ⟨hiff h, fun table hok => hdescribes h hok, fun types' hperm => ⟨?_, ?_⟩⟩
  · have hsame : Linkable core types ↔ Linkable core types' :=
      ⟨fun hl => hl.of_mem fun _ => hperm.mem_iff, fun hl => hl.of_mem fun _ => hperm.mem_iff.symm⟩
    exact (hiff h).trans (hsame.trans (hiff (h.of_perm hperm)).symm)
  · intro table table' hok hok'
    exact (hdescribes h hok).sameHierarchy (hdescribes (h.of_perm hperm) hok')
      fun _ => hperm.mem_iff

/-- A class that lists an interface twice and comes before its base, and two classes that are each
other's base: the first goes in whichever way round, the others never do. -/
theorem linksInAnyOrder_of_forward_reference :
    let derived : TypeSnapshot :=
      { space := "App", name := "Derived", kind := .classType, base := some "App.Base",
        interfaces := ["App.IShape", "System.IDisposable", "App.IShape"] }
    let base : TypeSnapshot := { space := "App", name := "Base", kind := .classType }
    let shape : TypeSnapshot := { space := "App", name := "IShape", kind := .interfaceType }
    let circle : List TypeSnapshot :=
      [{ name := "A", kind := .classType, base := some "B" },
        { name := "B", kind := .classType, base := some "A" }]
    let said := some (Description.mk "Derived" (some "App") .classType false (some "App.Base")
      ["App.IShape", "System.IDisposable"])
    NewTypes core [derived, base, shape] ∧ LinksInAnyOrder [derived, base, shape] ∧
      (symbolTable [derived, base, shape]).toOption.bind (·.describe? "App.Derived") = said ∧
      (symbolTable [shape, base, derived]).toOption.bind (·.describe? "App.Derived") = said ∧
      NewTypes core circle ∧ LinksInAnyOrder circle ∧ ¬ Linkable core circle := by
  intro derived base shape circle said
  have hnew : NewTypes core [derived, base, shape] := ⟨by decide +kernel, by decide +kernel⟩
  have hcircle : NewTypes core circle := ⟨by decide +kernel, by decide +kernel⟩
  have hlinks := linksInAnyOrder_of_new hcircle
  have hrefused : symbolTable circle = .error (.baseCycle "B") := by decide +kernel
  refine ⟨hnew, linksInAnyOrder_of_new hnew, by decide +kernel, by decide +kernel, hcircle, hlinks,
    fun hlinkable => ?_⟩
  obtain ⟨table, hok⟩ := hlinks.succeeds_iff.2 hlinkable
  rw [hrefused] at hok
  cases hok

end Snapshot

end TreeLint
