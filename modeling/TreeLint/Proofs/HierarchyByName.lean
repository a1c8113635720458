import Mathlib.Data.List.Find
import TreeLint.Proofs.BoundTypes

/-!
# The hierarchy by names

Places are an accident of the order in which types were added. What a table says about types is said
by names: what kind a type of some name is, which type it derives from, which interfaces it
declares. Two tables say the same if they do so for every name.

Tables that know the same names, and agree which of these are interfaces, read every base list
alike, but for places: going from a place to its name in one table and on to the place of that name
in the other takes whatever the one resolves to what the other resolves. So two tables that are
bound to the same declarations over the same types say the same, wherever the declared types went.
-/

namespace TreeLint.SymbolTable

open Relation (TransGen)

variable {table table' : SymbolTable}

def metadataName? (table : SymbolTable) (id : TypeId) : Option String :=
  (table.symbol? id).map (·.metadataName)

/-- What a table says of a type, other types given by their names. -/
structure Description where
  name : String
  space? : Option String
  kind : TypeKind
  isObject : Bool
  base : Option String
  interfaces : List String
  deriving DecidableEq, Repr

def description (table : SymbolTable) (s : TypeSymbol) : Description where
  name := s.name
  space? := s.space?
  kind := s.kind
  isObject := s.isObject
  base := s.base.bind table.metadataName?
  interfaces := s.interfaces.filterMap table.metadataName?

def describe? (table : SymbolTable) (metadataName : String) : Option Description :=
  (table.find? metadataName).bind fun id => (table.symbol? id).map table.description

/-- Two tables that say the same of the type of each name. -/
def SameHierarchy (table table' : SymbolTable) : Prop :=
  ∀ metadataName, table.describe? metadataName = table'.describe? metadataName

/-! ## From places to places -/

/-- Two tables that know the same names, and the same names of interfaces. -/
def SameNames (table table' : SymbolTable) : Prop :=
  ∀ name, (table.find? name).map table.isInterface = (table'.find? name).map table'.isInterface

/-- Where another table has the type that a table has at a place. -/
def moved (table table' : SymbolTable) (id : TypeId) : TypeId :=
  ((table.symbol? id).bind fun s => table'.find? s.metadataName).getD id

theorem exists_symbol? {id : TypeId} (hid : id < table.size) :
    ∃ s, table.symbol? id = some s :=
  Option.ne_none_iff_exists'.1 fun hnone => Nat.not_lt.2 ((symbol?_eq_none id).1 hnone) hid

theorem Invariant.find?_symbol (inv : table.Invariant) {id : TypeId} {s : TypeSymbol}
    (hs : table.symbol? id = some s) : table.find? s.metadataName = some id :=
  (inv.indexed _ _).2 ⟨s, hs, rfl⟩

theorem Invariant.metadataName?_of_find? (inv : table.Invariant) {name : String} {id : TypeId}
    (h : table.find? name = some id) : table.metadataName? id = some name := by
  obtain ⟨s, hs, rfl⟩ := (inv.indexed _ _).1 h
  rw [metadataName?, hs, Option.map_some]

theorem eraseDups_map {α β : Type} [DecidableEq α] [DecidableEq β] {f : α → β} : (ids : List α) →
    (hinj : ∀ i ∈ ids, ∀ j ∈ ids, f i = f j → i = j) →
    (ids.map f).eraseDups = ids.eraseDups.map f
  | [], _ => rfl
  | id :: rest, hinj => by
      have hfilter : (rest.map f).filter (fun other => !other == f id) =
          (rest.filter fun other => !other == id).map f := by
        rw [List.filter_map]
        refine congrArg (List.map f) (List.filter_congr fun other hother => ?_)
        have hiff : f other = f id ↔ other = id :=
          ⟨hinj other (List.mem_cons_of_mem id hother) id List.mem_cons_self,
            fun heq => by rw [heq]⟩
        simp [hiff]
      rw [List.map_cons, List.eraseDups_cons, List.eraseDups_cons, List.map_cons, hfilter,
        eraseDups_map (rest.filter fun other => !other == id) fun i hi j hj =>
          hinj i (List.mem_cons_of_mem id (List.mem_of_mem_filter hi)) j
            (List.mem_cons_of_mem id (List.mem_of_mem_filter hj))]
termination_by ids => ids.length
decreasing_by exact Nat.lt_succ_of_le (List.length_filter_le _ _)

theorem Invariant.lt_size_of_mem_namedTypes (inv : table.Invariant) {c : Cursor} {id : TypeId}
    (h : id ∈ table.namedTypes c) : id < table.size := by
  obtain ⟨name, -, hname⟩ := List.mem_filterMap.1 h
  exact inv.lt_size_of_resolveName? hname

namespace SameNames

variable (same : SameNames table table') (inv : table.Invariant)

include same inv

theorem find?_moved (name : String) :
    table'.find? name = (table.find? name).map (table.moved table') := by
  have hname := same name
  cases hfound : table.find? name with
  | none =>
      rw [hfound, Option.map_none] at hname
      rw [Option.map_eq_none_iff.1 hname.symm, Option.map_none]
  | some id =>
      rw [hfound, Option.map_some] at hname
      obtain ⟨id', hid', -⟩ := Option.map_eq_some_iff.1 hname.symm
      obtain ⟨s, hs, rfl⟩ := (inv.indexed _ _).1 hfound
      rw [hid', Option.map_some, moved, hs, Option.bind_some, hid', Option.getD_some]

theorem find?_name {id : TypeId} {s : TypeSymbol} (hs : table.symbol? id = some s) :
    table'.find? s.metadataName = some (table.moved table' id) := by
  rw [same.find?_moved inv, inv.find?_symbol hs, Option.map_some]

theorem isInterface_moved {id : TypeId} (hid : id < table.size) :
    table'.isInterface (table.moved table' id) = table.isInterface id := by
  obtain ⟨s, hs⟩ := exists_symbol? hid
  have hname := same s.metadataName
  rw [same.find?_name inv hs, inv.find?_symbol hs, Option.map_some, Option.map_some] at hname
  exact (Option.some.inj hname).symm

theorem metadataName?_moved (inv' : table'.Invariant) {id : TypeId} (hid : id < table.size) :
    table'.metadataName? (table.moved table' id) = table.metadataName? id := by
  obtain ⟨s, hs⟩ := exists_symbol? hid
  obtain ⟨t, ht, hname⟩ := (inv'.indexed _ _).1 (same.find?_name inv hs)
  rw [metadataName?, metadataName?, ht, hs, Option.map_some, Option.map_some, hname]

theorem moved_injective (inv' : table'.Invariant) {id other : TypeId} (hid : id < table.size)
    (hother : other < table.size) (h : table.moved table' id = table.moved table' other) :
    id = other := by
  obtain ⟨s, hs⟩ := exists_symbol? hid
  obtain ⟨t, ht⟩ := exists_symbol? hother
  have hname := same.metadataName?_moved inv inv' hid
  rw [h, same.metadataName?_moved inv inv' hother, metadataName?, metadataName?, hs, ht] at hname
  exact inv.eq_of_metadataName hs ht (Option.some.inj hname).symm

theorem lookUp?_moved (asAttribute : Bool) (candidate : String) :
    table'.lookUp? asAttribute candidate =
      (table.lookUp? asAttribute candidate).map (table.moved table') := by
  rw [lookUp?, lookUp?, same.find?_moved inv]
  cases table.find? candidate with
  | some id => rfl
  | none =>
      simp only [Option.map_none]
      split
      · rw [same.find?_moved inv]
      · rfl

theorem resolveName?_moved (c : Cursor) :
    table'.resolveName? c = (table.resolveName? c).map (table.moved table') := by
  rw [resolveName?, resolveName?]
  cases c.node.dotted? with
  | none => rfl
  | some dotted =>
      simp only [resolve?]
      rw [List.map_findSome?]
      exact congrArg (List.findSome? · _) (funext fun name => same.lookUp?_moved inv false name)

theorem namedTypes_moved (c : Cursor) :
    table'.namedTypes c = (table.namedTypes c).map (table.moved table') := by
  rw [namedTypes, namedTypes, List.map_filterMap]
  exact List.filterMap_congr fun name _ => same.resolveName?_moved inv name

theorem boundBase?_moved (c : Cursor) :
    table'.boundBase? c = (table.boundBase? c).map (table.moved table') := by
  have hlisted : (table'.namedTypes c).find? (fun id => !table'.isInterface id) =
      ((table.namedTypes c).find? fun id => !table.isInterface id).map (table.moved table') := by
    rw [same.namedTypes_moved inv, List.find?_map]
    refine congrArg (Option.map _) (List.find?_congr fun id hid => ?_)
    rw [Function.comp_apply, same.isInterface_moved inv (inv.lt_size_of_mem_namedTypes hid)]
  rw [boundBase?, boundBase?]
  split
  · rw [hlisted, same.find?_moved inv]
    cases (table.namedTypes c).find? fun id => !table.isInterface id <;> rfl
  · exact same.find?_moved inv _
  · rfl

theorem boundInterfaces_moved (inv' : table'.Invariant) (c : Cursor) :
    table'.boundInterfaces c = (table.boundInterfaces c).map (table.moved table') := by
  have hfilter : (table'.namedTypes c).filter table'.isInterface =
      ((table.namedTypes c).filter table.isInterface).map (table.moved table') := by
    rw [same.namedTypes_moved inv, List.filter_map]
    refine congrArg (List.map _) (List.filter_congr fun id hid => ?_)
    rw [Function.comp_apply, same.isInterface_moved inv (inv.lt_size_of_mem_namedTypes hid)]
  rw [boundInterfaces, boundInterfaces, hfilter]
  refine eraseDups_map _ fun i hi j hj heq => ?_
  exact same.moved_injective inv inv'
    (inv.lt_size_of_mem_namedTypes (List.mem_of_mem_filter hi))
    (inv.lt_size_of_mem_namedTypes (List.mem_of_mem_filter hj)) heq

/-- What declarations ask for is the same in both tables, but for places. -/
theorem declaredLink_moved {ds : List Cursor} {id base : TypeId}
    (h : table.DeclaredLink ds id base) :
    table'.DeclaredLink ds (table.moved table' id) (table.moved table' base) := by
  obtain ⟨c, hc, s, hs, hid, hbase⟩ := h
  refine ⟨c, hc, s, hs, ?_, ?_⟩
  · rw [same.find?_moved inv, hid, Option.map_some]
  · rw [same.boundBase?_moved inv, hbase, Option.map_some]

theorem acyclic_moved {ds : List Cursor}
    (hacyclic : ∀ id, ¬ TransGen (table'.DeclaredLink ds) id id) (id : TypeId) :
    ¬ TransGen (table.DeclaredLink ds) id id := fun hcycle =>
  hacyclic _ (TransGen.lift (table.moved table')
    (fun _ _ hlink => same.declaredLink_moved inv hlink) id id hcycle)

end SameNames

/-! ## Tables that are bound to the same declarations -/

theorem SameNames.of_forall (inv : table.Invariant) (inv' : table'.Invariant)
    (h : ∀ id s, table.symbol? id = some s → ∃ id', table'.find? s.metadataName = some id' ∧
      table'.isInterface id' = table.isInterface id)
    (h' : ∀ id s, table'.symbol? id = some s → ∃ id', table.find? s.metadataName = some id') :
    SameNames table table' := by
  intro name
  cases hfound : table.find? name with
  | some id =>
      obtain ⟨s, hs, rfl⟩ := (inv.indexed _ _).1 hfound
      obtain ⟨id', hid', hkind⟩ := h id s hs
      rw [hid', Option.map_some, Option.map_some, hkind]
  | none =>
      cases hfound' : table'.find? name with
      | none => rfl
      | some id' =>
          obtain ⟨s, hs, rfl⟩ := (inv'.indexed _ _).1 hfound'
          obtain ⟨id, hid⟩ := h' id' s hs
          rw [hfound] at hid
          cases hid

theorem Invariant.lt_size_of_boundBase? (inv : table.Invariant) {c : Cursor} {base : TypeId}
    (h : table.boundBase? c = some base) : base < table.size := by
  rw [boundBase?] at h
  split at h
  · rcases Option.or_eq_some_iff.1 h with hlisted | ⟨-, hroot⟩
    · exact inv.lt_size_of_mem_namedTypes (List.mem_of_find?_eq_some hlisted)
    · exact inv.lt_size_of_find? hroot
  · exact inv.lt_size_of_find? h
  · cases h

theorem Invariant.lt_size_of_mem_boundInterfaces (inv : table.Invariant) {c : Cursor} {i : TypeId}
    (h : i ∈ table.boundInterfaces c) : i < table.size :=
  inv.lt_size_of_mem_namedTypes (List.mem_of_mem_filter (List.mem_eraseDups.1 h))

/-- Two tables that know the same names say the same of a type with the same declaration. -/
theorem SameNames.description_bound (same : SameNames table table') (inv : table.Invariant)
    (inv' : table'.Invariant) (c : Cursor) (s : TypeSymbol) :
    table'.description (table'.bound c s) = table.description (table.bound c s) := by
  have hbase : (table'.boundBase? c).bind table'.metadataName? =
      (table.boundBase? c).bind table.metadataName? := by
    rw [same.boundBase?_moved inv]
    cases hb : table.boundBase? c with
    | none => rfl
    | some base => exact same.metadataName?_moved inv inv' (inv.lt_size_of_boundBase? hb)
  have hinterfaces : (table'.boundInterfaces c).filterMap table'.metadataName? =
      (table.boundInterfaces c).filterMap table.metadataName? := by
    rw [same.boundInterfaces_moved inv inv', List.filterMap_map]
    exact List.filterMap_congr fun i hi =>
      same.metadataName?_moved inv inv' (inv.lt_size_of_mem_boundInterfaces hi)
  simp only [description, bound, hbase, hinterfaces]

theorem Invariant.describe?_eq (inv : table.Invariant) {id : TypeId} {s : TypeSymbol}
    (hs : table.symbol? id = some s) :
    table.describe? s.metadataName = some (table.description s) := by
  rw [describe?, inv.find?_symbol hs, Option.bind_some, hs, Option.map_some]

/-- What was said of a type is still said of it if the types that were there are as they were. -/
theorem description_kept {old : SymbolTable}
    (hkept : ∀ id s, old.symbol? id = some s → table.symbol? id = some s) (inv : old.Invariant)
    (present : old.InterfacesPresent) {id : TypeId} {s : TypeSymbol}
    (hs : old.symbol? id = some s) : table.description s = old.description s := by
  have hname : ∀ {id : TypeId}, id < old.size → table.metadataName? id = old.metadataName? id := by
    intro id hid
    obtain ⟨s, hs⟩ := exists_symbol? hid
    rw [metadataName?, metadataName?, hkept id s hs, hs]
  have hbase : s.base.bind table.metadataName? = s.base.bind old.metadataName? := by
    cases hb : s.base with
    | none => rfl
    | some base =>
        have hlink : old.Link id base := by rw [Link, base?_eq, hs]; exact hb
        exact hname (inv.present id base hlink)
  have hinterfaces : s.interfaces.filterMap table.metadataName? =
      s.interfaces.filterMap old.metadataName? := by
    refine List.filterMap_congr fun i hi => hname (present id i ?_)
    rw [Declares, interfaces_eq, hs]
    exact hi
  rw [description, description, hbase, hinterfaces]

namespace BoundAsDeclared

variable {old : SymbolTable} {ds : List Cursor}

/-- Tables with the same old types that are bound to the same declarations say the same. -/
theorem sameHierarchy (h : BoundAsDeclared old table ds) (h' : BoundAsDeclared old table' ds)
    (same : SameNames table table') (inv : table.Invariant) (inv' : table'.Invariant)
    (hold : old.Invariant) (present : old.InterfacesPresent) : SameHierarchy table table' := by
  intro name
  cases hfound : table.find? name with
  | none =>
      have hnone : table'.find? name = none := by rw [same.find?_moved inv, hfound, Option.map_none]
      rw [describe?, describe?, hfound, hnone, Option.bind_none, Option.bind_none]
  | some id =>
      obtain ⟨s, hs, rfl⟩ := (inv.indexed _ _).1 hfound
      rw [inv.describe?_eq hs]
      rcases h.only id s hs with hlt | ⟨c, hc, t, ht, rfl⟩
      · obtain ⟨t, ht⟩ := exists_symbol? hlt
        obtain rfl : s = t := Option.some.inj (hs.symm.trans (h.kept id t ht))
        rw [inv'.describe?_eq (h'.kept id s ht), description_kept h.kept hold present ht,
          description_kept h'.kept hold present ht]
      · obtain ⟨id', -, -, hs'⟩ := h'.declared c hc t ht
        have hname : (table.bound c t).metadataName = (table'.bound c t).metadataName := rfl
        rw [hname, inv'.describe?_eq hs', same.description_bound inv inv']

end BoundAsDeclared

/-! ## Tables that the same types were added to -/

/-- Declarations that declare the same types, in any order. -/
def DeclareSame (ds ds' : List Cursor) : Prop :=
  ∀ s, (∃ c ∈ ds, c.declared? = some s) ↔ ∃ c ∈ ds', c.declared? = some s

theorem Appends.find?_declared {old : SymbolTable} {ds : List Cursor} {declared : List Declared}
    (h : old.Appends ds table declared) (inv : table.Invariant) {s : TypeSymbol}
    (hs : ∃ c ∈ ds, c.declared? = some s) :
    ∃ id, table.find? s.metadataName = some id ∧ table.symbol? id = some s := by
  obtain ⟨c, hc, hs⟩ := hs
  obtain ⟨d, hd, rfl⟩ := h.every c hc (by rw [hs]; simp)
  obtain ⟨-, -, -, t, ht, hsymbol⟩ := h.new d hd
  obtain rfl : s = t := Option.some.inj (hs.symm.trans ht)
  exact ⟨d.id, inv.find?_symbol hsymbol, hsymbol⟩

theorem Appends.sameNames {old : SymbolTable} {ds ds' : List Cursor}
    {declared declared' : List Declared} (h : old.Appends ds table declared)
    (h' : old.Appends ds' table' declared') (inv : table.Invariant) (inv' : table'.Invariant)
    (hsame : DeclareSame ds ds') : SameNames table table' := by
  have hfind : ∀ {t t' : SymbolTable} {cs cs' : List Cursor} {added added' : List Declared},
      old.Appends cs t added → old.Appends cs' t' added' → t'.Invariant → DeclareSame cs cs' →
      ∀ id s, t.symbol? id = some s →
        ∃ id', t'.find? s.metadataName = some id' ∧ t'.symbol? id' = some s := by
    intro t t' cs cs' added added' ht ht' hinv' hcs id s hs
    rcases ht.only id s hs with hlt | ⟨d, hd, rfl⟩
    · have hs' : t'.symbol? id = some s := by rw [ht'.old id hlt, ← ht.old id hlt, hs]
      exact ⟨id, hinv'.find?_symbol hs', hs'⟩
    · obtain ⟨-, hmem, -, u, hu, hsymbol⟩ := ht.new d hd
      obtain rfl : s = u := Option.some.inj (hs.symm.trans hsymbol)
      exact ht'.find?_declared hinv' ((hcs s).1 ⟨d.declaration, hmem, hu⟩)
  refine .of_forall inv inv' (fun id s hs => ?_) fun id s hs => ?_
  · obtain ⟨id', hid', hs'⟩ := hfind h h' inv' hsame id s hs
    exact ⟨id', hid', by rw [isInterface_eq hs', isInterface_eq hs]⟩
  · obtain ⟨id', hid', -⟩ := hfind h' h inv (fun s => (hsame s).symm) id s hs
    exact ⟨id', hid'⟩

/-- Binding trees that declare the same types gives tables that know the same names, whatever the
trees say about bases. -/
theorem Reachable.sameNames_bind {old : SymbolTable} (h : Reachable old) {trees trees' : List Node}
    (new : old.NewNames (declarationsOf trees)) (new' : old.NewNames (declarationsOf trees'))
    (hsame : DeclareSame (declarationsOf trees) (declarationsOf trees')) :
    SameNames (old.bind trees) (old.bind trees') := by
  have hnames := (appends_declareAll new).sameNames (appends_declareAll new')
    (h.declareAll _).invariant (h.declareAll _).invariant hsame
  obtain ⟨hplaces, hkinds⟩ := bind_places old trees
  obtain ⟨hplaces', hkinds'⟩ := bind_places old trees'
  intro name
  rw [find?_congr hplaces, find?_congr hplaces', hkinds, hkinds']
  exact hnames name

end TreeLint.SymbolTable
