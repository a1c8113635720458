import TreeLint.Proofs.TableInvariant
import TreeLint.Symbols.Compilation

/-!
# Reachable tables and the loops over them

A table is reachable if it starts empty or as the core library and grew by the four operations, a
base always being a type that is there already. Binding trees is such a growth: it declares types,
and the bases it sets come out of the index of the table itself. So what holds of every reachable
table holds of every compilation, whatever its trees say.

Two loops read a table. One follows bases from link to link; setting a base, asking for a name along
a chain and collecting the interfaces of a chain all run it. The other takes interfaces from a queue
and puts back those that they extend. Their derivations, `Walk` and `Spread`, know no number of
steps, so a derivation is a run that ended by itself, and the numbers that `chain` and
`allInterfaces` pass are never what stops them.
-/

namespace TreeLint

namespace SymbolTable

variable {table : SymbolTable}

/-! ## The queue of interfaces runs empty

An interface is put into the queue at most once, when it is listed, and all that is ever listed is
declared somewhere in the table. What is still to come, the queue and the declarations not listed
yet, gets smaller by one with each round. -/

/-- The rounds that take interfaces from the queue until it is empty, each listing and queueing what
an interface extends. A derivation is a search that ends. -/
inductive Spread (table : SymbolTable) : (listed queue all : List TypeId) → Prop where
  | done (listed : List TypeId) : Spread table listed [] listed
  | round {listed queue all : List TypeId} {id : TypeId}
      (rest : Spread table (listed ++ table.fresh listed id) (queue ++ table.fresh listed id) all) :
      Spread table listed (id :: queue) all

/-- The interfaces that types of a table declare, as often as they do. -/
def mentioned (table : SymbolTable) : List TypeId :=
  table.symbols.toList.flatMap (·.interfaces)

theorem length_mentioned : table.mentioned.length = table.declarations := rfl

theorem mem_mentioned {id i : TypeId} (h : i ∈ table.interfaces id) : i ∈ table.mentioned := by
  rw [interfaces_eq] at h
  cases hs : table.symbol? id with
  | none => simp [hs] at h
  | some s =>
      rw [hs] at h
      refine List.mem_flatMap.2 ⟨s, ?_, h⟩
      exact Array.mem_toList_iff.2 (Array.mem_of_getElem? hs)

theorem nodup_eraseDups : (ids : List TypeId) → ids.eraseDups.Nodup
  | [] => by simp
  | id :: rest => by
      rw [List.eraseDups_cons, List.nodup_cons]
      refine ⟨fun h => ?_, nodup_eraseDups (rest.filter fun other => !other == id)⟩
      have h := (List.mem_filter.1 (List.mem_eraseDups.1 h)).2
      simp at h
termination_by ids => ids.length
decreasing_by exact Nat.lt_succ_of_le (List.length_filter_le _ _)

theorem mem_fresh {listed : List TypeId} {id i : TypeId} :
    i ∈ table.fresh listed id ↔ i ∈ table.interfaces id ∧ i ∉ listed := by
  unfold fresh
  rw [List.mem_eraseDups, List.mem_filter]
  simp

theorem nodup_listed {listed : List TypeId} (h : listed.Nodup) (id : TypeId) :
    (listed ++ table.fresh listed id).Nodup := by
  refine List.nodup_append.2 ⟨h, nodup_eraseDups _, fun i hi j hfresh heq => ?_⟩
  exact (mem_fresh.1 hfresh).2 (heq ▸ hi)

theorem spread_extend {steps : Nat} {listed queue : List TypeId} (hnodup : listed.Nodup)
    (hsub : listed ⊆ table.mentioned)
    (hsteps : queue.length + (table.declarations - listed.length) < steps) :
    Spread table listed queue (table.extend steps listed queue) := by
  induction steps generalizing listed queue with
  | zero => exact absurd hsteps (Nat.not_lt_zero _)
  | succ n ih =>
      cases queue with
      | nil =>
          rw [extend]
          · exact .done listed
          · simp
      | cons id queue =>
          rw [extend]
          have hsub' : listed ++ table.fresh listed id ⊆ table.mentioned := by
            refine List.append_subset.2 ⟨hsub, fun i hi => ?_⟩
            exact mem_mentioned (mem_fresh.1 hi).1
          have hle := (List.subperm_of_subset (nodup_listed hnodup id) hsub').length_le
          rw [length_mentioned, List.length_append] at hle
          refine .round (ih (nodup_listed hnodup id) hsub' ?_)
          rw [List.length_append, List.length_append]
          rw [List.length_cons] at hsteps
          omega

theorem spread_allInterfaces (id : TypeId) :
    Spread table (table.declaredAlong id) (table.declaredAlong id) (table.allInterfaces id) := by
  have hsub : table.declaredAlong id ⊆ table.mentioned := by
    intro i hi
    obtain ⟨link, -, hlink⟩ := List.mem_flatMap.1 (List.mem_eraseDups.1 hi)
    exact mem_mentioned hlink
  have hnodup : (table.declaredAlong id).Nodup := nodup_eraseDups _
  have hle := (List.subperm_of_subset hnodup hsub).length_le
  rw [length_mentioned] at hle
  exact spread_extend hnodup hsub (by omega)

/-! ## Reachable tables -/

/-- The tables that the operations lead to. Every base that is passed is a type of the table. -/
inductive Reachable : SymbolTable → Prop where
  | empty : Reachable {}
  | core : Reachable core
  | add {table : SymbolTable} (h : Reachable table) (symbol : TypeSymbol)
      (hbase : ∀ base, symbol.base = some base → base < table.size) : Reachable (table.add symbol).1
  | declare {table : SymbolTable} (h : Reachable table) (space name : String) (kind : TypeKind) :
      Reachable (table.declare space name kind).1
  | setBase {table : SymbolTable} (h : Reachable table) (id base : TypeId)
      (hbase : base < table.size) : Reachable (table.setBase id base)
  | addInterface {table : SymbolTable} (h : Reachable table) (id interface : TypeId) :
      Reachable (table.addInterface id interface)

/-- Whether types can be added one after the other, each with a base that is there already. -/
def basesPresent (table : SymbolTable) : List TypeSymbol → Bool
  | [] => true
  | symbol :: rest =>
    symbol.base.all (· < table.size) && basesPresent (table.add symbol).1 rest

theorem Invariant.addAll {symbols : List TypeSymbol} (inv : table.Invariant)
    (hbases : table.basesPresent symbols = true) :
    (symbols.foldl (fun table symbol => (table.add symbol).1) table).Invariant := by
  induction symbols generalizing table with
  | nil => exact inv
  | cons symbol rest ih =>
      rw [basesPresent, Bool.and_eq_true] at hbases
      refine ih (inv.add fun base hb => ?_) hbases.2
      simpa [hb] using hbases.1

theorem invariant_core : core.Invariant := invariant_empty.addAll (by decide)

theorem Reachable.invariant (h : Reachable table) : table.Invariant := by
  induction h with
  | empty => exact invariant_empty
  | core => exact invariant_core
  | add _ symbol hbase ih => exact ih.add hbase
  | declare _ space name kind ih => exact ih.declare space name kind
  | setBase _ id base hbase ih => exact ih.setBase id hbase
  | addInterface _ id interface ih => exact ih.addInterface id interface

/-! ## Binding -/

/-- What a name is found as is a type of the table. -/
theorem Invariant.lt_size_of_find? (inv : table.Invariant) {name : String} {id : TypeId}
    (h : table.find? name = some id) : id < table.size := by
  obtain ⟨s, hs, -⟩ := (inv.indexed name id).1 h
  exact lt_size_of_symbol? hs

theorem Invariant.lt_size_of_lookUp? (inv : table.Invariant) {asAttribute : Bool} {name : String}
    {id : TypeId} (h : table.lookUp? asAttribute name = some id) : id < table.size := by
  unfold lookUp? at h
  split at h
  · next hf =>
      cases h
      exact inv.lt_size_of_find? hf
  · split at h
    · exact inv.lt_size_of_find? h
    · cases h

theorem Invariant.lt_size_of_resolve? (inv : table.Invariant) {dotted : String}
    {scope : List Node} {asAttribute : Bool} {id : TypeId}
    (h : table.resolve? dotted scope asAttribute = some id) : id < table.size := by
  obtain ⟨name, -, hname⟩ := List.exists_of_findSome?_eq_some h
  exact inv.lt_size_of_lookUp? hname

theorem Invariant.lt_size_of_resolveName? (inv : table.Invariant) {c : Cursor} {id : TypeId}
    (h : table.resolveName? c = some id) : id < table.size := by
  unfold resolveName? at h
  split at h
  · exact inv.lt_size_of_resolve? h
  · cases h

theorem Reachable.declareAll (h : Reachable table) (declarations : List Cursor) :
    Reachable (table.declareAll declarations).1 := by
  induction declarations generalizing table with
  | nil => exact h
  | cons c rest ih =>
      rw [SymbolTable.declareAll]
      split
      · exact ih h
      · exact ih (h.declare _ _ _)

theorem Reachable.addInterfaces (h : Reachable table) (id : TypeId) (interfaces : List TypeId) :
    Reachable (interfaces.foldl (fun table i => table.addInterface id i) table) := by
  induction interfaces generalizing table with
  | nil => exact h
  | cons i rest ih => exact ih (h.addInterface id i)

theorem Reachable.bindBases (h : Reachable table) (d : Declared) :
    Reachable (table.bindBases d) := by
  have hnamed : ∀ id ∈ d.declaration.baseNames.filterMap table.resolveName?, id < table.size := by
    intro id hid
    obtain ⟨c, -, hc⟩ := List.mem_filterMap.1 hid
    exact h.invariant.lt_size_of_resolveName? hc
  unfold SymbolTable.bindBases
  simp only []
  refine Reachable.addInterfaces ?_ d.id _
  split
  · next base hbase =>
      refine h.setBase d.id base ?_
      split at hbase
      · next listed hlisted =>
          cases hbase
          split at hlisted
          · exact hnamed base (List.mem_of_find?_eq_some hlisted)
          · cases hlisted
      · split at hbase
        · next hfound =>
            split at hbase
            · cases hbase
            · cases hbase
              exact h.invariant.lt_size_of_find? hfound
        · cases hbase
  · exact h

theorem Reachable.bind (h : Reachable table) (trees : List Node) :
    Reachable (table.bind trees) := by
  unfold SymbolTable.bind
  have hdeclared := h.declareAll (trees.flatMap declarationsIn)
  generalize table.declareAll (trees.flatMap declarationsIn) = step at hdeclared
  obtain ⟨table, declared⟩ := step
  induction declared generalizing table with
  | nil => exact hdeclared
  | cons d rest ih => exact ih _ (hdeclared.bindBases d)

/-! ## What a reader of the table can rely on -/

/-- A table whose types are found by their names, each under one place, and on which every walk
along bases and every search through interfaces ends. -/
structure Sound (table : SymbolTable) : Prop where
  /-- Following bases never comes back to a type. -/
  never_revisits : ∀ id, ¬ Relation.TransGen table.Link id id
  /-- A name is found exactly where a type has it. -/
  found_iff : ∀ name id, table.find? name = some id ↔
    ∃ s, table.symbol? id = some s ∧ s.metadataName = name
  names_unique : ∀ i j s t, table.symbol? i = some s → table.symbol? j = some t →
    s.metadataName = t.metadataName → i = j
  /-- The loop along bases ends, and `chain`, which `setBase`, `derivesFromName` and `allInterfaces`
  read, lists what it visits. -/
  walk_ends : ∀ id, Walk table id (table.chain id)
  /-- The loop over the queue of interfaces ends, and `allInterfaces` is what it lists. -/
  spread_ends : ∀ id,
    Spread table (table.declaredAlong id) (table.declaredAlong id) (table.allInterfaces id)

theorem Invariant.sound (inv : table.Invariant) : table.Sound where
  never_revisits := inv.acyclic
  found_iff := inv.indexed
  names_unique := fun i j s t hs ht hname => by
    have hi := (inv.indexed t.metadataName i).2 ⟨s, hs, hname⟩
    rw [(inv.indexed t.metadataName j).2 ⟨t, ht, rfl⟩] at hi
    exact (Option.some.inj hi).symm
  walk_ends := inv.walk_chain
  spread_ends := spread_allInterfaces

/-- Every reachable table is sound, and so is every compilation over one, however cyclic the base
lists of its trees are. -/
theorem sound_of_reachable (h : Reachable table) :
    table.Sound ∧ ∀ trees, (Compilation.ofTrees table trees).table.Sound :=
  ⟨h.invariant.sound, fun trees => (h.bind trees).invariant.sound⟩

/-- Two types over the core library that are each given the other as base: the second is refused. -/
theorem sound_of_crossed_bases :
    let table := (((core.declare "N" "A" .classType).1.declare "N" "B" .classType).1.setBase
      12 13).setBase 13 12
    Reachable table ∧ table.base? 12 = some 13 ∧ table.base? 13 = none ∧
      table.Sound ∧ ∀ trees, (Compilation.ofTrees table trees).table.Sound := by
  have hr : Reachable ((((core.declare "N" "A" .classType).1.declare "N" "B"
      .classType).1.setBase 12 13).setBase 13 12) :=
    (((Reachable.core.declare "N" "A" .classType).declare "N" "B" .classType).setBase 12 13
      (by decide)).setBase 13 12 (by decide)
  exact ⟨hr, by decide, by decide, sound_of_reachable hr⟩

end SymbolTable

end TreeLint
