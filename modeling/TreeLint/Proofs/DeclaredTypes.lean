import TreeLint.Proofs.SameBinding
import TreeLint.Proofs.TableGrowth

/-!
# What declarations say, and their places

A declaration says what type there is and what that type derives from. The first is its name, its
namespace and its kind. The second is read off its base list by a table that knows all the names:
the interfaces it names, and for a class the first other type, or the root that its kind has.

Binding gives out the places first. Declarations that are new to a table and share no names get one
each, in order, behind the types that are there, and nothing else is added.
-/

namespace TreeLint

open Relation (TransGen ReflTransGen)

/-- The type that a declaration declares, before its base list is read. -/
def Cursor.declared? (c : Cursor) : Option TypeSymbol :=
  c.identifier?.map fun name => .bare (c.containingNamespace?.getD "") name.text
    (SymbolTable.declaredKind c.kind)

/-- The metadata names that some declarations declare, in order. -/
def declaredNames (ds : List Cursor) : List String :=
  ds.filterMap fun c => c.declared?.map (·.metadataName)

/-- The type declarations of some trees. -/
def declarationsOf (trees : List Node) : List Cursor := trees.flatMap SymbolTable.declarationsIn

namespace SymbolTable

/-- Declarations that a table knows none of, each with a name of its own. -/
structure NewNames (table : SymbolTable) (ds : List Cursor) : Prop where
  distinct : (declaredNames ds).Nodup
  nonempty : ∀ name ∈ declaredNames ds, name ≠ ""
  absent : ∀ name ∈ declaredNames ds, table.find? name = none

variable {table : SymbolTable}

/-! ## What a base list stands for -/

/-- The types that the base list of a declaration names, in order. -/
def namedTypes (table : SymbolTable) (c : Cursor) : List TypeId :=
  c.baseNames.filterMap table.resolveName?

/-- The base that a declaration gives its type: for a class the first type named that is no
interface, and the common root of its kind where there is none. -/
def boundBase? (table : SymbolTable) (c : Cursor) : Option TypeId :=
  match declaredKind c.kind with
  | .classType =>
    ((table.namedTypes c).find? fun id => !table.isInterface id).or (table.find? objectName)
  | .structType => table.find? valueTypeName
  | _ => none

/-- The interfaces that a declaration names, each once. -/
def boundInterfaces (table : SymbolTable) (c : Cursor) : List TypeId :=
  ((table.namedTypes c).filter table.isInterface).eraseDups

/-- A type as its declaration describes it. -/
def bound (table : SymbolTable) (c : Cursor) (s : TypeSymbol) : TypeSymbol :=
  { s with base := table.boundBase? c, interfaces := table.boundInterfaces c }

/-- A declared type and the base that its declaration gives it. -/
def DeclaredLink (table : SymbolTable) (ds : List Cursor) (id base : TypeId) : Prop :=
  ∃ c ∈ ds, ∃ s, c.declared? = some s ∧ table.find? s.metadataName = some id ∧
    table.boundBase? c = some base

/-! ## The first round -/

theorem declareAll_none {c : Cursor} (h : c.declared? = none) (rest : List Cursor) :
    table.declareAll (c :: rest) = table.declareAll rest := by
  rw [declareAll, Option.map_eq_none_iff.1 h]

theorem declareAll_some {c : Cursor} {s : TypeSymbol} (h : c.declared? = some s)
    (hnew : table.find? s.metadataName = none) (rest : List Cursor) :
    table.declareAll (c :: rest) = (((table.push s).declareAll rest).1,
      ⟨table.size, declaredKind c.kind, c⟩ :: ((table.push s).declareAll rest).2) := by
  obtain ⟨name, hname, rfl⟩ := Option.map_eq_some_iff.1 h
  rw [declareAll, hname]
  simp only [declare, add, hnew]

theorem declaredNames_none {c : Cursor} (h : c.declared? = none) (rest : List Cursor) :
    declaredNames (c :: rest) = declaredNames rest := by
  rw [declaredNames, List.filterMap_cons_none (by rw [h]; rfl), declaredNames]

theorem declaredNames_some {c : Cursor} {s : TypeSymbol} (h : c.declared? = some s)
    (rest : List Cursor) : declaredNames (c :: rest) = s.metadataName :: declaredNames rest := by
  rw [declaredNames, List.filterMap_cons_some (by rw [h]; rfl), declaredNames]

/-- A table with the bare types of some declarations behind those that it had. -/
structure Appends (table : SymbolTable) (ds : List Cursor) (table' : SymbolTable)
    (declared : List Declared) : Prop where
  size_le : table.size ≤ table'.size
  old : ∀ id < table.size, table'.symbol? id = table.symbol? id
  new : ∀ d ∈ declared, table.size ≤ d.id ∧ d.declaration ∈ ds ∧
    d.kind = declaredKind d.declaration.kind ∧
    ∃ s, d.declaration.declared? = some s ∧ table'.symbol? d.id = some s
  distinct : (declared.map (·.id)).Nodup
  every : ∀ c ∈ ds, c.declared? ≠ none → ∃ d ∈ declared, d.declaration = c
  only : ∀ id s, table'.symbol? id = some s → id < table.size ∨ ∃ d ∈ declared, d.id = id

theorem Appends.skip {c : Cursor} {ds : List Cursor} {table' : SymbolTable}
    {declared : List Declared} (h : table.Appends ds table' declared) (hc : c.declared? = none) :
    table.Appends (c :: ds) table' declared where
  size_le := h.size_le
  old := h.old
  new := fun d hd => by
    obtain ⟨hid, hmem, hrest⟩ := h.new d hd
    exact ⟨hid, List.mem_cons_of_mem c hmem, hrest⟩
  distinct := h.distinct
  every := fun e he hdeclared => by
    rcases List.mem_cons.1 he with rfl | he
    · exact absurd hc hdeclared
    · exact h.every e he hdeclared
  only := h.only

theorem Appends.cons {c : Cursor} {s : TypeSymbol} {ds : List Cursor} {table' : SymbolTable}
    {declared : List Declared} (h : (table.push s).Appends ds table' declared)
    (hc : c.declared? = some s) :
    table.Appends (c :: ds) table' (⟨table.size, declaredKind c.kind, c⟩ :: declared) where
  size_le := by
    have hle := h.size_le
    rw [size_push] at hle
    omega
  old := fun id hid => by
    rw [h.old id (by rw [size_push]; omega), symbol?_push, if_neg (Nat.ne_of_lt hid)]
  new := fun d hd => by
    rcases List.mem_cons.1 hd with rfl | hd
    · refine ⟨Nat.le_refl _, List.mem_cons_self, rfl, s, hc, ?_⟩
      rw [h.old table.size (by rw [size_push]; omega), symbol?_push, if_pos rfl]
    · obtain ⟨hid, hmem, hrest⟩ := h.new d hd
      rw [size_push] at hid
      exact ⟨by omega, List.mem_cons_of_mem c hmem, hrest⟩
  distinct := by
    refine List.nodup_cons.2 ⟨fun hmem => ?_, h.distinct⟩
    obtain ⟨d, hd, hid⟩ := List.mem_map.1 hmem
    have hid : d.id = table.size := hid
    have hle := (h.new d hd).1
    rw [size_push, hid] at hle
    exact Nat.not_succ_le_self _ hle
  every := fun e he hdeclared => by
    rcases List.mem_cons.1 he with rfl | he
    · exact ⟨_, List.mem_cons_self, rfl⟩
    · obtain ⟨d, hd, heq⟩ := h.every e he hdeclared
      exact ⟨d, List.mem_cons_of_mem _ hd, heq⟩
  only := fun id t ht => by
    rcases h.only id t ht with hlt | ⟨d, hd, hid⟩
    · rw [size_push] at hlt
      rcases Nat.lt_succ_iff_lt_or_eq.1 hlt with hlt | rfl
      · exact .inl hlt
      · exact .inr ⟨_, List.mem_cons_self, rfl⟩
    · exact .inr ⟨d, List.mem_cons_of_mem _ hd, hid⟩

theorem NewNames.skip {c : Cursor} {rest : List Cursor} (h : table.NewNames (c :: rest))
    (hc : c.declared? = none) : table.NewNames rest := by
  obtain ⟨hdistinct, hnonempty, habsent⟩ := h
  rw [declaredNames_none hc] at hdistinct hnonempty habsent
  exact ⟨hdistinct, hnonempty, habsent⟩

theorem NewNames.push {c : Cursor} {s : TypeSymbol} {rest : List Cursor}
    (h : table.NewNames (c :: rest)) (hc : c.declared? = some s) :
    table.find? s.metadataName = none ∧ (table.push s).NewNames rest := by
  obtain ⟨hdistinct, hnonempty, habsent⟩ := h
  rw [declaredNames_some hc] at hdistinct hnonempty habsent
  obtain ⟨hfirst, hdistinct⟩ := List.nodup_cons.1 hdistinct
  refine ⟨habsent _ List.mem_cons_self, hdistinct,
    fun name hname => hnonempty name (List.mem_cons_of_mem _ hname), fun name hname => ?_⟩
  rw [find?_push, if_neg, habsent name (List.mem_cons_of_mem _ hname)]
  rintro rfl
  exact hfirst hname

theorem appends_declareAll {ds : List Cursor} (h : table.NewNames ds) :
    table.Appends ds (table.declareAll ds).1 (table.declareAll ds).2 := by
  induction ds generalizing table with
  | nil =>
      exact ⟨Nat.le_refl _, fun _ _ => rfl, fun d hd => (List.not_mem_nil hd).elim,
        List.nodup_nil, fun c hc => (List.not_mem_nil hc).elim,
        fun id s hs => .inl (lt_size_of_symbol? hs)⟩
  | cons c rest ih =>
      cases hc : c.declared? with
      | none =>
          rw [declareAll_none hc]
          exact (ih (h.skip hc)).skip hc
      | some s =>
          obtain ⟨hnew, hrest⟩ := h.push hc
          rw [declareAll_some hc hnew]
          exact (ih hrest).cons hc

end SymbolTable

end TreeLint
