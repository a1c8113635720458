import TreeLint.Proofs.HierarchyByName
import TreeLint.Proofs.Rearranged

/-!
# Binding in any order

Binding new declarations leaves the types of the old table as they are and gives each declaration a
type that is as the declaration says, as long as the bases that the declarations ask for do not lead
round in a circle. What the declarations say is read by the whole table, so the order in which they
come decides about places only: trees in another order, with declarations in other places, bind to a
table with the same hierarchy by names.
-/

namespace TreeLint

open Relation (TransGen ReflTransGen)

variable {table : SymbolTable} {c d : Cursor} {cs ds : List Cursor}

/-! ## Declarations that a table cannot tell apart -/

namespace SameDeclaration

theorem symm (h : SameDeclaration table c d) : SameDeclaration table d c :=
  ⟨h.kind.symm, h.name.symm, h.space.symm, h.bases.symm⟩

theorem declared?_eq (h : SameDeclaration table c d) : c.declared? = d.declared? := by
  have hread : ∀ e : Cursor, e.declared? = (e.identifier?.map (·.token)).map fun t =>
      .bare (e.containingNamespace?.getD "") t.text (SymbolTable.declaredKind e.kind) := by
    intro e
    rw [Cursor.declared?, Option.map_map]
    rfl
  rw [hread, hread, h.name, h.space, h.kind]

theorem boundBase?_eq (h : SameDeclaration table c d) :
    table.boundBase? c = table.boundBase? d := by
  rw [SymbolTable.boundBase?, SymbolTable.boundBase?, SymbolTable.namedTypes,
    SymbolTable.namedTypes, h.kind, h.bases]

theorem bound_eq (h : SameDeclaration table c d) : table.bound c = table.bound d := by
  funext s
  rw [SymbolTable.bound, SymbolTable.bound, h.boundBase?_eq, SymbolTable.boundInterfaces,
    SymbolTable.boundInterfaces, SymbolTable.namedTypes, SymbolTable.namedTypes, h.bases]

end SameDeclaration

/-! ## Declarations in another order -/

namespace Reordered

theorem symm (h : Reordered table cs ds) : Reordered table ds cs := by
  obtain ⟨mid, hperm, hsame⟩ := h
  have hback : List.Forall₂ (SameDeclaration table) ds mid :=
    .flip (hsame.imp fun _ _ h => h.symm)
  have hboth : Relation.Comp (List.Forall₂ (SameDeclaration table)) List.Perm ds cs :=
    ⟨mid, hback, hperm.symm⟩
  rwa [List.forall₂_comp_perm_eq_perm_comp_forall₂] at hboth

theorem exists_of_mem (h : Reordered table cs ds) (hc : c ∈ cs) :
    ∃ d ∈ ds, SameDeclaration table c d := by
  obtain ⟨mid, hperm, hsame⟩ := h
  have hmid : c ∈ mid := hperm.subset hc
  clear hperm hc
  induction hsame with
  | nil => cases hmid
  | cons hab _ ih =>
      rcases List.mem_cons.1 hmid with rfl | hmid
      · exact ⟨_, List.mem_cons_self, hab⟩
      · obtain ⟨d, hd, hsame⟩ := ih hmid
        exact ⟨d, List.mem_cons_of_mem _ hd, hsame⟩

theorem declareSame (h : Reordered table cs ds) : SymbolTable.DeclareSame cs ds := by
  have hforth : ∀ {cs ds : List Cursor}, Reordered table cs ds → ∀ s,
      (∃ c ∈ cs, c.declared? = some s) → ∃ d ∈ ds, d.declared? = some s := by
    rintro cs ds h s ⟨c, hc, hs⟩
    obtain ⟨d, hd, hsame⟩ := h.exists_of_mem hc
    exact ⟨d, hd, by rw [← hsame.declared?_eq, hs]⟩
  exact fun s => ⟨hforth h s, hforth h.symm s⟩

theorem declaredNames_perm (h : Reordered table cs ds) :
    (declaredNames cs).Perm (declaredNames ds) := by
  obtain ⟨mid, hperm, hsame⟩ := h
  have hnames : declaredNames mid = declaredNames ds := by
    clear hperm
    induction hsame with
    | nil => rfl
    | cons hcd _ ih =>
        rw [declaredNames] at ih
        rw [declaredNames, declaredNames, List.filterMap_cons, List.filterMap_cons, ih,
          hcd.declared?_eq]
        rfl
  rw [← hnames]
  exact hperm.filterMap _

theorem newNames {old : SymbolTable} (h : Reordered table cs ds) (new : old.NewNames cs) :
    old.NewNames ds := by
  have hperm := h.declaredNames_perm
  exact ⟨hperm.nodup_iff.1 new.distinct,
    fun name hname => new.nonempty name (hperm.mem_iff.2 hname),
    fun name hname => new.absent name (hperm.mem_iff.2 hname)⟩

theorem declaredLink (h : Reordered table cs ds) {id base : TypeId}
    (hlink : table.DeclaredLink cs id base) : table.DeclaredLink ds id base := by
  obtain ⟨c, hc, s, hs, hid, hbase⟩ := hlink
  obtain ⟨d, hd, hsame⟩ := h.exists_of_mem hc
  exact ⟨d, hd, s, by rw [← hsame.declared?_eq, hs], hid, by rw [← hsame.boundBase?_eq, hbase]⟩

theorem boundAsDeclared {old : SymbolTable} (h : Reordered table cs ds)
    (hbound : SymbolTable.BoundAsDeclared old table cs) :
    SymbolTable.BoundAsDeclared old table ds where
  kept := hbound.kept
  declared := fun d hd s hs => by
    obtain ⟨c, hc, hsame⟩ := h.symm.exists_of_mem hd
    rw [hsame.declared?_eq] at hs
    rw [hsame.bound_eq]
    exact hbound.declared c hc s hs
  only := fun id s hs => by
    rcases hbound.only id s hs with hlt | ⟨c, hc, t, ht, rfl⟩
    · exact .inl hlt
    · obtain ⟨d, hd, hsame⟩ := h.exists_of_mem hc
      exact .inr ⟨d, hd, t, by rw [← hsame.declared?_eq, ht], by rw [hsame.bound_eq]⟩

end Reordered

/-- Trees that are those of another list in some order, with declarations in other places. -/
def TreesReordered (trees trees' : List Node) : Prop :=
  Relation.Comp List.Perm (List.Forall₂ Node.Rearranged) trees trees'

theorem TreesReordered.declarations {trees trees' : List Node} (h : TreesReordered trees trees') :
    Reordered table (declarationsOf trees) (declarationsOf trees') := by
  obtain ⟨permuted, hperm, hrearranged⟩ := h
  refine (Reordered.of_perm (hperm.flatMap_right _)).trans ?_
  clear hperm
  rw [declarationsOf]
  induction hrearranged with
  | nil => exact .of_same .nil
  | cons hfirst _ ih =>
      rw [List.flatMap_cons, List.flatMap_cons]
      exact hfirst.declarationsIn.append ih

namespace SymbolTable

/-! ## Circles -/

/-- The links that some declarations ask for, in order. -/
def declaredLinks (table : SymbolTable) (ds : List Cursor) : List (TypeId × TypeId) :=
  ds.filterMap fun c => c.declared?.bind fun s => (table.find? s.metadataName).bind fun id =>
    (table.boundBase? c).map fun base => (id, base)

theorem mem_declaredLinks {id base : TypeId} (h : table.DeclaredLink ds id base) :
    (id, base) ∈ table.declaredLinks ds := by
  obtain ⟨c, hc, s, hs, hid, hbase⟩ := h
  refine List.mem_filterMap.2 ⟨c, hc, ?_⟩
  rw [hs, Option.bind_some, hid, Option.bind_some, hbase, Option.map_some]

/-- Bases of ever lower rank do not lead round in a circle. -/
theorem acyclic_of_rank (rank : TypeId → Nat)
    (h : ∀ link ∈ table.declaredLinks ds, rank link.2 < rank link.1) (id : TypeId) :
    ¬ TransGen (table.DeclaredLink ds) id id := by
  have hlower : ∀ {x y : TypeId}, TransGen (table.DeclaredLink ds) x y → rank y < rank x := by
    intro x y hxy
    induction hxy with
    | single hlink => exact h _ (mem_declaredLinks hlink)
    | tail _ hlink ih => exact (h _ (mem_declaredLinks hlink)).trans ih
  exact fun hcycle => Nat.lt_irrefl _ (hlower hcycle)

theorem Invariant.named (inv : table.Invariant) (h : table.find? "" = none) (id : TypeId)
    (s : TypeSymbol) (hs : table.symbol? id = some s) : s.metadataName ≠ "" := by
  intro hempty
  have hfound := inv.find?_symbol hs
  rw [hempty, h] at hfound
  cases hfound

/-! ## Binding them -/

/-- Binding the same declarations in another order gives the same hierarchy. -/
theorem Reachable.sameHierarchy_bind {old : SymbolTable} (h : Reachable old)
    (present : old.InterfacesPresent) (roots : old.HasRoots) {trees trees' : List Node}
    (new : old.NewNames (declarationsOf trees))
    (hacyclic : ∀ id, ¬ TransGen ((old.bind trees).DeclaredLink (declarationsOf trees)) id id)
    (hreordered : Reordered (old.bind trees') (declarationsOf trees) (declarationsOf trees')) :
    SameHierarchy (old.bind trees) (old.bind trees') := by
  have hinv := (h.bind trees).invariant
  have hinv' := (h.bind trees').invariant
  have new' := hreordered.newNames new
  have hnames := h.sameNames_bind new new' hreordered.declareSame
  have hnames' := h.sameNames_bind new' new hreordered.symm.declareSame
  -- the links that the declarations ask for in the other table are those they ask for in this one
  have hacyclic' : ∀ id,
      ¬ TransGen ((old.bind trees').DeclaredLink (declarationsOf trees')) id id := fun id hcycle =>
    hnames'.acyclic_moved hinv' hacyclic id
      (TransGen.mono (fun _ _ hlink => hreordered.symm.declaredLink hlink) id id hcycle)
  have hbound := h.bound roots new hacyclic
  have hbound' := hreordered.symm.boundAsDeclared (h.bound roots new' hacyclic')
  exact hbound.sameHierarchy hbound' hnames hinv hinv' h.invariant present

/-- What comes of binding the declarations of some trees to a table. -/
structure BindsAsDeclared (old : SymbolTable) (trees : List Node) : Prop where
  bound : BoundAsDeclared old (Compilation.ofTrees old trees).table (declarationsOf trees)
  object : (Compilation.ofTrees old trees).table.find? objectName = some 0
  valueType : (Compilation.ofTrees old trees).table.find? valueTypeName = some 1
  /-- The declarations may stand anywhere, in whatever trees, as long as each says the same. -/
  anyPlace : ∀ trees', Reordered (Compilation.ofTrees old trees').table (declarationsOf trees)
      (declarationsOf trees') →
    SameHierarchy (Compilation.ofTrees old trees).table (Compilation.ofTrees old trees').table
  anyOrder : ∀ trees', TreesReordered trees trees' →
    SameHierarchy (Compilation.ofTrees old trees).table (Compilation.ofTrees old trees').table

theorem find?_bind {old : SymbolTable} {trees : List Node} {name : String} {id : TypeId}
    (hbound : BoundAsDeclared old (old.bind trees) (declarationsOf trees)) (inv : old.Invariant)
    (inv' : (old.bind trees).Invariant) (h : old.find? name = some id) :
    (old.bind trees).find? name = some id := by
  obtain ⟨s, hs, rfl⟩ := (inv.indexed _ _).1 h
  exact inv'.find?_symbol (hbound.kept id s hs)

/-- New declarations that ask for no circle of bases bind to what they say, in any order. -/
theorem bindsAsDeclared_of_steps {old : SymbolTable} (hsteps : ReflTransGen Step core old)
    (hnamed : ∀ id s, old.symbol? id = some s → s.metadataName ≠ "") {trees : List Node}
    (new : old.NewNames (declarationsOf trees))
    (hacyclic : ∀ id, ¬ TransGen ((old.bind trees).DeclaredLink (declarationsOf trees)) id id) :
    old.BindsAsDeclared trees := by
  have hreachable := Reachable.core.steps hsteps
  have hobject : old.find? objectName = some 0 := find?_steps hsteps (by decide)
  have hvalueType : old.find? valueTypeName = some 1 := find?_steps hsteps (by decide)
  have roots : old.HasRoots := ⟨⟨0, hobject⟩, ⟨1, hvalueType⟩, hnamed⟩
  have hbound := hreachable.bound roots new hacyclic
  have hinv := (hreachable.bind trees).invariant
  have hanyPlace : ∀ trees', Reordered (old.bind trees') (declarationsOf trees)
      (declarationsOf trees') → SameHierarchy (old.bind trees) (old.bind trees') := fun _ =>
    hreachable.sameHierarchy_bind (interfacesPresent_steps hsteps) roots new hacyclic
  exact ⟨hbound, find?_bind hbound hreachable.invariant hinv hobject,
    find?_bind hbound hreachable.invariant hinv hvalueType, hanyPlace,
    fun trees' htrees => hanyPlace trees' htrees.declarations⟩

/-- A class that lists an interface twice, and a base that a later tree declares: bound as well with
the trees the other way round and two declarations exchanged. -/
theorem bindsAsDeclared_of_forward_reference :
    let old := (core.declare "App" "Base" .classType).1.setBase 12 0
    let derived := Build.typeDeclaration .classDeclaration
      { name := "Derived", bases := ["IShape", "Middle", "IShape"] }
    let space := Build.namespaceDeclaration "N"
      [Build.typeDeclaration .structDeclaration { name := "Point", bases := ["IShape"] }]
    let shape := Build.typeDeclaration .interfaceDeclaration
      { name := "IShape", bases := ["System.IDisposable"] }
    let middle := Build.typeDeclaration .classDeclaration { name := "Middle", bases := ["Base"] }
    let first := Build.compilationUnit [] [derived, space]
    let second := Build.compilationUnit [Build.usingDirective "App"] [shape, middle]
    let swapped := Build.compilationUnit [] [space, derived]
    ReflTransGen Step core old ∧ (∀ id s, old.symbol? id = some s → s.metadataName ≠ "") ∧
      old.NewNames (declarationsOf [first, second]) ∧
      (∀ id, ¬ TransGen ((old.bind [first, second]).DeclaredLink
        (declarationsOf [first, second])) id id) ∧
      old.BindsAsDeclared [first, second] ∧
      SameHierarchy (Compilation.ofTrees old [first, second]).table
        (Compilation.ofTrees old [second, swapped]).table ∧
      (Compilation.ofTrees old [first, second]).table.find? "Derived" = some 13 ∧
      (Compilation.ofTrees old [second, swapped]).table.find? "Derived" = some 16 ∧
      (Compilation.ofTrees old [second, swapped]).table.describe? "Derived" =
        some ⟨"Derived", none, .classType, false, some "Middle", ["IShape"]⟩ := by
  intro old derived space shape middle first second swapped
  have hsteps : ReflTransGen Step core old :=
    .tail (.single (.declare "App" "Base" .classType)) (.setBase 12 0 (by decide))
  have hnamed := (Reachable.core.steps hsteps).invariant.named (by decide)
  have new : old.NewNames (declarationsOf [first, second]) :=
    ⟨by decide +kernel, by decide +kernel, by decide +kernel⟩
  have hacyclic : ∀ id, ¬ TransGen ((old.bind [first, second]).DeclaredLink
      (declarationsOf [first, second])) id id :=
    acyclic_of_rank (fun id => if id = 13 then 2 else if id < 13 then 0 else 1)
      (by decide +kernel)
  have hbinds := bindsAsDeclared_of_steps hsteps hnamed new hacyclic
  have hswapped : first.Rearranged swapped :=
    ⟨rfl, .exchanged (by rfl) (by rfl) derived.children space.children [Build.lineEnd]
      [Build.lineEnd, Build.fixed .endOfFileToken]⟩
  have hreordered : TreesReordered [first, second] [second, swapped] :=
    ⟨[second, first], .swap second first [], .cons ⟨rfl, .refl _⟩ (.cons hswapped .nil)⟩
  exact ⟨hsteps, hnamed, new, hacyclic, hbinds, hbinds.anyOrder _ hreordered, by decide +kernel,
    by decide +kernel, by decide +kernel⟩

end SymbolTable

end TreeLint
