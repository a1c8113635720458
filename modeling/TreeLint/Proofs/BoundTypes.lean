import TreeLint.Proofs.DeclaredTypes

/-!
# Binding writes what declarations say

Once all types have their places, binding visits them in turn and writes into each what its own
declaration says. By then the index is complete, and no base or interface that is written changes
the index or the kind of a type, so every declaration is read by the same lights.

The one thing that could go wrong is that a base is refused, because it leads back to the type. What
leads anywhere at that time is links of the old table and links that declarations ask for. If those
form no cycle, no part of them does, so nothing is ever refused, and what a type ends up with does
not depend on its turn.
-/

namespace TreeLint.SymbolTable

open Relation (TransGen ReflTransGen)

variable {table : SymbolTable}

/-! ## One declaration -/

theorem isInterface_modify (id : TypeId) {change : TypeSymbol → TypeSymbol}
    (hkind : ∀ s, (change s).kind = s.kind) :
    (table.modify id change).isInterface = table.isInterface := by
  funext other
  rw [isInterface, isInterface, symbol?_modify]
  by_cases heq : id = other
  · rw [if_pos heq]
    cases table.symbol? other with
    | none => rfl
    | some s => simp only [Option.map_some, TypeSymbol.isInterface, hkind]
  · rw [if_neg heq]

theorem isInterface_setBase (id base : TypeId) :
    (table.setBase id base).isInterface = table.isInterface := by
  unfold setBase
  split
  · exact isInterface_modify id fun _ => rfl
  · rfl

theorem isInterface_addInterfaces (id : TypeId) (interfaces : List TypeId) :
    (interfaces.foldl (fun table i => table.addInterface id i) table).isInterface =
      table.isInterface := by
  induction interfaces generalizing table with
  | nil => rfl
  | cons i rest ih =>
      rw [List.foldl_cons, ih]
      exact isInterface_modify id fun s => by split <;> rfl

theorem isInterface_bindBases (d : Declared) :
    (table.bindBases d).isInterface = table.isInterface := by
  unfold bindBases
  simp only []
  rw [isInterface_addInterfaces]
  split
  · exact isInterface_setBase _ _
  · rfl

theorem isInterface_foldl_bindBases (declared : List Declared) :
    (declared.foldl bindBases table).isInterface = table.isInterface := by
  induction declared generalizing table with
  | nil => rfl
  | cons d rest ih => rw [List.foldl_cons, ih, isInterface_bindBases]

theorem bound_congr {table' : SymbolTable} (hplaces : table.places = table'.places)
    (hkinds : table.isInterface = table'.isInterface) :
    table.boundBase? = table'.boundBase? ∧ table.bound = table'.bound := by
  have hnamed : table.namedTypes = table'.namedTypes := by
    funext c
    rw [namedTypes, namedTypes, resolveName?_congr hplaces]
  have hbase : table.boundBase? = table'.boundBase? := by
    funext c
    rw [boundBase?, boundBase?, hnamed, hkinds, find?_congr hplaces]
  refine ⟨hbase, ?_⟩
  funext c s
  rw [bound, bound, hbase, boundInterfaces, boundInterfaces, hnamed, hkinds]

/-- Some interfaces with one more, unless it is among them. -/
def addOnce (listed : List TypeId) (i : TypeId) : List TypeId :=
  if listed.contains i then listed else listed ++ [i]

theorem foldl_addOnce (listed more : List TypeId) :
    more.foldl addOnce listed = listed ++ (more.filter fun i => !listed.contains i).eraseDups := by
  induction more generalizing listed with
  | nil => simp
  | cons i rest ih =>
      rw [List.foldl_cons, addOnce, List.filter_cons]
      split
      · next h => rw [ih, h]; rfl
      · next h =>
          rw [Bool.not_eq_true] at h
          have hagain : ∀ j, (!(listed ++ [i]).contains j) = (!j == i && !listed.contains j) := by
            intro j
            rw [Bool.eq_iff_iff]
            simp [and_comm]
          rw [ih, h, Bool.not_false, if_pos rfl, List.eraseDups_cons, List.filter_filter,
            List.append_assoc, List.singleton_append]
          simp only [hagain]

theorem symbol?_addInterface (id i other : TypeId) :
    (table.addInterface id i).symbol? other =
      if id = other then (table.symbol? other).map fun s =>
        { s with interfaces := addOnce s.interfaces i }
      else table.symbol? other := by
  have hchange : (fun s : TypeSymbol => if s.interfaces.contains i then s
      else { s with interfaces := s.interfaces ++ [i] }) =
      fun s => { s with interfaces := addOnce s.interfaces i } := by
    funext s
    rw [addOnce]
    split <;> rfl
  rw [addInterface, hchange, symbol?_modify]

theorem symbol?_addInterfaces (id other : TypeId) (interfaces : List TypeId) :
    (interfaces.foldl (fun table i => table.addInterface id i) table).symbol? other =
      if id = other then (table.symbol? other).map fun s =>
        { s with interfaces := interfaces.foldl addOnce s.interfaces }
      else table.symbol? other := by
  induction interfaces generalizing table with
  | nil =>
      split
      · exact Option.map_id'.symm
      · rfl
  | cons i rest ih =>
      rw [List.foldl_cons, ih, symbol?_addInterface]
      split
      · rw [Option.map_map]
        rfl
      · rfl

/-- The table with a base set, if there is one. -/
def setBase? (table : SymbolTable) (id : TypeId) (base : Option TypeId) : SymbolTable :=
  base.elim table (table.setBase id)

theorem places_setBase? (table : SymbolTable) (id : TypeId) (base : Option TypeId) :
    (table.setBase? id base).places = table.places := by
  cases base with
  | none => rfl
  | some base => exact places_setBase table id base

/-- A bare type that may have its base is given that base and some interfaces, and no other type
changes. -/
theorem symbol?_written {id : TypeId} {s : TypeSymbol} {base : Option TypeId}
    (hs : table.symbol? id = some s) (hbase : s.base = none) (hinterfaces : s.interfaces = [])
    (haccepts : ∀ b, base = some b → table.acceptsBase id b = true) (interfaces : List TypeId)
    (other : TypeId) :
    (interfaces.foldl (fun table i => table.addInterface id i)
      (table.setBase? id base)).symbol? other =
      if id = other then some { s with base := base, interfaces := interfaces.eraseDups }
      else table.symbol? other := by
  have hbased : (table.setBase? id base).symbol? other =
      if id = other then some { s with base := base } else table.symbol? other := by
    cases base with
    | none =>
        rw [setBase?, Option.elim_none]
        split
        · next heq => rw [← heq, hs, ← hbase]
        · rfl
    | some base =>
        rw [setBase?, Option.elim_some, setBase, if_pos (haccepts base rfl), symbol?_modify]
        split
        · next heq => rw [← heq, hs]; rfl
        · rfl
  rw [symbol?_addInterfaces, hbased]
  split
  · rw [Option.map_some, hinterfaces, foldl_addOnce]
    simp
  · rfl

/-- The base that binding looks for is the one that the declaration gives, unless it would be the
type itself that it falls back to. -/
theorem bindBases_eq {d : Declared} (hkind : d.kind = declaredKind d.declaration.kind)
    (hroot : table.find? (defaultBaseName d.kind) ≠ some d.id)
    (hempty : table.find? "" = none) :
    table.bindBases d = ((table.namedTypes d.declaration).filter table.isInterface).foldl
      (fun table i => table.addInterface d.id i)
      (table.setBase? d.id (table.boundBase? d.declaration)) := by
  have hother : ∀ id, table.find? (defaultBaseName d.kind) = some id → id ≠ d.id :=
    fun id hfound heq => hroot (by rw [hfound, heq])
  unfold bindBases boundBase? namedTypes
  simp only [← hkind]
  refine congrArg (List.foldl _ · _) ?_
  -- the declared type itself is never what it falls back to, so that question can be dropped
  cases hclass : d.kind with
  | classType =>
      simp only [hclass, defaultBaseName] at hother ⊢
      simp only [if_true]
      cases (d.declaration.baseNames.filterMap table.resolveName?).find?
          fun id => !table.isInterface id with
      | some id => rfl
      | none =>
          cases hfound : table.find? objectName with
          | none => rfl
          | some id => simp only [if_neg (hother id hfound)]; rfl
  | structType =>
      simp only [hclass, defaultBaseName] at hother ⊢
      cases hfound : table.find? valueTypeName with
      | none => rfl
      | some id => simp only [if_neg (hother id hfound)]; rfl
  | interfaceType => simp only [defaultBaseName, hempty]; rfl
  | enumType => simp only [defaultBaseName, hempty]; rfl
  | delegateType => simp only [defaultBaseName, hempty]; rfl

theorem symbol?_bindBases {d : Declared} {s : TypeSymbol}
    (hkind : d.kind = declaredKind d.declaration.kind)
    (hroot : table.find? (defaultBaseName d.kind) ≠ some d.id)
    (hempty : table.find? "" = none) (hs : table.symbol? d.id = some s) (hbase : s.base = none)
    (hinterfaces : s.interfaces = [])
    (haccepts : ∀ base, table.boundBase? d.declaration = some base →
      table.acceptsBase d.id base = true) (other : TypeId) :
    (table.bindBases d).symbol? other =
      if d.id = other then some (table.bound d.declaration s) else table.symbol? other := by
  rw [bindBases_eq hkind hroot hempty, symbol?_written hs hbase hinterfaces haccepts]
  rfl

/-! ## All declarations

Whatever is bound by then, a link of the table is one that it had at first or one that a
declaration asks for. -/

/-- A link of a table, or one that a declared type asks for by the index of another. -/
def MayLink (old table : SymbolTable) (declared : List Declared) (id base : TypeId) : Prop :=
  old.Link id base ∨ ∃ d ∈ declared, d.id = id ∧ table.boundBase? d.declaration = some base

/-- Declared types with places of their own, none of which is a base that types fall back to, in a
table that lets each of them have its base. -/
structure ReadyToBind (old table : SymbolTable) (declared : List Declared) : Prop where
  distinct : (declared.map (·.id)).Nodup
  kind : ∀ d ∈ declared, d.kind = declaredKind d.declaration.kind
  bare : ∀ d ∈ declared, ∃ s, table.symbol? d.id = some s ∧ s.base = none ∧ s.interfaces = []
  not_root : ∀ d ∈ declared, table.find? (defaultBaseName d.kind) ≠ some d.id
  nonempty : table.find? "" = none
  acyclic : ∀ id, ¬ TransGen (MayLink old table declared) id id

/-- A declared type is never refused the base that its declaration gives it. -/
theorem ReadyToBind.accepts {old table now : SymbolTable} {declared : List Declared}
    (ready : ReadyToBind old table declared)
    (hlinks : ∀ id base, now.Link id base → MayLink old table declared id base) {d : Declared}
    (hd : d ∈ declared) (hid : d.id < now.size) {base : TypeId}
    (hbase : table.boundBase? d.declaration = some base) : now.acceptsBase d.id base = true := by
  have hback : d.id ∉ now.chain base := fun hmem => by
    have hreach : ReflTransGen (MayLink old table declared) base d.id :=
      ReflTransGen.mono hlinks _ _ (reaches_of_mem_chainFrom hmem)
    exact ready.acyclic d.id (.head' (.inr ⟨d, hd, rfl, hbase⟩) hreach)
  simp [acceptsBase, hback, hid]

theorem ReadyToBind.symbol?_bindBases {old table now : SymbolTable} {declared : List Declared}
    (ready : ReadyToBind old table declared) (hplaces : now.places = table.places)
    (hkinds : now.isInterface = table.isInterface)
    (hlinks : ∀ id base, now.Link id base → MayLink old table declared id base) {d : Declared}
    (hd : d ∈ declared) {s : TypeSymbol} (hs : table.symbol? d.id = some s)
    (hwaiting : now.symbol? d.id = some s) (other : TypeId) :
    (now.bindBases d).symbol? other =
      if d.id = other then some (table.bound d.declaration s) else now.symbol? other := by
  obtain ⟨hbase, hbound⟩ := bound_congr hplaces hkinds
  obtain ⟨t, ht, hnone, hnil⟩ := ready.bare d hd
  obtain rfl : s = t := Option.some.inj (hs.symm.trans ht)
  have hfind := find?_congr hplaces
  rw [← hbound]
  refine SymbolTable.symbol?_bindBases (ready.kind d hd) ?_ ?_ hwaiting hnone hnil
    (fun base hb => ?_) other
  · rw [hfind]
    exact ready.not_root d hd
  · rw [hfind]
    exact ready.nonempty
  · rw [hbase] at hb
    exact ready.accepts hlinks hd (lt_size_of_symbol? hwaiting) hb

/-- Each declaration writes into its own type, and nothing else is written. -/
theorem ReadyToBind.symbol?_foldl {old table now : SymbolTable} {declared todo : List Declared}
    (ready : ReadyToBind old table declared) (hplaces : now.places = table.places)
    (hkinds : now.isInterface = table.isInterface)
    (hlinks : ∀ id base, now.Link id base → MayLink old table declared id base)
    (hsub : todo.Sublist declared)
    (hwaiting : ∀ d ∈ todo, now.symbol? d.id = table.symbol? d.id) :
    (∀ d ∈ todo, ∀ s, table.symbol? d.id = some s →
        (todo.foldl bindBases now).symbol? d.id = some (table.bound d.declaration s)) ∧
      ∀ id, (∀ d ∈ todo, d.id ≠ id) → (todo.foldl bindBases now).symbol? id = now.symbol? id := by
  induction todo generalizing now with
  | nil => exact ⟨fun d hd => (List.not_mem_nil hd).elim, fun _ _ => rfl⟩
  | cons d rest ih =>
      have hd : d ∈ declared := hsub.subset List.mem_cons_self
      obtain ⟨s, hs, -⟩ := ready.bare d hd
      have hstep := ready.symbol?_bindBases hplaces hkinds hlinks hd hs
        ((hwaiting d List.mem_cons_self).trans hs)
      have hdistinct : ∀ e ∈ rest, d.id ≠ e.id := by
        have hnodup := ready.distinct.sublist (hsub.map (·.id))
        rw [List.map_cons, List.nodup_cons] at hnodup
        exact fun e he heq => hnodup.1 (List.mem_map.2 ⟨e, he, heq.symm⟩)
      -- what carries the induction: no link is added but one that a declaration asks for
      have hlinks' : ∀ id base, (now.bindBases d).Link id base →
          MayLink old table declared id base := by
        intro id base hlink
        rw [Link, base?_eq, hstep] at hlink
        split at hlink
        · next heq => exact .inr ⟨d, hd, heq, hlink⟩
        · rw [← base?_eq] at hlink
          exact hlinks id base hlink
      obtain ⟨hbound, hkept⟩ := ih (by rw [places_bindBases, hplaces])
        (by rw [isInterface_bindBases, hkinds]) hlinks' ((List.sublist_cons_self d rest).trans hsub)
        (fun e he => by
          rw [hstep, if_neg (hdistinct e he), hwaiting e (List.mem_cons_of_mem d he)])
      constructor
      · intro e he t ht
        rcases List.mem_cons.1 he with rfl | he
        · obtain rfl : s = t := Option.some.inj (hs.symm.trans ht)
          rw [List.foldl_cons, hkept e.id fun e' he' => (hdistinct e' he').symm, hstep, if_pos rfl]
        · exact hbound e he t ht
      · intro id hid
        rw [List.forall_mem_cons] at hid
        rw [List.foldl_cons, hkept id hid.2, hstep, if_neg hid.1]

/-! ## The bound table -/

/-- A table in which binding finds the roots it falls back to, and no type without a name. -/
structure HasRoots (table : SymbolTable) : Prop where
  object : ∃ id, table.find? objectName = some id
  valueType : ∃ id, table.find? valueTypeName = some id
  named : ∀ id s, table.symbol? id = some s → s.metadataName ≠ ""

/-- The types of an old table as they were, and behind them the types that some declarations
declare, each as its declaration says by the whole table. -/
structure BoundAsDeclared (old table : SymbolTable) (ds : List Cursor) : Prop where
  kept : ∀ id s, old.symbol? id = some s → table.symbol? id = some s
  declared : ∀ c ∈ ds, ∀ s, c.declared? = some s → ∃ id, old.size ≤ id ∧
    table.find? s.metadataName = some id ∧ table.symbol? id = some (table.bound c s)
  only : ∀ id s, table.symbol? id = some s → id < old.size ∨
    ∃ c ∈ ds, ∃ t, c.declared? = some t ∧ s = table.bound c t

theorem mem_declaredNames {ds : List Cursor} {c : Cursor} {s : TypeSymbol} (hc : c ∈ ds)
    (hs : c.declared? = some s) : s.metadataName ∈ declaredNames ds :=
  List.mem_filterMap.2 ⟨c, hc, by rw [hs]; rfl⟩

theorem declaredLink_congr {table' : SymbolTable} (hplaces : table.places = table'.places)
    (hkinds : table.isInterface = table'.isInterface) (ds : List Cursor) :
    table.DeclaredLink ds = table'.DeclaredLink ds := by
  funext id base
  rw [DeclaredLink, DeclaredLink, find?_congr hplaces, (bound_congr hplaces hkinds).1]

section Places

variable {old : SymbolTable} {ds : List Cursor} {declared : List Declared}

theorem Appends.declaredLink (h : old.Appends ds table declared) (inv : table.Invariant)
    {d : Declared} (hd : d ∈ declared) {base : TypeId}
    (hbase : table.boundBase? d.declaration = some base) : table.DeclaredLink ds d.id base := by
  obtain ⟨-, hmem, -, s, hs, hsymbol⟩ := h.new d hd
  exact ⟨d.declaration, hmem, s, hs, (inv.indexed _ _).2 ⟨s, hsymbol, rfl⟩, hbase⟩

/-- Old types lead to old types by old links, and only new types lead to a new type. So a cycle is
one of old links, or one of links that declarations ask for. -/
theorem Appends.acyclic (h : old.Appends ds table declared) (inv : old.Invariant)
    (inv' : table.Invariant) (hacyclic : ∀ id, ¬ TransGen (table.DeclaredLink ds) id id)
    (id : TypeId) : ¬ TransGen (MayLink old table declared) id id := by
  intro hcycle
  have hold : ∀ {x y : TypeId}, MayLink old table declared x y → x < old.size →
      old.Link x y := by
    rintro x y (hlink | ⟨d, hd, rfl, -⟩) hx
    · exact hlink
    · exact absurd hx (Nat.not_lt.2 (h.new d hd).1)
  rcases cycle_within (fun hlink hx => inv.present _ _ (hold hlink hx)) hcycle with
    hinside | houtside
  · exact inv.acyclic id (TransGen.mono (fun _ _ hlink => hold hlink.1 hlink.2) id id hinside)
  · refine hacyclic id (TransGen.mono (fun x y hlink => ?_) id id houtside)
    obtain ⟨hlink | ⟨d, hd, rfl, hbase⟩, hy⟩ := hlink
    · exact absurd (inv.present x y hlink) hy
    · exact h.declaredLink inv' hd hbase

theorem Appends.readyToBind (h : old.Appends ds table declared) (inv : old.Invariant)
    (inv' : table.Invariant) (roots : old.HasRoots) (new : old.NewNames ds)
    (hacyclic : ∀ id, ¬ TransGen (table.DeclaredLink ds) id id) :
    ReadyToBind old table declared := by
  have hname : ∀ d ∈ declared, ∀ name, table.find? name = some d.id →
      name ∈ declaredNames ds := by
    intro d hd name hfound
    obtain ⟨-, hmem, -, s, hs, hsymbol⟩ := h.new d hd
    obtain ⟨t, ht, rfl⟩ := (inv'.indexed _ _).1 hfound
    obtain rfl : s = t := Option.some.inj (hsymbol.symm.trans ht)
    exact mem_declaredNames hmem hs
  refine ⟨h.distinct, fun d hd => (h.new d hd).2.2.1, fun d hd => ?_, fun d hd hfound => ?_, ?_,
    h.acyclic inv inv' hacyclic⟩
  · obtain ⟨-, -, -, s, hs, hsymbol⟩ := h.new d hd
    obtain ⟨name, -, rfl⟩ := Option.map_eq_some_iff.1 hs
    exact ⟨_, hsymbol, rfl, rfl⟩
  · have hmem := hname d hd _ hfound
    cases hk : d.kind with
    | classType =>
        rw [hk] at hmem
        obtain ⟨id, hid⟩ := roots.object
        rw [new.absent objectName hmem] at hid
        cases hid
    | structType =>
        rw [hk] at hmem
        obtain ⟨id, hid⟩ := roots.valueType
        rw [new.absent valueTypeName hmem] at hid
        cases hid
    | interfaceType => exact new.nonempty _ hmem (by rw [hk]; rfl)
    | enumType => exact new.nonempty _ hmem (by rw [hk]; rfl)
    | delegateType => exact new.nonempty _ hmem (by rw [hk]; rfl)
  · cases hfound : table.find? "" with
    | none => rfl
    | some id =>
        obtain ⟨s, hs, hempty⟩ := (inv'.indexed _ _).1 hfound
        rcases h.only id s hs with hlt | ⟨d, hd, rfl⟩
        · rw [h.old id hlt] at hs
          exact absurd hempty (roots.named id s hs)
        · exact absurd rfl (new.nonempty "" (hname d hd "" hfound))

/-- A table that is bound to new declarations says what they say. -/
theorem Appends.bound (h : old.Appends ds table declared) (inv' : table.Invariant)
    (ready : ReadyToBind old table declared) {now : SymbolTable}
    (hnow : now = declared.foldl bindBases table) : BoundAsDeclared old now ds := by
  have hplaces : now.places = table.places := by rw [hnow, places_foldl_bindBases]
  have hkinds : now.isInterface = table.isInterface := by rw [hnow, isInterface_foldl_bindBases]
  have hlinks : ∀ id base, table.Link id base → MayLink old table declared id base := by
    intro id base hlink
    rw [Link, base?_eq] at hlink
    obtain ⟨s, hs, hb⟩ := Option.bind_eq_some_iff.1 hlink
    rcases h.only id s hs with hlt | ⟨d, hd, rfl⟩
    · refine .inl ?_
      rw [Link, base?_eq, ← h.old id hlt, hs]
      exact hb
    · obtain ⟨t, ht, hnone, -⟩ := ready.bare d hd
      obtain rfl : s = t := Option.some.inj (hs.symm.trans ht)
      rw [hnone] at hb
      cases hb
  obtain ⟨hbound, hkept⟩ := ready.symbol?_foldl rfl rfl hlinks (List.Sublist.refl declared)
    fun _ _ => rfl
  rw [← hnow] at hbound hkept
  have hsame := (bound_congr hplaces hkinds).2
  have hold : ∀ id < old.size, now.symbol? id = old.symbol? id := by
    intro id hlt
    rw [hkept id fun d hd heq => absurd hlt (Nat.not_lt.2 (heq ▸ (h.new d hd).1)), h.old id hlt]
  refine ⟨fun id s hs => ?_, fun c hc s hs => ?_, fun id s hs => ?_⟩
  · rw [hold id (lt_size_of_symbol? hs), hs]
  · obtain ⟨d, hd, rfl⟩ := h.every c hc (by rw [hs]; simp)
    obtain ⟨hle, -, -, t, ht, hsymbol⟩ := h.new d hd
    obtain rfl : s = t := Option.some.inj (hs.symm.trans ht)
    refine ⟨d.id, hle, ?_, by rw [hsame, hbound d hd s hsymbol]⟩
    rw [find?_congr hplaces]
    exact (inv'.indexed _ _).2 ⟨s, hsymbol, rfl⟩
  · by_cases hdeclared : ∃ d ∈ declared, d.id = id
    · obtain ⟨d, hd, rfl⟩ := hdeclared
      obtain ⟨-, hmem, -, t, ht, hsymbol⟩ := h.new d hd
      rw [hbound d hd t hsymbol, ← hsame] at hs
      exact .inr ⟨d.declaration, hmem, t, ht, (Option.some.inj hs).symm⟩
    · rw [hkept id fun d hd heq => hdeclared ⟨d, hd, heq⟩] at hs
      rcases h.only id s hs with hlt | hmem
      · exact .inl hlt
      · exact absurd hmem hdeclared

end Places

theorem bind_places (old : SymbolTable) (trees : List Node) :
    (old.bind trees).places = (old.declareAll (declarationsOf trees)).1.places ∧
      (old.bind trees).isInterface = (old.declareAll (declarationsOf trees)).1.isInterface :=
  ⟨by rw [bind_eq, places_foldl_bindBases]; rfl,
    by rw [bind_eq, isInterface_foldl_bindBases]; rfl⟩

theorem Reachable.bound {old : SymbolTable} (h : Reachable old) (roots : old.HasRoots)
    {trees : List Node} (new : old.NewNames (declarationsOf trees))
    (hacyclic : ∀ id, ¬ TransGen ((old.bind trees).DeclaredLink (declarationsOf trees)) id id) :
    BoundAsDeclared old (old.bind trees) (declarationsOf trees) := by
  have hinv := (h.declareAll (declarationsOf trees)).invariant
  obtain ⟨hplaces, hkinds⟩ := bind_places old trees
  rw [declaredLink_congr hplaces hkinds] at hacyclic
  have happends := appends_declareAll new
  exact happends.bound hinv (happends.readyToBind h.invariant hinv roots new hacyclic) rfl

end TreeLint.SymbolTable
