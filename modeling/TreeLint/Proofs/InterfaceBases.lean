import TreeLint.Proofs.HierarchyByName
import TreeLint.Proofs.RedeclaredTypes
import TreeLint.Proofs.RefusedBases

/-!
# The base of an interface

A class or a struct whose base list names no base falls back to the root of its kind. There is no
such root for interfaces: they fall back to the type with the empty name. As a rule there is none,
and an interface has no base. But a declaration whose identifier has an empty text declares one, and
then every other interface is based on it.

Only a base that leads back to the interface is refused, and then some link ends at the interface.
No base list asks for such a link, since an interface that it names is no base, and no other type
falls back to an interface unless it has the name of a root. So an interface under any other name
has no base exactly if there is no type with the empty name, or it is that type.
-/

namespace TreeLint.SymbolTable

open Relation (TransGen ReflTransGen)

variable {table : SymbolTable}

/-! ## The first round -/

theorem declareAll_known {c : Cursor} {s : TypeSymbol} {id : TypeId} (h : c.declared? = some s)
    (hknown : table.find? s.metadataName = some id) (rest : List Cursor) :
    table.declareAll (c :: rest) = ((table.declareAll rest).1,
      ⟨id, declaredKind c.kind, c⟩ :: (table.declareAll rest).2) := by
  obtain ⟨name, hname, rfl⟩ := Option.map_eq_some_iff.1 h
  rw [declareAll, hname]
  simp only [declare, hknown]

/-- Whatever declarations add to a table is as one of them declares it. -/
theorem symbol?_declareAll {ds : List Cursor} {id : TypeId} {s : TypeSymbol}
    (h : (table.declareAll ds).1.symbol? id = some s) :
    table.symbol? id = some s ∨ ∃ c ∈ ds, c.declared? = some s := by
  induction ds generalizing table with
  | nil => exact .inl h
  | cons c rest ih =>
      have hlater : ∀ {table' : SymbolTable}, (table'.declareAll rest).1.symbol? id = some s →
          table'.symbol? id = some s ∨ ∃ d ∈ c :: rest, d.declared? = some s := by
        intro table' h'
        exact (ih h').imp_right fun ⟨d, hd, hs⟩ => ⟨d, List.mem_cons_of_mem c hd, hs⟩
      cases hc : c.declared? with
      | none =>
          rw [declareAll_none hc] at h
          exact hlater h
      | some t =>
          cases hfound : table.find? t.metadataName with
          | some known =>
              rw [declareAll_known hc hfound] at h
              exact hlater h
          | none =>
              rw [declareAll_some hc hfound] at h
              rcases hlater h with hpushed | hdeclared
              · rw [symbol?_push] at hpushed
                split at hpushed
                · exact .inr ⟨c, List.mem_cons_self, hc.trans hpushed⟩
                · exact .inl hpushed
              · exact .inr hdeclared

/-! ## Where a base comes from -/

/-- A declaration leaves a type the base that it had, or gives it the one that it asks for. -/
theorem base?_bindBases_or {d : Declared} (hkind : d.kind = declaredKind d.declaration.kind)
    (id : TypeId) : (table.bindBases d).base? id = table.base? id ∨
      d.id = id ∧ (table.bindBases d).base? id = table.askedBase? id d.declaration := by
  cases haccepts : (table.askedBase? d.id d.declaration).all (table.acceptsBase d.id) with
  | true =>
      rw [base?_bindBases hkind haccepts]
      by_cases hid : d.id = id
      · subst hid
        rw [if_pos rfl]
        cases table.askedBase? d.id d.declaration with
        | none => exact .inl Option.none_or
        | some base => exact .inr ⟨rfl, Option.some_or⟩
      · exact .inl (if_neg hid)
  | false =>
      rw [bindBases_eq_asked hkind, base?_addInterfaces]
      cases hasked : table.askedBase? d.id d.declaration with
      | none => exact .inl rfl
      | some base =>
          rw [hasked, Option.all_some] at haccepts
          rw [setBase?, Option.elim_some, setBase_of_refused haccepts]
          exact .inl rfl

/-- Behind all declarations a type has the base that it had, or one that a declaration of it asked
for. -/
theorem base?_foldl_bindBases_or {declared : List Declared}
    (hkinds : ∀ d ∈ declared, d.kind = declaredKind d.declaration.kind) (id : TypeId) :
    (declared.foldl bindBases table).base? id = table.base? id ∨
      ∃ d ∈ declared, d.id = id ∧
        (declared.foldl bindBases table).base? id = table.askedBase? id d.declaration := by
  induction declared generalizing table with
  | nil => exact .inl rfl
  | cons d rest ih =>
      rw [List.forall_mem_cons] at hkinds
      have hasked : (table.bindBases d).askedBase? = table.askedBase? :=
        askedBase?_congr (places_bindBases table d) (isInterface_bindBases d)
      rw [List.foldl_cons]
      rcases ih hkinds.2 with hsame | ⟨e, he, hid, hbase⟩
      · rw [hsame]
        rcases base?_bindBases_or hkinds.1 id with hkept | ⟨hid, hbase⟩
        · exact .inl hkept
        · exact .inr ⟨d, List.mem_cons_self, hid, hbase⟩
      · rw [hasked] at hbase
        exact .inr ⟨e, List.mem_cons_of_mem d he, hid, hbase⟩

/-! ## Types that nothing is based on -/

/-- No type has some type for its base. -/
def Unlinked (table : SymbolTable) (id : TypeId) : Prop := ∀ x, ¬ table.Link x id

theorem Unlinked.accepts {id base : TypeId} (h : table.Unlinked id) (inv : table.Invariant)
    (hid : id < table.size) (hne : base ≠ id) : table.acceptsBase id base = true := by
  rw [← Bool.not_eq_false, inv.acceptsBase_eq_false_iff hid]
  rintro (heq | hback)
  · exact hne heq.symm
  · obtain ⟨x, -, hlink⟩ := TransGen.tail'_iff.1 hback
    exact h x hlink

theorem Unlinked.bindBases {id : TypeId} (h : table.Unlinked id) {d : Declared}
    (hkind : d.kind = declaredKind d.declaration.kind)
    (hnever : table.askedBase? d.id d.declaration ≠ some id) : (table.bindBases d).Unlinked id := by
  intro x hlink
  rw [Link] at hlink
  rcases base?_bindBases_or hkind x with hkept | ⟨rfl, hbase⟩
  · exact h x (hkept.symm.trans hlink)
  · exact hnever (hbase.symm.trans hlink)

theorem exists_of_isInterface {id : TypeId} (h : table.isInterface id = true) :
    ∃ s, table.symbol? id = some s := by
  unfold isInterface at h
  split at h
  · next s hs => exact ⟨s, hs⟩
  · cases h

/-- A type that nothing is ever based on has the base that its declarations ask for, if they agree
on one: none of them is refused it. -/
theorem Unlinked.base?_foldl_bindBases {declared : List Declared} {id base : TypeId}
    (h : table.Unlinked id) (hr : Reachable table) (hid : table.isInterface id = true)
    (hkinds : ∀ d ∈ declared, d.kind = declaredKind d.declaration.kind)
    (hnever : ∀ d ∈ declared, table.askedBase? d.id d.declaration ≠ some id)
    (hasked : ∀ d ∈ declared, d.id = id → table.askedBase? id d.declaration = some base)
    (hbased : table.base? id = some base ∨ ∃ d ∈ declared, d.id = id) :
    (declared.foldl SymbolTable.bindBases table).base? id = some base := by
  induction declared generalizing table with
  | nil =>
      rcases hbased with hbase | ⟨d, hd, -⟩
      · exact hbase
      · cases hd
  | cons d rest ih =>
      rw [List.forall_mem_cons] at hkinds hnever hasked
      have hsame : (table.bindBases d).askedBase? = table.askedBase? :=
        askedBase?_congr (places_bindBases table d) (isInterface_bindBases d)
      rw [List.foldl_cons]
      refine ih (h.bindBases hkinds.1 hnever.1) (hr.bindBases d)
        (by rw [isInterface_bindBases, hid]) hkinds.2 (by rw [hsame]; exact hnever.2)
        (by rw [hsame]; exact hasked.2) ?_
      by_cases hd : d.id = id
      · subst hd
        have hbase := hasked.1 rfl
        have hne : base ≠ d.id := fun heq => hnever.1 (heq ▸ hbase)
        obtain ⟨s, hs⟩ := exists_of_isInterface hid
        have haccepts := h.accepts hr.invariant (lt_size_of_symbol? hs) hne
        refine .inl ?_
        rw [base?_bindBases hkinds.1 (by rw [hbase, Option.all_some, haccepts]), if_pos rfl, hbase,
          Option.some_or]
      · rcases hbased with hbase | ⟨e, he, heq⟩
        · rcases base?_bindBases_or hkinds.1 id with hkept | ⟨heq, -⟩
          · exact .inl (hkept.trans hbase)
          · exact absurd heq hd
        · rcases List.mem_cons.1 he with rfl | he
          · exact absurd heq hd
          · exact .inr ⟨e, he, heq⟩

/-! ## What interfaces ask for -/

theorem askedBase?_interface {c : Cursor} (hc : c.kind = .interfaceDeclaration) (id : TypeId) :
    table.askedBase? id c = (table.find? "").filter (· ≠ id) := by
  have hkind : declaredKind c.kind = .interfaceType := by rw [hc]; rfl
  rw [askedBase?, listedBase?, fallback?, hkind, if_neg (by decide), Option.none_or]
  rfl

/-- No declaration asks for an interface that none falls back to. -/
theorem askedBase?_ne {i : TypeId} (hi : table.isInterface i = true)
    (hroot : ∀ kind, table.find? (defaultBaseName kind) ≠ some i) (id : TypeId) (c : Cursor) :
    table.askedBase? id c ≠ some i := by
  intro h
  rcases Option.or_eq_some_iff.1 h with hlisted | ⟨-, hfallback⟩
  · unfold listedBase? at hlisted
    split at hlisted
    · have hother := List.find?_some hlisted
      rw [hi] at hother
      cases hother
    · cases hlisted
  · exact hroot _ (Option.filter_eq_some_iff.1 hfallback).1

/-- What becomes of the base of an interface of some name. -/
structure BasedOnNameless (table : SymbolTable) (name : String) (id : TypeId) : Prop where
  /-- Where no other type has the empty name, it has no base. -/
  baseless : (∀ nameless, table.find? "" = some nameless → nameless = id) → table.base? id = none
  nameless : ∀ base, table.base? id = some base → table.find? "" = some base ∧ base ≠ id
  /-- Only under the name of a root it can do without the base that has the empty name. -/
  based : name ≠ objectName → name ≠ valueTypeName →
    ∀ nameless, table.find? "" = some nameless → nameless ≠ id → table.base? id = some nameless

theorem Invariant.eq_of_find? (inv : table.Invariant) {name other : String} {id : TypeId}
    (h : table.find? name = some id) (h' : table.find? other = some id) : name = other := by
  have hname := inv.metadataName?_of_find? h
  rw [inv.metadataName?_of_find? h'] at hname
  exact (Option.some.inj hname).symm

section Declared

variable {old : SymbolTable} (h : Reachable old) {trees : List Node} {name : String} {id : TypeId}
  (hnew : old.find? name = none)
  (hid : (old.declareAll (declarationsOf trees)).1.find? name = some id)

include h hnew hid

/-- A new type is at first as one of its declarations declares it. -/
theorem exists_declared_of_new : ∃ c ∈ declarationsNamed trees name, ∃ s, c.declared? = some s ∧
    (old.declareAll (declarationsOf trees)).1.symbol? id = some s := by
  obtain ⟨s, hs, rfl⟩ := ((h.declareAll _).invariant.indexed _ _).1 hid
  rcases symbol?_declareAll hs with hold | ⟨c, hc, hdeclared⟩
  · have hfound := (h.invariant.indexed _ _).2 ⟨s, hold, rfl⟩
    rw [hnew] at hfound
    cases hfound
  · refine ⟨c, List.mem_filter.2 ⟨hc, ?_⟩, s, hdeclared, hs⟩
    rw [hdeclared, Option.any_some]
    exact beq_self_eq_true _

/-- Nothing is based on a new type before bases are bound. -/
theorem unlinked_of_new : (old.declareAll (declarationsOf trees)).1.Unlinked id := by
  intro x hlink
  rw [Link, base?_eq] at hlink
  obtain ⟨t, ht, hbase⟩ := Option.bind_eq_some_iff.1 hlink
  rcases symbol?_declareAll ht with hold | ⟨c, -, hdeclared⟩
  · -- an old base is an old type, and then the name would be an old name
    have holdLink : old.Link x id := by
      rw [Link, base?_eq, hold]
      exact hbase
    obtain ⟨s, hs⟩ := exists_symbol? (h.invariant.present x id holdLink)
    have hfound := (h.invariant.indexed _ _).2 ⟨s, hs, rfl⟩
    have hinv := (h.declareAll (declarationsOf trees)).invariant
    have hlater := find?_steps (steps_declareAll (declarationsOf trees)) hfound
    rw [hinv.eq_of_find? hlater hid, hnew] at hfound
    cases hfound
  · obtain ⟨text, -, rfl⟩ := Option.map_eq_some_iff.1 hdeclared
    cases hbase

variable (hinterfaces : ∀ c ∈ declarationsNamed trees name, c.kind = .interfaceDeclaration)

omit hnew in
include hinterfaces in
/-- All that declare an interface ask for the type with the empty name. -/
theorem askedBase?_of_interfaces {d : Declared}
    (hd : d ∈ (old.declareAll (declarationsOf trees)).2) (hdid : d.id = id) :
    (old.declareAll (declarationsOf trees)).1.askedBase? id d.declaration =
      ((old.declareAll (declarationsOf trees)).1.find? "").filter (· ≠ id) := by
  refine askedBase?_interface (hinterfaces _ ?_) id
  rw [← declarations_at h hid]
  exact List.mem_map_of_mem (List.mem_filter.2 ⟨hd, decide_eq_true hdid⟩)

include hinterfaces in
theorem base?_bind_or : (old.bind trees).base? id = none ∨
    (old.bind trees).base? id = ((old.bind trees).find? "").filter (· ≠ id) := by
  rw [find?_congr (bind_places old trees).1, bind_eq]
  rcases base?_foldl_bindBases_or (fun d hd => (find?_declareAll _ d hd).1) id with
    hkept | ⟨d, hd, hdid, hbase⟩
  · obtain ⟨c, -, s, hs, hsymbol⟩ := exists_declared_of_new h hnew hid
    obtain ⟨text, -, rfl⟩ := Option.map_eq_some_iff.1 hs
    refine .inl (hkept.trans ?_)
    rw [base?_eq]
    exact congrArg (Option.bind · _) hsymbol
  · exact .inr (hbase.trans (askedBase?_of_interfaces h hid hinterfaces hd hdid))

include hinterfaces in
/-- No declaration of an interface is refused its base if no type falls back to the interface. -/
theorem base?_bind_of_nameless {nameless : TypeId}
    (hroot : ∀ kind,
      (old.declareAll (declarationsOf trees)).1.find? (defaultBaseName kind) ≠ some id)
    (hfound : (old.declareAll (declarationsOf trees)).1.find? "" = some nameless) :
    (old.bind trees).base? id = some nameless := by
  obtain ⟨c, hc, s, hs, hsymbol⟩ := exists_declared_of_new h hnew hid
  obtain ⟨text, -, rfl⟩ := Option.map_eq_some_iff.1 hs
  have hne : nameless ≠ id := fun heq => hroot .interfaceType (heq ▸ hfound)
  have hkind : (old.declareAll (declarationsOf trees)).1.isInterface id = true := by
    rw [isInterface_eq hsymbol, hinterfaces c hc]
    rfl
  have hdeclared : ∃ d ∈ (old.declareAll (declarationsOf trees)).2, d.id = id := by
    rw [← declarations_at h hid] at hc
    obtain ⟨d, hd, -⟩ := List.mem_map.1 hc
    obtain ⟨hd, hdid⟩ := List.mem_filter.1 hd
    exact ⟨d, hd, of_decide_eq_true hdid⟩
  rw [bind_eq]
  refine (unlinked_of_new h hnew hid).base?_foldl_bindBases (h.declareAll _) hkind
    (fun d hd => (find?_declareAll _ d hd).1)
    (fun d _ => askedBase?_ne hkind hroot d.id d.declaration) (fun d hd hdid => ?_) (.inr hdeclared)
  rw [askedBase?_of_interfaces h hid hinterfaces hd hdid, hfound, Option.filter_some,
    if_pos (decide_eq_true hne)]

end Declared

/-- An interface that a table did not know, and that nothing but interface declarations declare, has
no base where no other type has the empty name. Where one has, that type is its base, unless the
interface has the name of a root, and it never has any other. -/
theorem basedOnNameless_of_interfaces {old : SymbolTable} (h : Reachable old) (trees : List Node)
    (name : String) (hnew : old.find? name = none) (hdeclared : declarationsNamed trees name ≠ [])
    (hinterfaces : ∀ c ∈ declarationsNamed trees name, c.kind = .interfaceDeclaration) :
    ∃ id, (Compilation.ofTrees old trees).table.find? name = some id ∧
      BasedOnNameless (Compilation.ofTrees old trees).table name id := by
  obtain ⟨c, hc⟩ := List.exists_mem_of_ne_nil _ hdeclared
  obtain ⟨id, hid⟩ := exists_place old hc
  have hfind := find?_congr (bind_places old trees).1
  have hnameless : ∀ base, (old.bind trees).base? id = some base →
      (old.bind trees).find? "" = some base ∧ base ≠ id := by
    intro base hbase
    rcases base?_bind_or h hnew hid hinterfaces with hnone | hsome
    · rw [hnone] at hbase
      cases hbase
    · rw [hsome] at hbase
      obtain ⟨hfound, hne⟩ := Option.filter_eq_some_iff.1 hbase
      exact ⟨hfound, of_decide_eq_true hne⟩
  refine ⟨id, (congrFun hfind name).trans hid, fun hother => ?_, hnameless,
    fun hobject hvalue nameless hfound hne => ?_⟩
  · refine Option.eq_none_iff_forall_ne_some.2 fun base hbase => ?_
    obtain ⟨hfound, hne⟩ := hnameless base hbase
    exact hne (hother base hfound)
  · have hfound := (congrFun hfind "").symm.trans hfound
    refine base?_bind_of_nameless h hnew hid hinterfaces (fun kind hfallback => ?_) hfound
    have hname := (h.declareAll _).invariant.eq_of_find? hid hfallback
    cases kind with
    | classType => exact hobject hname
    | structType => exact hvalue hname
    | interfaceType | enumType | delegateType =>
        exact hne (Option.some.inj (hfound.symm.trans hfallback))

/-- An interface in two parts, with an interface without a name between them: the first is based on
the second, and the second on nothing. -/
theorem basedOnNameless_of_interfaces_across_trees :
    let part := Build.typeDeclaration .interfaceDeclaration { name := "I" }
    let listing := Build.typeDeclaration .interfaceDeclaration
      { name := "I", bases := ["System.IDisposable"] }
    let nameless := Build.typeDeclaration .interfaceDeclaration { name := "" }
    let trees := [Build.compilationUnit [] [part, nameless], Build.compilationUnit [] [listing]]
    let bound := (Compilation.ofTrees core trees).table
    Reachable core ∧ core.find? "I" = none ∧ core.find? "" = none ∧
      (declarationsNamed trees "I").map (·.kind) = [.interfaceDeclaration, .interfaceDeclaration] ∧
      (declarationsNamed trees "").map (·.kind) = [.interfaceDeclaration] ∧
      bound.find? "I" = some 12 ∧ bound.find? "" = some 13 ∧
      bound.base? 12 = some 13 ∧ bound.base? 13 = none := by
  intro part listing nameless trees bound
  have hparts : (declarationsNamed trees "I").map (·.kind) =
      [.interfaceDeclaration, .interfaceDeclaration] := by decide +kernel
  have hnamelessParts : (declarationsNamed trees "").map (·.kind) = [.interfaceDeclaration] := by
    decide +kernel
  have hplace : bound.find? "I" = some 12 := by decide +kernel
  have hnamelessPlace : bound.find? "" = some 13 := by decide +kernel
  obtain ⟨id, hid, hbased⟩ := basedOnNameless_of_interfaces .core trees "I" (by decide)
    (by decide +kernel) (by decide +kernel)
  obtain rfl : 12 = id := Option.some.inj (hplace.symm.trans hid)
  obtain ⟨id, hid, hbaseless⟩ := basedOnNameless_of_interfaces .core trees "" (by decide)
    (by decide +kernel) (by decide +kernel)
  obtain rfl : 13 = id := Option.some.inj (hnamelessPlace.symm.trans hid)
  refine ⟨.core, by decide, by decide, hparts, hnamelessParts, hplace, hnamelessPlace,
    hbased.based (by decide) (by decide) 13 hnamelessPlace (by decide), hbaseless.baseless ?_⟩
  intro other hother
  exact Option.some.inj (hother.symm.trans hnamelessPlace)

/-- A class without a name is the base of an interface. -/
theorem based_of_nameless_class :
    let nameless := Build.typeDeclaration .classDeclaration { name := "" }
    let interface := Build.typeDeclaration .interfaceDeclaration { name := "I" }
    let trees := [Build.compilationUnit [] [nameless, interface]]
    let bound := (Compilation.ofTrees core trees).table
    Reachable core ∧ core.find? "I" = none ∧
      (declarationsNamed trees "I").map (·.kind) = [.interfaceDeclaration] ∧
      bound.find? "I" = some 13 ∧ bound.base? 13 = some 12 := by
  intro nameless interface trees bound
  exact ⟨.core, by decide, by decide +kernel, by decide +kernel, by decide +kernel⟩

end TreeLint.SymbolTable
