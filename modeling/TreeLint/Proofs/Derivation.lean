import TreeLint.Proofs.TableReachable
import TreeLint.Symbols.Hierarchy

/-!
# What deriving from a type means

The test for a type compares places, then names, then asks about the root of all reference types,
searches interfaces, and walks the chain of bases comparing names at each link. On a table whose
names are unique all of this is one question about two relations: a type has a base, and a type
declares interfaces. The chain is what bases lead to, the search for interfaces is complete however
they extend each other, in circles too, and a name stands for the one type that has it.

The test for a name walks the chain only. It answers as the test for a type does but for two things:
it does not see an interface that is only reached through another interface, and the root of all
reference types is a type like any other to it.
-/

namespace TreeLint.SymbolTable

open Relation (TransGen ReflTransGen)

variable {table : SymbolTable}

/-- A type and an interface that it declares. -/
def Declares (table : SymbolTable) (id i : TypeId) : Prop := i ∈ table.interfaces id

/-- A type is another, has it for a base at some distance, or declares, itself or through a base, an
interface that is the other or extends it at some distance. -/
def Derives (table : SymbolTable) (current expected : TypeId) : Prop :=
  ReflTransGen table.Link current expected ∨
    ∃ link, ReflTransGen table.Link current link ∧ TransGen table.Declares link expected

/-! ## The search for interfaces is complete

While it runs, an interface that is listed is still in the queue or has all that it declares listed
as well. When the queue is empty, the list is therefore closed. -/

theorem Spread.listed_subset {listed queue all : List TypeId} (h : Spread table listed queue all) :
    listed ⊆ all := by
  induction h with
  | done listed => exact List.Subset.refl listed
  | round _ ih => exact List.Subset.trans (List.subset_append_left _ _) ih

theorem Spread.closed {listed queue all : List TypeId} (h : Spread table listed queue all)
    (hopen : ∀ j ∈ listed, j ∈ queue ∨ table.interfaces j ⊆ listed) :
    ∀ j ∈ all, table.interfaces j ⊆ all := by
  induction h with
  | done listed =>
      intro j hj
      rcases hopen j hj with hqueue | hsub
      · cases hqueue
      · exact hsub
  | @round listed queue all id _ ih =>
      have hdeclared : table.interfaces id ⊆ listed ++ table.fresh listed id := by
        intro i hi
        by_cases hlisted : i ∈ listed
        · exact List.mem_append_left _ hlisted
        · exact List.mem_append_right _ (mem_fresh.2 ⟨hi, hlisted⟩)
      refine ih fun j hj => ?_
      rcases List.mem_append.1 hj with hold | hfresh
      · rcases hopen j hold with hqueue | hsub
        · rcases List.mem_cons.1 hqueue with rfl | hqueue
          · exact .inr hdeclared
          · exact .inl (List.mem_append_left _ hqueue)
        · exact .inr (List.Subset.trans hsub (List.subset_append_left _ _))
      · exact .inl (List.mem_append_right _ hfresh)

theorem Spread.reached {listed queue all : List TypeId} (h : Spread table listed queue all)
    (hqueue : queue ⊆ listed) {i : TypeId} (hi : i ∈ all) :
    ∃ j ∈ listed, ReflTransGen table.Declares j i := by
  induction h with
  | done listed => exact ⟨i, hi, .refl⟩
  | @round listed queue all id _ ih =>
      obtain ⟨hid, hqueue⟩ := List.cons_subset.1 hqueue
      have hsub : queue ++ table.fresh listed id ⊆ listed ++ table.fresh listed id :=
        List.append_subset.2 ⟨List.Subset.trans hqueue (List.subset_append_left _ _),
          List.subset_append_right _ _⟩
      obtain ⟨j, hj, hreach⟩ := ih hsub hi
      rcases List.mem_append.1 hj with hold | hfresh
      · exact ⟨j, hold, hreach⟩
      · exact ⟨id, hid, .head (mem_fresh.1 hfresh).1 hreach⟩

theorem Spread.mem_iff {listed all : List TypeId} (h : Spread table listed listed all)
    {i : TypeId} : i ∈ all ↔ ∃ j ∈ listed, ReflTransGen table.Declares j i := by
  constructor
  · exact h.reached (List.Subset.refl listed)
  · rintro ⟨j, hj, hreach⟩
    have hclosed := h.closed fun j hj => .inl hj
    induction hreach with
    | refl => exact h.listed_subset hj
    | tail _ hdeclares ih => exact hclosed _ ih hdeclares

theorem mem_declaredAlong {id i : TypeId} :
    i ∈ table.declaredAlong id ↔ ∃ link ∈ table.chain id, table.Declares link i := by
  unfold declaredAlong
  rw [List.mem_eraseDups, List.mem_flatMap]
  rfl

theorem derivesFrom_self (id : TypeId) : table.derivesFrom id id = true := by
  unfold derivesFrom
  rw [if_pos rfl]

namespace Invariant

/-- The interfaces of a type are those declared along its chain and what these extend, at any
distance. -/
theorem mem_allInterfaces_iff (inv : table.Invariant) {id i : TypeId} :
    i ∈ table.allInterfaces id ↔
      ∃ link, ReflTransGen table.Link id link ∧ TransGen table.Declares link i := by
  rw [(spread_allInterfaces id).mem_iff]
  constructor
  · rintro ⟨j, hj, hreach⟩
    obtain ⟨link, hlink, hdeclares⟩ := mem_declaredAlong.1 hj
    exact ⟨link, inv.mem_chain_iff.1 hlink, .head' hdeclares hreach⟩
  · rintro ⟨link, hlink, htrans⟩
    obtain ⟨j, hdeclares, hreach⟩ := TransGen.head'_iff.1 htrans
    exact ⟨j, mem_declaredAlong.2 ⟨link, inv.mem_chain_iff.2 hlink, hdeclares⟩, hreach⟩

/-! ## Names stand for types -/

theorem eq_of_metadataName (inv : table.Invariant) {id other : TypeId} {s t : TypeSymbol}
    (hs : table.symbol? id = some s) (ht : table.symbol? other = some t)
    (hname : s.metadataName = t.metadataName) : id = other :=
  inv.sound.names_unique id other s t hs ht hname

theorem hasName_iff (inv : table.Invariant) {id expected : TypeId} {t : TypeSymbol}
    (ht : table.symbol? expected = some t) :
    table.hasName id t.metadataName = true ↔ id = expected := by
  unfold hasName
  constructor
  · intro h
    split at h
    · next s hs => exact inv.eq_of_metadataName hs ht (beq_iff_eq.1 h)
    · cases h
  · rintro rfl
    rw [ht]
    exact beq_self_eq_true _

/-- The test for the name of a type: the type is a link of the chain or declared by one. -/
theorem derivesFromName_iff (inv : table.Invariant) {current expected : TypeId} {t : TypeSymbol}
    (ht : table.symbol? expected = some t) :
    table.derivesFromName current t.metadataName = true ↔
      ReflTransGen table.Link current expected ∨
        ∃ link, ReflTransGen table.Link current link ∧ table.Declares link expected := by
  unfold derivesFromName
  simp only [List.any_eq_true, Bool.or_eq_true, inv.hasName_iff ht, inv.mem_chain_iff]
  constructor
  · rintro ⟨link, hlink, rfl | ⟨i, hi, rfl⟩⟩
    · exact .inl hlink
    · exact .inr ⟨link, hlink, hi⟩
  · rintro (hlink | ⟨link, hlink, hdeclares⟩)
    · exact ⟨expected, hlink, .inl rfl⟩
    · exact ⟨link, hlink, .inr ⟨expected, hdeclares, rfl⟩⟩

/-- The test for a type other than the type itself: comparing names finds nothing that comparing
places did not. -/
theorem derivesFrom_of_ne (inv : table.Invariant) {current expected : TypeId} {s t : TypeSymbol}
    (hs : table.symbol? current = some s) (ht : table.symbol? expected = some t)
    (hne : current ≠ expected) :
    table.derivesFrom current expected =
      if t.isObject then s.kind.isReference
      else t.isInterface && (table.allInterfaces current).contains expected ||
        table.derivesFromName current t.metadataName := by
  have hname : s.metadataName ≠ t.metadataName := fun h => hne (inv.eq_of_metadataName hs ht h)
  unfold derivesFrom
  rw [if_neg hne, hs, ht]
  simp only [if_neg hname]
  split
  · rfl
  · split
    · next h => rw [h, Bool.true_or]
    · next h =>
        rw [Bool.not_eq_true] at h
        rw [h, Bool.false_or]

/-- But for the root, the test for a type is the search for an interface and the test for a name,
also where the types are the same. -/
theorem derivesFrom_eq (inv : table.Invariant) {current expected : TypeId} {s t : TypeSymbol}
    (hs : table.symbol? current = some s) (ht : table.symbol? expected = some t)
    (hobject : t.isObject = false) :
    table.derivesFrom current expected =
      (t.isInterface && (table.allInterfaces current).contains expected ||
        table.derivesFromName current t.metadataName) := by
  by_cases heq : current = expected
  · subst heq
    have hself := (inv.derivesFromName_iff ht).2 (.inl .refl)
    rw [derivesFrom_self, hself, Bool.or_true]
  · rw [inv.derivesFrom_of_ne hs ht heq, hobject, if_neg Bool.false_ne_true]

end Invariant

/-! ## Deriving is one closure -/

/-- Interface lists hold interfaces only, and interfaces have no base. -/
structure ProperInterfaces (table : SymbolTable) : Prop where
  declared : ∀ id i, table.Declares id i → table.isInterface i = true
  no_base : ∀ id, table.isInterface id = true → table.base? id = none

theorem isInterface_eq {id : TypeId} {s : TypeSymbol} (h : table.symbol? id = some s) :
    table.isInterface id = s.isInterface := by
  unfold isInterface
  rw [h]

namespace ProperInterfaces

theorem isInterface_of_transGen (proper : table.ProperInterfaces) {id i : TypeId}
    (h : TransGen table.Declares id i) : table.isInterface i = true := by
  obtain ⟨j, -, hdeclares⟩ := TransGen.tail'_iff.1 h
  exact proper.declared j i hdeclares

/-- The bases of an interface lead nowhere. -/
theorem eq_of_link (proper : table.ProperInterfaces) {i other : TypeId}
    (hi : table.isInterface i = true) (h : ReflTransGen table.Link i other) : i = other := by
  rcases h.cases_head with heq | ⟨base, hbase, -⟩
  · exact heq
  · rw [Link, proper.no_base i hi] at hbase
    cases hbase

theorem derives_trans (proper : table.ProperInterfaces) {a b c : TypeId}
    (hab : table.Derives a b) (hbc : table.Derives b c) : table.Derives a c := by
  rcases hab with hab | ⟨link, hlink, hdeclares⟩
  · rcases hbc with hbc | ⟨link, hlink, hdeclares⟩
    · exact .inl (hab.trans hbc)
    · exact .inr ⟨link, hab.trans hlink, hdeclares⟩
  · -- `b` is an interface, so its chain is `b` alone.
    have hb := proper.isInterface_of_transGen hdeclares
    rcases hbc with hbc | ⟨link', hlink', hdeclares'⟩
    · rw [← proper.eq_of_link hb hbc]
      exact .inr ⟨link, hlink, hdeclares⟩
    · rw [← proper.eq_of_link hb hlink'] at hdeclares'
      exact .inr ⟨link, hlink, hdeclares.trans hdeclares'⟩

end ProperInterfaces

theorem Invariant.derivesFrom_iff (inv : table.Invariant) (proper : table.ProperInterfaces)
    {current expected : TypeId} {s t : TypeSymbol} (hs : table.symbol? current = some s)
    (ht : table.symbol? expected = some t) (hobject : t.isObject = false) :
    table.derivesFrom current expected = true ↔ table.Derives current expected := by
  rw [inv.derivesFrom_eq hs ht hobject, Bool.or_eq_true, Bool.and_eq_true,
    List.contains_iff_mem, inv.mem_allInterfaces_iff, inv.derivesFromName_iff ht,
    ← isInterface_eq ht]
  constructor
  · rintro (⟨-, hinterface⟩ | hchain | ⟨link, hlink, hdeclares⟩)
    · exact .inr hinterface
    · exact .inl hchain
    · exact .inr ⟨link, hlink, .single hdeclares⟩
  · rintro (hchain | ⟨link, hlink, hdeclares⟩)
    · exact .inr (.inl hchain)
    · exact .inl ⟨proper.isInterface_of_transGen hdeclares, link, hlink, hdeclares⟩

/-- What a caller of `derivesFrom` can rely on. -/
structure DerivesByClosure (table : SymbolTable) : Prop where
  iff_derives : ∀ a b s t, table.symbol? a = some s → table.symbol? b = some t →
    t.isObject = false → (table.derivesFrom a b = true ↔ table.Derives a b)
  reflexive : ∀ a < table.size, table.derivesFrom a a = true
  transitive : ∀ a b c s t u, table.symbol? a = some s → table.symbol? b = some t →
    table.symbol? c = some u → t.isObject = false → u.isObject = false →
    table.derivesFrom a b = true → table.derivesFrom b c = true → table.derivesFrom a c = true
  /-- The root of all reference types is what the kind of a type decides about. -/
  object_iff : ∀ a b s t, table.symbol? a = some s → table.symbol? b = some t →
    t.isObject = true → a ≠ b → (table.derivesFrom a b = true ↔
      s.kind = .classType ∨ s.kind = .interfaceType ∨ s.kind = .delegateType)

theorem derivesByClosure_of_reachable (h : Reachable table) (proper : table.ProperInterfaces) :
    table.DerivesByClosure where
  iff_derives := fun a b s t hs ht hobject => h.invariant.derivesFrom_iff proper hs ht hobject
  reflexive := fun a _ => derivesFrom_self a
  transitive := by
    intro a b c s t u hs ht hu hb hc hab hbc
    rw [h.invariant.derivesFrom_iff proper hs ht hb] at hab
    rw [h.invariant.derivesFrom_iff proper ht hu hc] at hbc
    exact (h.invariant.derivesFrom_iff proper hs hu hc).2 (proper.derives_trans hab hbc)
  object_iff := by
    intro a b s t hs ht hobject hne
    rw [h.invariant.derivesFrom_of_ne hs ht hne, if_pos hobject]
    cases s.kind <;> decide

/-- Whether a table is proper is decided by its types. -/
theorem properInterfaces_of_forall
    (hdeclared : ∀ i ∈ table.mentioned, table.isInterface i = true)
    (hbase : ∀ id < table.size, table.isInterface id = true → table.base? id = none) :
    table.ProperInterfaces where
  declared := fun _ i h => hdeclared i (mem_mentioned h)
  no_base := fun id hid => by
    rcases Nat.lt_or_ge id table.size with hlt | hge
    · exact hbase id hlt hid
    · rw [isInterface, (symbol?_eq_none id).2 hge] at hid
      cases hid

/-- A class whose base declares an interface, which extends an interface that extends it back. -/
theorem derivesByClosure_of_circle :
    let table := ((((core.add (.bare "N" "I" .interfaceType)).1.add
      { TypeSymbol.bare "N" "J" .interfaceType with interfaces := [12] }).1.addInterface 12 13).add
      { TypeSymbol.bare "N" "Base" .classType with base := some 0, interfaces := [12] }).1.add
      { TypeSymbol.bare "N" "Derived" .classType with base := some 14 } |>.1
    Reachable table ∧ table.ProperInterfaces ∧ table.DerivesByClosure ∧
      table.derivesFrom 15 13 = true ∧ table.derivesFrom 13 15 = false := by
  intro table
  have hinterfaces := ((Reachable.core.add (.bare "N" "I" .interfaceType) (by decide)).add
    { TypeSymbol.bare "N" "J" .interfaceType with interfaces := [12] } (by decide)).addInterface
      12 13
  have hreachable : Reachable table := (hinterfaces.add _ (by decide)).add _ (by decide)
  have hproper : table.ProperInterfaces :=
    properInterfaces_of_forall (by decide) (by decide)
  exact ⟨hreachable, hproper, derivesByClosure_of_reachable hreachable hproper, by decide,
    by decide⟩

/-! ## The test for a name

Nothing is assumed of interfaces here: lists may hold any types, and interfaces may have bases. -/

/-- How the test for the name of a type answers beside the test for the type. -/
structure NameTestAgrees (table : SymbolTable) : Prop where
  other : ∀ c e s t, table.symbol? c = some s → table.symbol? e = some t →
    t.isInterface = false → t.isObject = false →
    table.derivesFrom c e = table.derivesFromName c t.metadataName
  of_name : ∀ c e s t, table.symbol? c = some s → table.symbol? e = some t →
    t.isInterface = true → t.isObject = false →
    table.derivesFromName c t.metadataName = true → table.derivesFrom c e = true
  /-- An interface is seen by one test only if it is reached through another interface alone. -/
  differ_iff : ∀ c e s t, table.symbol? c = some s → table.symbol? e = some t →
    t.isInterface = true → t.isObject = false →
    (table.derivesFrom c e ≠ table.derivesFromName c t.metadataName ↔
      e ∈ table.allInterfaces c ∧ ¬ ReflTransGen table.Link c e ∧
        ¬ ∃ link, ReflTransGen table.Link c link ∧ table.Declares link e)
  /-- The kind of a type has no say when it is asked for the root by name. -/
  object_iff : ∀ c e s t, table.symbol? c = some s → table.symbol? e = some t →
    t.isObject = true → (table.derivesFromName c t.metadataName = true ↔
      ReflTransGen table.Link c e ∨
        ∃ link, ReflTransGen table.Link c link ∧ table.Declares link e)

theorem nameTestAgrees_of_reachable (h : Reachable table) : table.NameTestAgrees where
  other := by
    intro c e s t hs ht hinterface hobject
    rw [h.invariant.derivesFrom_eq hs ht hobject, hinterface, Bool.false_and, Bool.false_or]
  of_name := by
    intro c e s t hs ht _ hobject hname
    rw [h.invariant.derivesFrom_eq hs ht hobject, hname, Bool.or_true]
  differ_iff := by
    intro c e s t hs ht hinterface hobject
    have hdiffer : ∀ p q : Bool, (p || q) ≠ q ↔ p = true ∧ ¬ q = true := by decide
    rw [h.invariant.derivesFrom_eq hs ht hobject, hdiffer, hinterface, Bool.true_and,
      List.contains_iff_mem, h.invariant.derivesFromName_iff ht, not_or]
  object_iff := by
    intro c e s t _ ht _
    exact h.invariant.derivesFromName_iff ht

/-- A type whose interface extends another, at the interface that only one test sees. -/
theorem nameTestAgrees_of_inherited :
    let table := (core.add { TypeSymbol.bare "App" "ItemList" .classType with
      base := some 0, interfaces := [4] }).1
    Reachable table ∧ table.NameTestAgrees ∧ table.derivesFrom 12 3 = true ∧
      table.derivesFromName 12 "System.Collections.IEnumerable" = false ∧
      table.derivesFrom 12 4 = true ∧
      table.derivesFromName 12 "System.Collections.Generic.IEnumerable\x601" = true := by
  intro table
  have hreachable : Reachable table := Reachable.core.add _ (by decide)
  exact ⟨hreachable, nameTestAgrees_of_reachable hreachable, by decide, by decide, by decide,
    by decide⟩

/-- An interface that is made the root of all reference types is no interface to the test for a
type: a struct that declares it passes the test for the name alone. -/
theorem derivesFromName_alone_of_root :
    let table := ((core.add { TypeSymbol.bare "App" "IRoot" .interfaceType with
      isObject := true }).1.add
      { TypeSymbol.bare "App" "Point" .structType with base := some 1, interfaces := [12] }).1
    Reachable table ∧ table.isInterface 12 = true ∧
      table.derivesFromName 13 "App.IRoot" = true ∧ table.derivesFrom 13 12 = false := by
  intro table
  have hreachable : Reachable table := (Reachable.core.add _ (by decide)).add _ (by decide)
  exact ⟨hreachable, by decide, by decide, by decide⟩

end TreeLint.SymbolTable
