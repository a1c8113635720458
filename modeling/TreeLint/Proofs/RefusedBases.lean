import TreeLint.Proofs.TableReachable

/-!
# When a base is refused, and what else changes

A base is refused if the type is on the chain that starts at it. The chain follows the links that
the refusal guards, so it is complete only because all links in front were guarded as well. Then it
lists what leads back, no more and no less.

A type that takes the place of another of its name first loses the base that the other had, and only
then its own base is asked about. The chain is walked on a table that has a link less than before.
But a way to a type never needs the link that starts there, so the answer is still that of the table
before.
-/

namespace TreeLint.SymbolTable

open Relation (TransGen ReflTransGen)

variable {table table' : SymbolTable}

/-- Two tables that have the same types in the same places, one place excepted. -/
structure ChangedAt (table table' : SymbolTable) (id : TypeId) (s : TypeSymbol) : Prop where
  changed : table'.symbol? id = some s
  kept : ∀ other, other ≠ id → table'.symbol? other = table.symbol? other
  size_eq : table'.size = table.size
  places_eq : table'.places = table.places

theorem changedAt_modify {id : TypeId} {s : TypeSymbol} (hs : table.symbol? id = some s)
    (change : TypeSymbol → TypeSymbol) :
    ChangedAt table (table.modify id change) id (change s) where
  changed := by rw [symbol?_modify, if_pos rfl, hs, Option.map_some]
  kept := fun other hne => by rw [symbol?_modify, if_neg (Ne.symm hne)]
  size_eq := size_modify id change
  places_eq := rfl

theorem ChangedAt.trans {table'' : SymbolTable} {id : TypeId} {s s' : TypeSymbol}
    (h : ChangedAt table table' id s) (h' : ChangedAt table' table'' id s') :
    ChangedAt table table'' id s' where
  changed := h'.changed
  kept := fun other hne => (h'.kept other hne).trans (h.kept other hne)
  size_eq := h'.size_eq.trans h.size_eq
  places_eq := h'.places_eq.trans h.places_eq

/-! ## Setting a base -/

theorem Invariant.acceptsBase_eq_false_iff (inv : table.Invariant) {id : TypeId}
    (hid : id < table.size) (base : TypeId) :
    table.acceptsBase id base = false ↔ id = base ∨ TransGen table.Link base id := by
  rw [← Relation.reflTransGen_iff_eq_or_transGen, ← inv.mem_chain_iff]
  simp [acceptsBase, hid]

theorem setBase_of_refused {id base : TypeId} (h : table.acceptsBase id base = false) :
    table.setBase id base = table := by
  rw [setBase, h]
  rfl

theorem changedAt_setBase {id base : TypeId} {s : TypeSymbol} (hs : table.symbol? id = some s)
    (h : table.acceptsBase id base = true) :
    ChangedAt table (table.setBase id base) id { s with base := some base } := by
  rw [setBase, if_pos h]
  exact changedAt_modify hs _

/-! ## Replacing a type -/

/-- A way to a type does not go through the type, so it is there whatever base the type has. -/
theorem leadsTo_of_links {id base : TypeId}
    (hlinks : ∀ x, x ≠ id → ∀ y, table.Link x y → table'.Link x y)
    (h : ReflTransGen table.Link base id) : ReflTransGen table'.Link base id := by
  induction h using ReflTransGen.head_induction_on with
  | refl => exact .refl
  | @head x y hxy _ ih =>
      by_cases hx : x = id
      · rw [hx]
      · exact .head (hlinks x hx y hxy) ih

theorem ChangedAt.leadsTo_iff {id : TypeId} {s : TypeSymbol} (h : ChangedAt table table' id s)
    (base : TypeId) :
    ReflTransGen table'.Link base id ↔ ReflTransGen table.Link base id := by
  have hlink : ∀ x, x ≠ id → ∀ y, table'.Link x y ↔ table.Link x y := by
    intro x hx y
    rw [Link, Link, base?_eq, base?_eq, h.kept x hx]
  exact ⟨leadsTo_of_links fun x hx y => (hlink x hx y).1,
    leadsTo_of_links fun x hx y => (hlink x hx y).2⟩

/-- A type in the place of another of its name, with its own base unless that leads back to it. -/
theorem Invariant.exists_changedAt_add (inv : table.Invariant) {symbol : TypeSymbol} {id : TypeId}
    (hfound : table.find? symbol.metadataName = some id) :
    (table.add symbol).2 = id ∧
      ∃ kept, ChangedAt table (table.add symbol).1 id { symbol with base := kept } ∧
        ∀ base, kept = some base ↔
          symbol.base = some base ∧ ¬(id = base ∨ TransGen table.Link base id) := by
  obtain ⟨old, hold, hname⟩ := (inv.indexed _ _).1 hfound
  have hreplaced := changedAt_modify hold fun _ => { symbol with base := none }
  have hinv : (table.modify id fun _ => { symbol with base := none }).Invariant := by
    refine inv.modify (fun s hs => ?_) fun _ _ => .inr rfl
    rw [hold] at hs
    rw [← Option.some.inj hs, hname]
    rfl
  rw [SymbolTable.add, hfound]
  cases hbase : symbol.base with
  | none =>
      refine ⟨rfl, none, hreplaced, fun base => ?_⟩
      simp
  | some base =>
      have hrefused := hinv.acceptsBase_eq_false_iff
        (by rw [size_modify]; exact lt_size_of_symbol? hold) base
      rw [← Relation.reflTransGen_iff_eq_or_transGen, hreplaced.leadsTo_iff,
        Relation.reflTransGen_iff_eq_or_transGen] at hrefused
      refine ⟨rfl, ?_⟩
      cases haccepts : (table.modify id fun _ => { symbol with base := none }).acceptsBase id
          base with
      | false =>
          refine ⟨none, ?_, fun other => ?_⟩
          · simp only [setBase_of_refused haccepts]
            exact hreplaced
          · simp only [reduceCtorEq, Option.some.injEq, false_iff, not_and, not_not]
            rintro rfl
            exact hrefused.1 haccepts
      | true =>
          have hbased := changedAt_setBase hreplaced.changed haccepts
          refine ⟨some base, hreplaced.trans hbased, fun other => ?_⟩
          rw [iff_self_and]
          intro heq
          rw [← Option.some.inj heq, ← hrefused, haccepts]
          nofun

/-! ## Reachable tables -/

/-- A table that refuses a base exactly when it leads back to the type, that is left as it is by a
refusal, and in which no other type is touched when a base is set or a type is replaced. Whether a
base was taken is what `acceptsBase` answers. -/
structure GuardsBases (table : SymbolTable) : Prop where
  refuses_iff : ∀ id base, id < table.size →
    (table.acceptsBase id base = false ↔ id = base ∨ TransGen table.Link base id)
  of_refused : ∀ id base, table.acceptsBase id base = false → table.setBase id base = table
  of_accepted : ∀ id base s, table.symbol? id = some s → table.acceptsBase id base = true →
    ChangedAt table (table.setBase id base) id { s with base := some base }
  /-- The base of a replacement is dropped exactly if it is the type itself or derives from it. -/
  of_replaced : ∀ (symbol : TypeSymbol) id, table.find? symbol.metadataName = some id →
    (table.add symbol).2 = id ∧
      ∃ kept, ChangedAt table (table.add symbol).1 id { symbol with base := kept } ∧
        ∀ base, kept = some base ↔
          symbol.base = some base ∧ ¬(id = base ∨ TransGen table.Link base id)

/-- Every reachable table guards its bases. -/
theorem guardsBases_of_reachable (h : Reachable table) : table.GuardsBases where
  refuses_iff := fun _ base hid => h.invariant.acceptsBase_eq_false_iff hid base
  of_refused := fun _ _ => setBase_of_refused
  of_accepted := fun _ _ _ => changedAt_setBase
  of_replaced := fun _ _ => h.invariant.exists_changedAt_add

/-- Three types in a row. The last may not be the base of the first, nor may a type that takes the
place of the first have it for a base. One in the place of the middle type gets the base it asks
for. -/
theorem guardsBases_of_row :
    let table := ((((core.declare "N" "A" .classType).1.declare "N" "B" .classType).1.declare "N"
      "C" .classType).1.setBase 14 13).setBase 13 12
    let first := { TypeSymbol.bare "N" "A" .structType with base := some 14, interfaces := [5] }
    let middle := { TypeSymbol.bare "N" "B" .classType with base := some 9 }
    Reachable table ∧ TransGen table.Link 14 12 ∧
      table.acceptsBase 12 14 = false ∧ table.setBase 12 14 = table ∧
      table.acceptsBase 12 0 = true ∧ (table.setBase 12 0).base? 12 = some 0 ∧
      (table.add first).2 = 12 ∧ (table.add first).1.symbol? 12 = some { first with base := none } ∧
      (table.add middle).2 = 13 ∧ (table.add middle).1.symbol? 13 = some middle ∧
      (table.add middle).1.symbol? 14 = table.symbol? 14 := by
  intro table first middle
  have hr : Reachable table :=
    ((((Reachable.core.declare "N" "A" .classType).declare "N" "B" .classType).declare "N" "C"
      .classType).setBase 14 13 (by decide)).setBase 13 12 (by decide)
  have hlast : table.base? 14 = some 13 := by decide
  have hmiddle : table.base? 13 = some 12 := by decide
  have hback : TransGen table.Link 14 12 := .tail (.single hlast) hmiddle
  have hguards := guardsBases_of_reachable hr
  have hrefused := (hguards.refuses_iff 12 14 (by decide)).2 (.inr hback)
  have haccepted : table.acceptsBase 12 0 = true := by decide
  have hbased := hguards.of_accepted 12 0 (.bare "N" "A" .classType) (by decide) haccepted
  obtain ⟨hfirst, kept, hchanged, hkept⟩ := hguards.of_replaced first 12 (by decide)
  obtain rfl : kept = none := by
    refine Option.eq_none_iff_forall_ne_some.2 fun base hbase => ?_
    obtain ⟨heq, hfree⟩ := (hkept base).1 hbase
    obtain rfl : 14 = base := Option.some.inj heq
    exact hfree (.inr hback)
  obtain ⟨hplace, other, hother, hotherKept⟩ := hguards.of_replaced middle 13 (by decide)
  have hfree : table.acceptsBase 13 9 = true := by decide
  obtain rfl : other = some 9 := by
    refine (hotherKept 9).2 ⟨rfl, fun hleads => ?_⟩
    rw [← hguards.refuses_iff 13 9 (by decide), hfree] at hleads
    cases hleads
  exact ⟨hr, hback, hrefused, hguards.of_refused 12 14 hrefused, haccepted,
    by rw [base?_eq, hbased.changed]; rfl, hfirst, hchanged.changed, hplace, hother.changed,
    hother.kept 14 (by decide)⟩

end TreeLint.SymbolTable
