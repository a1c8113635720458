import Mathlib.Data.List.Perm.Subperm
import Mathlib.Logic.Relation
import TreeLint.Symbols.Table

/-!
# What every table of types keeps

A table starts empty or as the core library and grows by four operations, and three facts survive
all of them: the index answers a name with a place exactly when the type at that place has the
name, a base is always a type of the table, and no chain of bases comes back to where it started.

Each operation is an addition at the end of the table or a change of one type in its place. Of a
change only two questions matter: whether the type keeps its metadata name, which decides about the
index, and what happens to the one link from it to its base, which decides about chains. A link can
only be added by `setBase`, and it is added only if the base does not lead back to the type already,
so a cycle through the new link would have been a cycle before.
-/

namespace TreeLint.SymbolTable

open Relation (TransGen ReflTransGen)

/-- A type and its base. -/
def Link (table : SymbolTable) (id base : TypeId) : Prop := table.base? id = some base

/-- The facts that the operations on a table keep. -/
structure Invariant (table : SymbolTable) : Prop where
  indexed : ∀ name id, table.find? name = some id ↔
    ∃ s, table.symbol? id = some s ∧ s.metadataName = name
  present : ∀ id base, table.Link id base → base < table.size
  acyclic : ∀ id, ¬ TransGen table.Link id id

variable {table : SymbolTable}

theorem symbol?_eq_none (id : TypeId) : table.symbol? id = none ↔ table.size ≤ id := by
  unfold symbol? size
  exact Array.getElem?_eq_none_iff

theorem lt_size_of_symbol? {id : TypeId} {s : TypeSymbol} (h : table.symbol? id = some s) :
    id < table.size := by
  refine Nat.lt_of_not_le fun hle => ?_
  rw [(symbol?_eq_none id).2 hle] at h
  cases h

theorem base?_eq (id : TypeId) : table.base? id = (table.symbol? id).bind (·.base) := by
  unfold base?
  cases table.symbol? id <;> rfl

theorem interfaces_eq (id : TypeId) :
    table.interfaces id = ((table.symbol? id).map (·.interfaces)).getD [] := by
  unfold interfaces
  cases table.symbol? id <;> rfl

/-- A type with a base is a type of the table. -/
theorem lt_size_of_link {id base : TypeId} (h : table.Link id base) : id < table.size := by
  unfold Link at h
  rw [base?_eq] at h
  obtain ⟨s, hs, -⟩ := Option.bind_eq_some_iff.1 h
  exact lt_size_of_symbol? hs

theorem link_unique {id base other : TypeId} (h : table.Link id base) (h' : table.Link id other) :
    base = other := by
  unfold Link at h h'
  rw [h] at h'
  exact Option.some.inj h'

/-- A walk that never leaves some things once it is among them goes round in a circle either among
these or among the others. -/
theorem cycle_within {α : Type} {r : α → α → Prop} {p : α → Prop}
    (hclosed : ∀ {x y}, r x y → p x → p y) {x : α} (h : TransGen r x x) :
    TransGen (fun a b => r a b ∧ p a) x x ∨ TransGen (fun a b => r a b ∧ ¬ p b) x x := by
  by_cases hx : p x
  · have hinside : ∀ {y}, TransGen r x y → TransGen (fun a b => r a b ∧ p a) x y ∧ p y := by
      intro y hxy
      induction hxy with
      | single hr => exact ⟨.single ⟨hr, hx⟩, hclosed hr hx⟩
      | tail _ hr ih => exact ⟨ih.1.tail ⟨hr, ih.2⟩, hclosed hr ih.2⟩
    exact .inl (hinside h).1
  · have houtside : ∀ {y}, TransGen r y x → TransGen (fun a b => r a b ∧ ¬ p b) y x ∧ ¬ p y := by
      intro y hyx
      induction hyx using TransGen.head_induction_on with
      | single hr => exact ⟨.single ⟨hr, hx⟩, fun hy => hx (hclosed hr hy)⟩
      | head hr _ ih => exact ⟨.head ⟨hr, ih.2⟩ ih.1, fun hy => ih.2 (hclosed hr hy)⟩
    exact .inr (houtside h).1

/-! ## The chain is complete

A chain that ran out of steps lists as many types as it had steps. All of them have a base, so they
are types of the table, and no two are the same: with more steps than types this cannot happen. -/

/-- The types that a walk along bases visits, up to the one that has no base. A derivation is a
walk that ends. -/
inductive Walk (table : SymbolTable) : TypeId → List TypeId → Prop where
  | last {id : TypeId} (h : table.base? id = none) : Walk table id [id]
  | next {id base : TypeId} {links : List TypeId} (h : table.Link id base)
      (rest : Walk table base links) : Walk table id (id :: links)

theorem walk_or_full (steps : Nat) (id : TypeId) :
    Walk table id (table.chainFrom steps id) ∨
      (table.chainFrom steps id).length = steps ∧
        ∀ x ∈ table.chainFrom steps id, x < table.size := by
  induction steps generalizing id with
  | zero => exact .inr ⟨rfl, by simp [chainFrom]⟩
  | succ n ih =>
      cases hb : table.base? id with
      | none =>
          rw [chainFrom, hb]
          exact .inl (.last hb)
      | some base =>
          rw [chainFrom, hb]
          rcases ih base with hw | ⟨hlen, hlt⟩
          · exact .inl (.next hb hw)
          · refine .inr ⟨by simp [hlen], fun x hx => ?_⟩
            rcases List.mem_cons.1 hx with rfl | hx
            · exact lt_size_of_link hb
            · exact hlt x hx

theorem reaches_of_mem_chainFrom {steps : Nat} {id x : TypeId}
    (h : x ∈ table.chainFrom steps id) : ReflTransGen table.Link id x := by
  induction steps generalizing id with
  | zero => simp [chainFrom] at h
  | succ n ih =>
      rw [chainFrom] at h
      rcases List.mem_cons.1 h with rfl | h
      · exact .refl
      · cases hb : table.base? id with
        | none => simp [hb] at h
        | some base =>
            rw [hb] at h
            exact .head hb (ih h)

theorem nodup_chainFrom (hacyclic : ∀ id, ¬ TransGen table.Link id id) (steps : Nat)
    (id : TypeId) : (table.chainFrom steps id).Nodup := by
  induction steps generalizing id with
  | zero => simp [chainFrom]
  | succ n ih =>
      rw [chainFrom]
      cases hb : table.base? id with
      | none => simp
      | some base =>
          refine List.nodup_cons.2 ⟨fun hmem => hacyclic id ?_, ih base⟩
          exact .head' hb (reaches_of_mem_chainFrom hmem)

/-- Different places of a table are not more than it has types. -/
theorem length_le_size {ids : List TypeId} (hnodup : ids.Nodup)
    (hlt : ∀ x ∈ ids, x < table.size) : ids.length ≤ table.size := by
  have hsub : ids ⊆ List.range table.size := fun x hx => List.mem_range.2 (hlt x hx)
  have hle := (List.subperm_of_subset hnodup hsub).length_le
  rwa [List.length_range] at hle

namespace Invariant

theorem walk_chain (inv : table.Invariant) (id : TypeId) : Walk table id (table.chain id) := by
  have hwalk : Walk table id (table.chain id) ∨ (table.chain id).length = table.size + 1 ∧
      ∀ x ∈ table.chain id, x < table.size := walk_or_full (table.size + 1) id
  rcases hwalk with hw | ⟨hlen, hlt⟩
  · exact hw
  · have hnodup : (table.chain id).Nodup := nodup_chainFrom inv.acyclic (table.size + 1) id
    have hle := length_le_size hnodup hlt
    omega

end Invariant

/-- What a complete walk lists is what the links reach. -/
theorem Walk.mem_iff {id x : TypeId} {links : List TypeId} (hw : Walk table id links) :
    x ∈ links ↔ ReflTransGen table.Link id x := by
  induction hw with
  | last h =>
      rw [List.mem_singleton]
      constructor
      · rintro rfl
        exact .refl
      · intro hr
        rcases hr.cases_head with rfl | ⟨base, hb, -⟩
        · rfl
        · rw [Link, h] at hb
          cases hb
  | next h _ ih =>
      rw [List.mem_cons, ih]
      constructor
      · rintro (rfl | hr)
        · exact .refl
        · exact .head h hr
      · intro hr
        rcases hr.cases_head with rfl | ⟨base, hb, hr⟩
        · exact .inl rfl
        · rw [link_unique h hb]
          exact .inr hr

theorem Invariant.mem_chain_iff (inv : table.Invariant) {id x : TypeId} :
    x ∈ table.chain id ↔ ReflTransGen table.Link id x := (inv.walk_chain id).mem_iff

/-! ## A change of one type -/

theorem size_modify (id : TypeId) (change : TypeSymbol → TypeSymbol) :
    (table.modify id change).size = table.size := Array.size_modify

theorem find?_modify (id : TypeId) (change : TypeSymbol → TypeSymbol) (name : String) :
    (table.modify id change).find? name = table.find? name := rfl

theorem symbol?_modify (id other : TypeId) (change : TypeSymbol → TypeSymbol) :
    (table.modify id change).symbol? other =
      if id = other then (table.symbol? other).map change else table.symbol? other := by
  simp only [modify, symbol?]
  exact Array.getElem?_modify

/-- A change that keeps the name of a type keeps the index right. -/
theorem indexed_modify {id : TypeId} {change : TypeSymbol → TypeSymbol}
    (hname : ∀ s, table.symbol? id = some s → (change s).metadataName = s.metadataName)
    (h : ∀ name id, table.find? name = some id ↔
      ∃ s, table.symbol? id = some s ∧ s.metadataName = name) (name : String) (other : TypeId) :
    (table.modify id change).find? name = some other ↔
      ∃ s, (table.modify id change).symbol? other = some s ∧ s.metadataName = name := by
  rw [find?_modify, h, symbol?_modify]
  split
  · next heq =>
      subst heq
      constructor
      · rintro ⟨s, hs, hn⟩
        exact ⟨change s, by rw [hs]; rfl, by rw [hname s hs, hn]⟩
      · rintro ⟨s, hs, hn⟩
        obtain ⟨old, hold, rfl⟩ := Option.map_eq_some_iff.1 hs
        exact ⟨old, hold, by rw [← hname old hold, hn]⟩
  · rfl

theorem base?_modify (id other : TypeId) (change : TypeSymbol → TypeSymbol) :
    (table.modify id change).base? other =
      if id = other then (table.symbol? other).bind fun s => (change s).base
      else table.base? other := by
  rw [base?_eq, symbol?_modify]
  split
  · cases table.symbol? other <;> rfl
  · rw [base?_eq]

/-- A table none of whose links is new keeps the invariant if the index is right. -/
theorem Invariant.of_links {table' : SymbolTable} (inv : table.Invariant)
    (hsize : table.size ≤ table'.size)
    (hlink : ∀ id base, table'.Link id base → table.Link id base)
    (hindex : ∀ name id, table'.find? name = some id ↔
      ∃ s, table'.symbol? id = some s ∧ s.metadataName = name) : table'.Invariant where
  indexed := hindex
  present := fun id base h => Nat.lt_of_lt_of_le (inv.present id base (hlink id base h)) hsize
  acyclic := fun id h => inv.acyclic id (TransGen.mono hlink id id h)

/-- A change that neither renames a type nor gives it another base. -/
theorem Invariant.modify {id : TypeId} {change : TypeSymbol → TypeSymbol}
    (inv : table.Invariant)
    (hname : ∀ s, table.symbol? id = some s → (change s).metadataName = s.metadataName)
    (hbase : ∀ s, table.symbol? id = some s → (change s).base = s.base ∨ (change s).base = none) :
    (table.modify id change).Invariant := by
  refine inv.of_links (Nat.le_of_eq (size_modify id change).symm) (fun other base h => ?_)
    (indexed_modify hname inv.indexed)
  unfold Link at h ⊢
  rw [base?_modify] at h
  split at h
  · next heq =>
      subst heq
      obtain ⟨s, hs, hb⟩ := Option.bind_eq_some_iff.1 h
      rw [base?_eq, hs]
      rcases hbase s hs with hsame | hnone
      · rw [← hb, hsame]
        rfl
      · rw [hnone] at hb
        cases hb
  · exact h

/-! ## A new link

A walk in the new table that uses the link from `id` to `base` splits there: its first part led to
`id` and its last part away from `base`, both without the link. -/

theorem split_at_link {table' : SymbolTable} {id base : TypeId}
    (hlink : ∀ x y, table'.Link x y → table.Link x y ∨ x = id ∧ y = base) {x y : TypeId}
    (h : TransGen table'.Link x y) :
    TransGen table.Link x y ∨ ReflTransGen table.Link x id ∧ ReflTransGen table.Link base y := by
  induction h with
  | single h =>
      rcases hlink _ _ h with h | ⟨rfl, rfl⟩
      · exact .inl (.single h)
      · exact .inr ⟨.refl, .refl⟩
  | tail _ h ih =>
      rcases hlink _ _ h with h | ⟨rfl, rfl⟩
      · rcases ih with ih | ⟨hto, hfrom⟩
        · exact .inl (ih.tail h)
        · exact .inr ⟨hto, hfrom.tail h⟩
      · rcases ih with ih | ⟨hto, -⟩
        · exact .inr ⟨ih.to_reflTransGen, .refl⟩
        · exact .inr ⟨hto, .refl⟩

theorem Invariant.acyclic_of_new_link {table' : SymbolTable} {id base : TypeId}
    (inv : table.Invariant) (hback : ¬ ReflTransGen table.Link base id)
    (hlink : ∀ x y, table'.Link x y → table.Link x y ∨ x = id ∧ y = base) (x : TypeId) :
    ¬ TransGen table'.Link x x := by
  intro h
  rcases split_at_link hlink h with h | ⟨hto, hfrom⟩
  · exact inv.acyclic x h
  · exact hback (hfrom.trans hto)

/-- `setBase` adds a link only if the base does not lead back to the type. -/
theorem Invariant.setBase (inv : table.Invariant) (id : TypeId) {base : TypeId}
    (hbase : base < table.size) : (table.setBase id base).Invariant := by
  unfold SymbolTable.setBase
  split
  · next haccepts =>
      have hback : ¬ ReflTransGen table.Link base id := by
        simp only [acceptsBase, Bool.and_eq_true, Bool.not_eq_true', List.contains_eq_mem,
          decide_eq_false_iff_not] at haccepts
        rw [← inv.mem_chain_iff]
        exact haccepts.1
      have hlink : ∀ x y, (table.modify id fun s => { s with base := some base }).Link x y →
          table.Link x y ∨ x = id ∧ y = base := by
        intro x y h
        unfold Link at h
        rw [base?_modify] at h
        split at h
        · next heq =>
            obtain ⟨s, -, hs⟩ := Option.bind_eq_some_iff.1 h
            exact .inr ⟨heq.symm, (Option.some.inj hs).symm⟩
        · exact .inl h
      refine ⟨indexed_modify (fun _ _ => rfl) inv.indexed, fun x y h => ?_,
        inv.acyclic_of_new_link hback hlink⟩
      rw [size_modify]
      rcases hlink x y h with h | ⟨-, rfl⟩
      · exact inv.present x y h
      · exact hbase
  · exact inv

theorem Invariant.addInterface (inv : table.Invariant) (id interface : TypeId) :
    (table.addInterface id interface).Invariant := by
  unfold SymbolTable.addInterface
  refine inv.modify (fun s _ => ?_) (fun s _ => .inl ?_) <;> split <;> rfl

/-! ## A new type -/

theorem size_push (symbol : TypeSymbol) : (table.push symbol).size = table.size + 1 := by
  simp [push, size]

theorem find?_push (symbol : TypeSymbol) (name : String) :
    (table.push symbol).find? name =
      if name = symbol.metadataName then some table.size else table.find? name := by
  simp only [SymbolTable.push, find?]
  rw [List.lookup_cons]
  by_cases h : name = symbol.metadataName
  · rw [if_pos h, beq_iff_eq.2 h]
  · rw [if_neg h, beq_eq_false_iff_ne.2 h]

theorem symbol?_push (symbol : TypeSymbol) (id : TypeId) :
    (table.push symbol).symbol? id =
      if id = table.size then some symbol else table.symbol? id := by
  simp only [SymbolTable.push, symbol?, size]
  exact Array.getElem?_push

/-- Nothing derives from a type that was not there, so a new type closes no cycle whatever its base
is. -/
theorem Invariant.push {symbol : TypeSymbol} (inv : table.Invariant)
    (hnew : table.find? symbol.metadataName = none)
    (hbase : ∀ base, symbol.base = some base → base < table.size) :
    (table.push symbol).Invariant := by
  have hlink : ∀ x y, (table.push symbol).Link x y →
      table.Link x y ∨ x = table.size ∧ symbol.base = some y := by
    intro x y h
    unfold Link at h ⊢
    rw [base?_eq, symbol?_push] at h
    split at h
    · next heq => exact .inr ⟨heq, h⟩
    · rw [base?_eq]
      exact .inl h
  have hpresent : ∀ x y, (table.push symbol).Link x y → y < table.size := by
    intro x y h
    rcases hlink x y h with h | ⟨-, h⟩
    · exact inv.present x y h
    · exact hbase y h
  refine ⟨fun name id => ?_, fun x y h => ?_, fun x h => ?_⟩
  · rw [find?_push, symbol?_push]
    by_cases hid : id = table.size
    · subst hid
      rw [if_pos rfl]
      split
      · next hn => simp [hn]
      · next hn =>
          have hold : table.find? name ≠ some table.size := fun h => by
            obtain ⟨s, hs, -⟩ := (inv.indexed name _).1 h
            exact Nat.lt_irrefl _ (lt_size_of_symbol? hs)
          simp [hold, Ne.symm hn]
    · rw [if_neg hid]
      split
      · next hn =>
          have hold : ¬ ∃ s, table.symbol? id = some s ∧ s.metadataName = name := fun h => by
            have := (inv.indexed name id).2 h
            rw [hn, hnew] at this
            cases this
          simp [hold, Ne.symm hid]
      · exact inv.indexed name id
  · rw [size_push]
    exact Nat.lt_succ_of_lt (hpresent x y h)
  · -- A link ends at an old type, so on a cycle every link starts at one as well.
    have hend : ∀ {a b : TypeId}, TransGen (table.push symbol).Link a b → b < table.size := by
      intro a b hab
      obtain ⟨c, -, hc⟩ := TransGen.tail'_iff.1 hab
      exact hpresent c b hc
    have hold : ∀ {a b : TypeId}, TransGen (table.push symbol).Link a b → a < table.size →
        TransGen table.Link a b := by
      intro a b hab ha
      induction hab with
      | single h =>
          rcases hlink _ _ h with h | ⟨rfl, -⟩
          · exact .single h
          · exact absurd ha (Nat.lt_irrefl _)
      | tail hab h ih =>
          rcases hlink _ _ h with h | ⟨rfl, -⟩
          · exact ih.tail h
          · exact absurd (hend hab) (Nat.lt_irrefl _)
    exact inv.acyclic x (hold h (hend h))

theorem Invariant.add {symbol : TypeSymbol} (inv : table.Invariant)
    (hbase : ∀ base, symbol.base = some base → base < table.size) :
    (table.add symbol).1.Invariant := by
  unfold SymbolTable.add
  split
  · next id hfound =>
      obtain ⟨old, hold, hname⟩ := (inv.indexed _ _).1 hfound
      have hreplaced : (table.modify id fun _ => { symbol with base := none }).Invariant := by
        refine inv.modify (fun s hs => ?_) (fun _ _ => .inr rfl)
        rw [hold] at hs
        rw [← Option.some.inj hs, hname]
        rfl
      split
      · next base hb => exact hreplaced.setBase id (by rw [size_modify]; exact hbase base hb)
      · exact hreplaced
  · next hnew => exact inv.push hnew hbase

theorem Invariant.declare (inv : table.Invariant) (space name : String) (kind : TypeKind) :
    (table.declare space name kind).1.Invariant := by
  unfold SymbolTable.declare
  simp only []
  split
  · exact inv
  · exact inv.add fun base h => by cases h

theorem invariant_empty : ({} : SymbolTable).Invariant where
  indexed := fun name id => by simp [find?, symbol?]
  present := fun id base h => by simp [Link, base?, symbol?] at h
  acyclic := fun id h => by
    obtain ⟨base, hb, -⟩ := TransGen.head'_iff.1 h
    simp [Link, base?, symbol?] at hb

end TreeLint.SymbolTable
