import TreeLint.Proofs.Derivation

/-!
# What a table never loses

A table grows by steps that pass the places of types that are there already, as bases and as
interfaces. No step takes a name from the index or gives it another place, so what a table can find
it can find for good, and its interface lists name types of the table at any time.

A table that started as the core library therefore has the two types that binding falls back to.
-/

namespace TreeLint.SymbolTable

open Relation (ReflTransGen)

variable {table table' : SymbolTable}

/-- One operation on a table. Every base and every interface that is passed is a type of it. -/
inductive Step : SymbolTable → SymbolTable → Prop where
  | add {table : SymbolTable} (symbol : TypeSymbol)
      (hbase : ∀ base, symbol.base = some base → base < table.size)
      (hinterfaces : ∀ i ∈ symbol.interfaces, i < table.size) : Step table (table.add symbol).1
  | declare {table : SymbolTable} (space name : String) (kind : TypeKind) :
      Step table (table.declare space name kind).1
  | setBase {table : SymbolTable} (id base : TypeId) (hbase : base < table.size) :
      Step table (table.setBase id base)
  | addInterface {table : SymbolTable} (id i : TypeId) (hi : i < table.size) :
      Step table (table.addInterface id i)

theorem Reachable.step (h : Reachable table) (hstep : Step table table') : Reachable table' := by
  cases hstep with
  | add symbol hbase _ => exact h.add symbol hbase
  | declare space name kind => exact h.declare space name kind
  | setBase id base hbase => exact h.setBase id base hbase
  | addInterface id i _ => exact h.addInterface id i

theorem Reachable.steps (h : Reachable table) (hsteps : ReflTransGen Step table table') :
    Reachable table' := by
  induction hsteps with
  | refl => exact h
  | tail _ hstep ih => exact ih.step hstep

/-! ## Names stay where they are -/

theorem find?_push_of_some {symbol : TypeSymbol} {name : String} {id : TypeId}
    (hnew : table.find? symbol.metadataName = none) (h : table.find? name = some id) :
    (table.push symbol).find? name = some id := by
  rw [find?_push, if_neg, h]
  rintro rfl
  rw [hnew] at h
  cases h

theorem find?_setBase (id base : TypeId) (name : String) :
    (table.setBase id base).find? name = table.find? name := by
  unfold setBase
  split <;> rfl

theorem find?_add {symbol : TypeSymbol} {name : String} {id : TypeId}
    (h : table.find? name = some id) : (table.add symbol).1.find? name = some id := by
  unfold add
  split
  · split
    · rw [find?_setBase, find?_modify, h]
    · rw [find?_modify, h]
  · next hnew => exact find?_push_of_some hnew h

theorem Step.find?_eq (hstep : Step table table') {name : String} {id : TypeId}
    (h : table.find? name = some id) : table'.find? name = some id := by
  cases hstep with
  | add symbol _ _ => exact find?_add h
  | declare space name kind =>
      unfold SymbolTable.declare
      simp only []
      split
      · exact h
      · exact find?_add h
  | setBase id base _ => rw [find?_setBase, h]
  | addInterface id i _ => exact h

theorem find?_steps (hsteps : ReflTransGen Step table table') {name : String} {id : TypeId}
    (h : table.find? name = some id) : table'.find? name = some id := by
  induction hsteps with
  | refl => exact h
  | tail _ hstep ih => exact hstep.find?_eq ih

/-! ## Interface lists name types of the table -/

/-- Every interface that a type declares is a type of the table. -/
def InterfacesPresent (table : SymbolTable) : Prop :=
  ∀ id i, table.Declares id i → i < table.size

theorem declares_modify {id other i : TypeId} {change : TypeSymbol → TypeSymbol}
    (h : (table.modify id change).Declares other i) :
    table.Declares other i ∨ ∃ s, table.symbol? id = some s ∧ i ∈ (change s).interfaces := by
  unfold Declares at h ⊢
  rw [interfaces_eq, symbol?_modify] at h
  split at h
  · next heq =>
      subst heq
      cases hs : table.symbol? id with
      | none =>
          rw [hs] at h
          cases h
      | some s =>
          rw [hs] at h
          exact .inr ⟨s, rfl, h⟩
  · rw [interfaces_eq]
    exact .inl h

/-- A change that adds nothing but types of the table to the interfaces of a type. -/
theorem InterfacesPresent.modify {id : TypeId} {change : TypeSymbol → TypeSymbol}
    (h : table.InterfacesPresent)
    (hchange : ∀ s, table.symbol? id = some s →
      ∀ i ∈ (change s).interfaces, i ∈ s.interfaces ∨ i < table.size) :
    (table.modify id change).InterfacesPresent := by
  intro other i hdeclares
  rw [size_modify]
  rcases declares_modify hdeclares with hold | ⟨s, hs, hi⟩
  · exact h other i hold
  · rcases hchange s hs i hi with hold | hlt
    · refine h id i ?_
      rw [Declares, interfaces_eq, hs]
      exact hold
    · exact hlt

theorem InterfacesPresent.setBase (h : table.InterfacesPresent) (id base : TypeId) :
    (table.setBase id base).InterfacesPresent := by
  unfold SymbolTable.setBase
  split
  · exact h.modify fun _ _ _ hi => .inl hi
  · exact h

theorem InterfacesPresent.push {symbol : TypeSymbol} (h : table.InterfacesPresent)
    (hsymbol : ∀ i ∈ symbol.interfaces, i < table.size) :
    (table.push symbol).InterfacesPresent := by
  intro id i hdeclares
  unfold Declares at hdeclares
  rw [interfaces_eq, symbol?_push] at hdeclares
  rw [size_push]
  refine Nat.lt_succ_of_lt ?_
  split at hdeclares
  · exact hsymbol i hdeclares
  · refine h id i ?_
    rw [Declares, interfaces_eq]
    exact hdeclares

theorem InterfacesPresent.add {symbol : TypeSymbol} (h : table.InterfacesPresent)
    (hsymbol : ∀ i ∈ symbol.interfaces, i < table.size) :
    (table.add symbol).1.InterfacesPresent := by
  unfold SymbolTable.add
  split
  · next id _ =>
      have hreplaced : (table.modify id fun _ => { symbol with base := none }).InterfacesPresent :=
        h.modify fun _ _ i hi => .inr (hsymbol i hi)
      split
      · exact hreplaced.setBase id _
      · exact hreplaced
  · exact h.push hsymbol

theorem InterfacesPresent.step (h : table.InterfacesPresent) (hstep : Step table table') :
    table'.InterfacesPresent := by
  cases hstep with
  | add symbol _ hinterfaces => exact h.add hinterfaces
  | declare space name kind =>
      unfold SymbolTable.declare
      simp only []
      split
      · exact h
      · exact h.add fun i hi => by cases hi
  | setBase id base _ => exact h.setBase id base
  | addInterface id i hi =>
      refine h.modify fun s _ other hother => ?_
      split at hother
      · exact .inl hother
      · rcases List.mem_append.1 hother with hold | hnew
        · exact .inl hold
        · rw [List.mem_singleton.1 hnew]
          exact .inr hi

theorem interfacesPresent_core : core.InterfacesPresent := by
  intro id i h
  have hall : ∀ i ∈ core.mentioned, i < core.size := by decide
  exact hall i (mem_mentioned h)

theorem interfacesPresent_steps (hsteps : ReflTransGen Step core table) :
    table.InterfacesPresent := by
  induction hsteps with
  | refl => exact interfacesPresent_core
  | tail _ hstep ih => exact ih.step hstep

end TreeLint.SymbolTable
