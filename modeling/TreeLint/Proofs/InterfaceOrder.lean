import TreeLint.Proofs.Derivation

/-!
# In which order interfaces are listed

The search for interfaces starts with those declared along the chain of a type. Then it goes through
the list that it is making and puts behind it what each interface extends, as long as that is not
listed yet. At any time the list is what has been read so far without its repetitions: the lists of
the chain first, and then those of the interfaces that have been gone through.

At the end all have been gone through, so the list is described by an equation in which it stands on
both sides. The equation says what comes next as long as something is missing. An interface that
extends itself could still be listed for no reason but that it is listed, so the equation settles
the list only together with what it has to contain.
-/

namespace TreeLint.SymbolTable

open Relation (TransGen ReflTransGen)

variable {table : SymbolTable}

/-! ## What the search has read -/

/-- To list what an interface extends is to read its list behind all the others. -/
theorem append_fresh (read : List TypeId) (id : TypeId) :
    read.eraseDups ++ table.fresh read.eraseDups id = (read ++ table.interfaces id).eraseDups := by
  have hnew : ∀ i, (!read.eraseDups.contains i) = !read.elem i := by
    intro i
    rw [Bool.eq_iff_iff]
    simp [List.mem_eraseDups]
  rw [List.eraseDups_append, fresh, List.removeAll, List.filter_congr fun i _ => hnew i]

theorem Spread.eq_eraseDups {listed queue all : List TypeId} (h : Spread table listed queue all)
    {start gone : List TypeId} (hsplit : listed = gone ++ queue)
    (hread : listed = (start ++ gone.flatMap table.interfaces).eraseDups) :
    all = (start ++ all.flatMap table.interfaces).eraseDups := by
  induction h generalizing gone with
  | done listed =>
      rw [List.append_nil] at hsplit
      rwa [← hsplit] at hread
  | @round listed queue all id _ ih =>
      have hsplit' : listed ++ table.fresh listed id =
          (gone ++ [id]) ++ (queue ++ table.fresh listed id) := by
        rw [hsplit, List.append_assoc, List.append_assoc, List.singleton_append,
          List.cons_append]
      refine ih hsplit' ?_
      rw [hread, append_fresh, List.flatMap_append, List.flatMap_singleton, List.append_assoc]

theorem Spread.nodup {listed queue all : List TypeId} (h : Spread table listed queue all)
    (hnodup : listed.Nodup) : all.Nodup := by
  induction h with
  | done listed => exact hnodup
  | @round listed queue all id _ ih => exact ih (nodup_listed hnodup id)

/-! ## The list -/

/-- What the links of a chain declare, link by link, and behind that what listed interfaces extend,
one after the other, with all repetitions. -/
def declaredIn (table : SymbolTable) (links listed : List TypeId) : List TypeId :=
  links.flatMap table.interfaces ++ listed.flatMap table.interfaces

/-- A list of the interfaces of a type whose chain has some links. -/
structure ListsInterfaces (table : SymbolTable) (links all : List TypeId) : Prop where
  nodup : all.Nodup
  mem_iff : ∀ i, i ∈ all ↔
    ∃ link ∈ links, ∃ j ∈ table.interfaces link, ReflTransGen table.Declares j i
  /-- What the links declare comes first, link by link and in the order of declaration. -/
  declared_first : (links.flatMap table.interfaces).eraseDups <+: all
  /-- Behind that comes what the first in the list extends, what the second extends, and so on. -/
  in_order : all = (table.declaredIn links all).eraseDups

namespace ListsInterfaces

variable {links all other : List TypeId}

/-- What the first interfaces say stands in front in the list. -/
theorem declaredIn_take_isPrefix (h : ListsInterfaces table links all) (n : Nat) :
    (table.declaredIn links (all.take n)).eraseDups <+: all := by
  have hsplit : table.declaredIn links all =
      table.declaredIn links (all.take n) ++ (all.drop n).flatMap table.interfaces := by
    have hall : all.flatMap table.interfaces = (all.take n).flatMap table.interfaces ++
        (all.drop n).flatMap table.interfaces := by
      rw [← List.flatMap_append, List.take_append_drop]
    rw [declaredIn, declaredIn, List.append_assoc, ← hall]
  have horder := h.in_order
  rw [hsplit, List.eraseDups_append] at horder
  exact ⟨_, horder.symm⟩

theorem take_succ_eq (h : ListsInterfaces table links all) {n : Nat}
    (hmore : n < (table.declaredIn links (all.take n)).eraseDups.length) :
    all.take (n + 1) = (table.declaredIn links (all.take n)).eraseDups.take (n + 1) := by
  have hprefix := (List.prefix_iff_eq_take.1 (h.declaredIn_take_isPrefix n)).symm
  rw [← hprefix, List.take_take, Nat.min_eq_left hmore]

/-- The first interfaces are all if they say nothing new: then no way leads out of them. -/
theorem take_eq_self (h : ListsInterfaces table links all) {n : Nat}
    (hdone : (table.declaredIn links (all.take n)).eraseDups.length ≤ n) : all.take n = all := by
  have hknown := (List.prefix_take_iff.2 ⟨h.declaredIn_take_isPrefix n, hdone⟩).subset
  have hall : all ⊆ all.take n := by
    intro i hi
    obtain ⟨link, hlink, j, hj, hway⟩ := (h.mem_iff i).1 hi
    clear hi
    induction hway with
    | refl =>
        refine hknown (List.mem_eraseDups.2 (List.mem_append_left _ ?_))
        exact List.mem_flatMap.2 ⟨link, hlink, hj⟩
    | tail _ hextends ih =>
        refine hknown (List.mem_eraseDups.2 (List.mem_append_right _ ?_))
        exact List.mem_flatMap.2 ⟨_, ih, hextends⟩
  have hle := (List.subperm_of_subset h.nodup hall).length_le
  rw [List.length_take] at hle
  exact List.take_of_length_le (by omega)

/-- There is only one such list. -/
theorem unique (h : ListsInterfaces table links all) (h' : ListsInterfaces table links other) :
    all = other := by
  have htake : ∀ n, all.take n = other.take n := by
    intro n
    induction n with
    | zero => rfl
    | succ n ih =>
        rcases Nat.lt_or_ge n (table.declaredIn links (all.take n)).eraseDups.length with
          hmore | hdone
        · rw [h.take_succ_eq hmore, h'.take_succ_eq (ih ▸ hmore), ih]
        · rw [← h.take_eq_self hdone, ← h'.take_eq_self (ih ▸ hdone), ih]
  have hboth := htake (all.length + other.length)
  rwa [List.take_of_length_le (Nat.le_add_right _ _),
    List.take_of_length_le (Nat.le_add_left _ _)] at hboth

end ListsInterfaces

theorem listsInterfaces_allInterfaces (id : TypeId) :
    ListsInterfaces table (table.chain id) (table.allInterfaces id) := by
  have hspread : Spread table (table.declaredAlong id) (table.declaredAlong id)
    (table.allInterfaces id) := spread_allInterfaces id
  -- at the start nothing has been gone through
  have hread : table.declaredAlong id =
      ((table.chain id).flatMap table.interfaces ++ [].flatMap table.interfaces).eraseDups := by
    rw [List.flatMap_nil, List.append_nil, declaredAlong]
  have horder := hspread.eq_eraseDups (List.nil_append _).symm hread
  refine ⟨hspread.nodup (nodup_eraseDups _), fun i => ?_, ?_, horder⟩
  · rw [hspread.mem_iff]
    constructor
    · rintro ⟨j, hj, hway⟩
      obtain ⟨link, hlink, hdeclares⟩ := mem_declaredAlong.1 hj
      exact ⟨link, hlink, j, hdeclares, hway⟩
    · rintro ⟨link, hlink, j, hdeclares, hway⟩
      exact ⟨j, mem_declaredAlong.2 ⟨link, hlink, hdeclares⟩, hway⟩
  · rw [List.eraseDups_append] at horder
    exact ⟨_, horder.symm⟩

/-! ## Reachable tables -/

/-- A search for the interfaces of a type that ends, first along the chain and then over the queue
of interfaces, and what it lists. -/
structure SearchesInterfaces (table : SymbolTable) (id : TypeId) : Prop where
  walk_ends : Walk table id (table.chain id)
  spread_ends : Spread table (table.declaredAlong id) (table.declaredAlong id)
    (table.allInterfaces id)
  lists : ListsInterfaces table (table.chain id) (table.allInterfaces id)
  only : ∀ other, ListsInterfaces table (table.chain id) other → other = table.allInterfaces id

/-- On a reachable table the search for the interfaces of a type ends and lists them breadth first,
however they extend each other. -/
theorem searchesInterfaces_of_reachable (h : Reachable table) (id : TypeId) :
    SearchesInterfaces table id where
  walk_ends := h.invariant.walk_chain id
  spread_ends := spread_allInterfaces id
  lists := listsInterfaces_allInterfaces id
  only := fun _ hother => hother.unique (listsInterfaces_allInterfaces id)

/-- A class and its base declare interfaces, two of which extend each other. The interface that the
second of them extends comes before the one that the first leads to at two steps. -/
theorem searchesInterfaces_of_circle :
    let types := ((((core.declare "N" "IFirst" .interfaceType).1.declare "N" "ISecond"
      .interfaceType).1.declare "N" "IThird" .interfaceType).1.declare "N" "Base"
      .classType).1.declare "N" "Derived" .classType
    let declared := (((types.1.setBase 16 15).addInterface 16 14).addInterface 15 12).addInterface
      15 14
    let table := ((((declared.addInterface 14 5).addInterface 5 3).addInterface 12 13).addInterface
      12 14).addInterface 13 12
    Reachable table ∧ TransGen table.Declares 12 12 ∧ table.chain 16 = [16, 15] ∧
      table.allInterfaces 16 = [14, 12, 5, 13, 3] ∧
      ListsInterfaces table [16, 15] [14, 12, 5, 13, 3] := by
  intro types declared table
  have hr : Reachable table :=
    ((((((((((((((Reachable.core.declare "N" "IFirst" .interfaceType).declare "N" "ISecond"
      .interfaceType).declare "N" "IThird" .interfaceType).declare "N" "Base" .classType).declare
      "N" "Derived" .classType).setBase 16 15 (by decide)).addInterface 16 14).addInterface 15
      12).addInterface 15 14).addInterface 14 5).addInterface 5 3).addInterface 12 13).addInterface
      12 14).addInterface 13 12)
  have hextends : table.interfaces 12 = [13, 14] ∧ table.interfaces 13 = [12] := by decide
  have hfirst : table.Declares 12 13 := by rw [Declares, hextends.1]; exact List.mem_cons_self
  have hsecond : table.Declares 13 12 := by rw [Declares, hextends.2]; exact List.mem_cons_self
  have hchain : table.chain 16 = [16, 15] := by decide
  have hall : table.allInterfaces 16 = [14, 12, 5, 13, 3] := by decide
  have hlists := (searchesInterfaces_of_reachable hr 16).lists
  rw [hchain, hall] at hlists
  exact ⟨hr, .tail (.single hfirst) hsecond, hchain, hall, hlists⟩

end TreeLint.SymbolTable
