import TreeLint.Proofs.ShortestNames
import TreeLint.Proofs.TableInvariant

/-!
# The order in which names are tried

A name is tried as it is, then in the namespaces around it, then in those that are imported around
it, and the first candidate that a type is found for decides. Three things make up the order.

The namespaces around a place are one dotted text, whether it was written at once or in parts, and
what is tried are all fronts of this text that end at one of its dots: each front once, the longest
first, whichever declarations the dots come from. The imports are listed container by container. And
the suffix that the name of an attribute may leave out belongs to a candidate: the next one is tried
only if none of both forms is found.

What a candidate is found by is the index of the table. However a table grew, the index knows a
name exactly if a type has it.
-/

namespace TreeLint

namespace Dotted

/-! ## The fronts of a name -/

/-- A front of a dotted name: all of it, or what stands in front of one of its dots. -/
def Front (front name : String) : Prop := front = name ∨ ∃ rest, name = front ++ "." ++ rest

theorem mem_shortenings_iff {name front : String} :
    front ∈ shortenings name ↔ Front front name := by
  have hpos := List.length_pos_of_ne_nil (segments_ne_nil name)
  simp only [shortenings, List.mem_map, List.mem_range]
  constructor
  · rintro ⟨dropped, hdropped, rfl⟩
    cases dropped with
    | zero =>
        refine .inl ?_
        rw [Nat.sub_zero, List.take_length, join_segments]
    | succ dropped =>
        have hfront : (segments name).take ((segments name).length - (dropped + 1)) ≠ [] := by
          rw [ne_eq, List.take_eq_nil_iff]
          rintro (h | h)
          · omega
          · exact segments_ne_nil name h
        have hback : (segments name).drop ((segments name).length - (dropped + 1)) ≠ [] := by
          rw [ne_eq, List.drop_eq_nil_iff]
          omega
        refine .inr ⟨join ((segments name).drop ((segments name).length - (dropped + 1))), ?_⟩
        rw [← join_append hfront hback, List.take_append_drop, join_segments]
  · rintro (rfl | ⟨rest, rfl⟩)
    · refine ⟨0, hpos, ?_⟩
      rw [Nat.sub_zero, List.take_length, join_segments]
    · have hfront := List.length_pos_of_ne_nil (segments_ne_nil front)
      refine ⟨(segments rest).length, ?_, ?_⟩
      · rw [segments_append, List.length_append]
        omega
      · rw [segments_append, List.length_append, Nat.add_sub_cancel, List.take_left, join_segments]

theorem length_join_take_lt {parts : List String} {m n : Nat} (hm : 0 < m) (hmn : m < n)
    (hn : n ≤ parts.length) : (join (parts.take m)).length < (join (parts.take n)).length := by
  have htake : (parts.take n).take m = parts.take m := by
    rw [List.take_take, Nat.min_eq_left (by omega)]
  have hsplit : parts.take m ++ (parts.take n).drop m = parts.take n := by
    rw [← htake, List.take_append_drop]
  have hfront : parts.take m ≠ [] := by
    rw [ne_eq, List.take_eq_nil_iff]
    rintro (h | rfl)
    · omega
    · simp at hn
      omega
  have hback : (parts.take n).drop m ≠ [] := by
    rw [ne_eq, List.drop_eq_nil_iff, List.length_take]
    omega
  have hdot : ".".length = 1 := rfl
  rw [← hsplit, join_append hfront hback, String.length_append, String.length_append]
  omega

/-- The fronts of a name get shorter. -/
theorem pairwise_shortenings (name : String) :
    (shortenings name).Pairwise fun front next => next.length < front.length := by
  rw [shortenings, List.pairwise_map]
  refine List.pairwise_lt_range.imp_of_mem fun {dropped more} hdropped hmore hlt => ?_
  rw [List.mem_range] at hdropped hmore
  exact length_join_take_lt (by omega) (by omega) (by omega)

end Dotted

namespace SymbolTable

/-! ## The index -/

/-- The index of a table knows a name exactly if a type has it. -/
def Indexed (table : SymbolTable) : Prop :=
  ∀ name id, table.find? name = some id ↔ ∃ s, table.symbol? id = some s ∧ s.metadataName = name

/-- The tables that the operations lead to, also with bases and interfaces that are no types of the
table. -/
inductive Grown : SymbolTable → Prop where
  | empty : Grown {}
  | add {table : SymbolTable} (h : Grown table) (symbol : TypeSymbol) : Grown (table.add symbol).1
  | declare {table : SymbolTable} (h : Grown table) (space name : String) (kind : TypeKind) :
      Grown (table.declare space name kind).1
  | setBase {table : SymbolTable} (h : Grown table) (id base : TypeId) :
      Grown (table.setBase id base)
  | addInterface {table : SymbolTable} (h : Grown table) (id interface : TypeId) :
      Grown (table.addInterface id interface)

variable {table : SymbolTable}

theorem Indexed.push {symbol : TypeSymbol} (h : table.Indexed)
    (hnew : table.find? symbol.metadataName = none) : (table.push symbol).Indexed := by
  intro name id
  rw [find?_push, symbol?_push]
  by_cases hname : name = symbol.metadataName
  · subst hname
    rw [if_pos rfl]
    by_cases hid : id = table.size
    · subst hid
      simp
    · have hold : ¬∃ s, table.symbol? id = some s ∧ s.metadataName = symbol.metadataName := by
        rw [← h, hnew]
        exact fun heq => by cases heq
      rw [if_neg hid]
      exact ⟨fun hsize => absurd (Option.some.inj hsize).symm hid, fun hs => absurd hs hold⟩
  · rw [if_neg hname]
    by_cases hid : id = table.size
    · subst hid
      have hold : table.find? name ≠ some table.size := by
        rw [ne_eq, h]
        rintro ⟨s, hs, -⟩
        exact Nat.lt_irrefl _ (lt_size_of_symbol? hs)
      simp [hold, Ne.symm hname]
    · rw [if_neg hid]
      exact h name id

theorem Indexed.setBase (h : table.Indexed) (id base : TypeId) :
    (table.setBase id base).Indexed := by
  unfold SymbolTable.setBase
  split
  · exact indexed_modify (fun _ _ => rfl) h
  · exact h

theorem Indexed.addInterface (h : table.Indexed) (id interface : TypeId) :
    (table.addInterface id interface).Indexed := by
  refine indexed_modify (fun s _ => ?_) h
  split <;> rfl

theorem Indexed.add (h : table.Indexed) (symbol : TypeSymbol) : (table.add symbol).1.Indexed := by
  unfold SymbolTable.add
  split
  · next id hfound =>
      obtain ⟨old, hold, hname⟩ := (h _ _).1 hfound
      have hreplaced : (table.modify id fun _ => { symbol with base := none }).Indexed := by
        refine indexed_modify (fun s hs => ?_) h
        rw [hold] at hs
        rw [← Option.some.inj hs, hname]
        rfl
      split
      · next base hbase => exact hreplaced.setBase id base
      · exact hreplaced
  · next hnew => exact h.push hnew

theorem Indexed.declare (h : table.Indexed) (space name : String) (kind : TypeKind) :
    (table.declare space name kind).1.Indexed := by
  unfold SymbolTable.declare
  simp only []
  split
  · exact h
  · exact h.add _

theorem Grown.indexed (h : Grown table) : table.Indexed := by
  induction h with
  | empty => exact fun name id => by simp [find?, symbol?]
  | add _ symbol ih => exact ih.add symbol
  | declare _ space name kind ih => exact ih.declare space name kind
  | setBase _ id base ih => exact ih.setBase id base
  | addInterface _ id interface ih => exact ih.addInterface id interface

theorem Grown.core : Grown core := by
  have hadd : ∀ (symbols : List TypeSymbol) (table : SymbolTable), Grown table →
      Grown (symbols.foldl (fun table symbol => (table.add symbol).1) table) := by
    intro symbols
    induction symbols with
    | nil => exact fun table h => h
    | cons symbol rest ih => exact fun table h => ih _ (h.add symbol)
  exact hadd coreSymbols {} .empty

/-! ## What a candidate is found by -/

/-- A candidate for a name hits a type: one with the name of the candidate or, if there is none and
the name is that of an attribute and does not have the suffix, one with the suffix behind it. -/
def Hits (table : SymbolTable) (dotted : String) (asAttribute : Bool) (candidate : String)
    (id : TypeId) : Prop :=
  table.hasName id candidate = true ∨
    (∀ other, table.hasName other candidate = false) ∧ asAttribute = true ∧
      ¬attributeSuffix.toList <:+ dotted.toList ∧
        table.hasName id (candidate ++ attributeSuffix) = true

/-- The suffix holds no dot, so a candidate ends with it only if the name does. -/
theorem suffix_candidate_iff (space dotted : String) :
    attributeSuffix.toList <:+ (space ++ "." ++ dotted).toList ↔
      attributeSuffix.toList <:+ dotted.toList := by
  have hsplit : (space ++ "." ++ dotted).toList = space.toList ++ '.' :: dotted.toList := by simp
  have hdot : '.' ∉ attributeSuffix.toList := by decide
  rw [hsplit]
  constructor
  · intro h
    rcases List.suffix_or_suffix_of_suffix h (List.suffix_append space.toList _) with h | h
    · rcases List.suffix_cons_iff.1 h with heq | h
      · exact absurd (heq ▸ List.mem_cons_self) hdot
      · exact h
    · exact absurd (h.subset List.mem_cons_self) hdot
  · intro h
    exact (h.trans (List.suffix_cons '.' _)).trans (List.suffix_append _ _)

theorem Indexed.find?_eq_some_iff (h : table.Indexed) {name : String} {id : TypeId} :
    table.find? name = some id ↔ table.hasName id name = true := by
  rw [h, hasName]
  cases table.symbol? id with
  | none => simp
  | some s => simp

theorem Indexed.find?_eq_none_iff (h : table.Indexed) {name : String} :
    table.find? name = none ↔ ∀ id, table.hasName id name = false := by
  rw [Option.eq_none_iff_forall_ne_some]
  refine forall_congr' fun id => ?_
  rw [ne_eq, h.find?_eq_some_iff, Bool.not_eq_true]

/-- Looking a candidate up finds what it hits. -/
theorem Indexed.lookUp?_eq_some_iff (h : table.Indexed) {dotted candidate : String}
    {asAttribute : Bool} {id : TypeId}
    (hsuffix : attributeSuffix.toList <:+ candidate.toList ↔
      attributeSuffix.toList <:+ dotted.toList) :
    table.lookUp? asAttribute candidate = some id ↔ table.Hits dotted asAttribute candidate id := by
  have htest : (asAttribute && !attributeSuffix.toList.isSuffixOf candidate.toList) = true ↔
      asAttribute = true ∧ ¬attributeSuffix.toList <:+ dotted.toList := by
    rw [Bool.and_eq_true, Bool.not_eq_true', ← Bool.not_eq_true, List.isSuffixOf_iff_suffix,
      hsuffix]
  rw [Hits, lookUp?, ← h.find?_eq_some_iff, ← h.find?_eq_some_iff, ← h.find?_eq_none_iff]
  cases table.find? candidate with
  | some other => simp
  | none =>
      by_cases htried : asAttribute = true ∧ ¬attributeSuffix.toList <:+ dotted.toList
      · simp only [htest.2 htried, if_true]
        simp [htried]
      · simp only [mt htest.1 htried, if_false, Bool.false_eq_true]
        constructor
        · intro heq
          cases heq
        · rintro (heq | ⟨-, hflag, hends, -⟩)
          · cases heq
          · exact absurd ⟨hflag, hends⟩ htried

/-! ## The order -/

/-- The names of the namespace declarations around a place, the innermost first. A declaration is
not around itself. -/
def namespacesAround (place : Cursor) : List String :=
  (place.ancestors.tail.filter fun c => c.kind == .namespaceDeclaration).filterMap fun c =>
    c.node.namespaceName?

/-- The names of the using directives in the containers around a place, those of the innermost
container first and each container's in order. The directives of a container count for itself. -/
def importsAround (place : Cursor) : List String :=
  (place.ancestors.filter fun c => c.kind.isContainer).flatMap fun c => c.node.importedNames

theorem map_node_ancestors (c : Cursor) : c.ancestors.map (·.node) = c.scope := by
  have henclosing : ∀ frames : List Frame,
      (Cursor.enclosing frames).map (·.node) = frames.map (·.node) := by
    intro frames
    induction frames with
    | nil => rfl
    | cons frame rest ih => rw [Cursor.enclosing, List.map_cons, List.map_cons, ih]
  rw [Cursor.ancestors, List.map_cons, henclosing, Cursor.scope]

theorem containingNamespace?_tail (c : Cursor) : containingNamespace? c.scope.tail =
    if namespacesAround c = [] then none else some (Dotted.join (namespacesAround c).reverse) := by
  have hnames : ((c.ancestors.tail.map (·.node)).filter fun n =>
      n.kind == .namespaceDeclaration).filterMap Node.namespaceName? = namespacesAround c := by
    rw [List.filter_map, List.filterMap_map]
    rfl
  rw [← map_node_ancestors, ← List.map_tail, containingNamespace?, hnames]
  cases namespacesAround c with
  | nil => rfl
  | cons name rest => rfl

theorem importsInScope_scope (c : Cursor) : importsInScope c.scope = importsAround c := by
  rw [← map_node_ancestors, importsInScope, List.filter_map, List.flatMap_map]
  rfl

/-- What is tried for a dotted name at a place: the name, the name behind each front of the
namespace around the place, the longest front first, and the name behind each import. -/
structure TriedInOrder (place : Cursor) (dotted : String) (tried : List String) : Prop where
  exists_fronts : ∃ fronts : List String,
    tried = dotted :: (fronts ++ importsAround place).map (fun space => space ++ "." ++ dotted) ∧
      fronts.Pairwise (fun front next => next.length < front.length) ∧
        ∀ front, front ∈ fronts ↔ namespacesAround place ≠ [] ∧
          Dotted.Front front (Dotted.join (namespacesAround place).reverse)

/-- A name stands for the first type that one of its candidates hits, and for none if no candidate
hits any. -/
structure FirstHit (table : SymbolTable) (dotted : String) (asAttribute : Bool)
    (tried : List String) (found : Option TypeId) : Prop where
  some_iff : ∀ id, found = some id ↔ ∃ earlier candidate later,
    tried = earlier ++ candidate :: later ∧ table.Hits dotted asAttribute candidate id ∧
      ∀ other ∈ earlier, ∀ id, ¬table.Hits dotted asAttribute other id
  none_iff : found = none ↔ ∀ candidate ∈ tried, ∀ id, ¬table.Hits dotted asAttribute candidate id

theorem triedInOrder_candidates (place : Cursor) (dotted : String) :
    TriedInOrder place dotted (candidates dotted place.scope) := by
  rw [candidates, containingNamespace?_tail, importsInScope_scope]
  by_cases hnone : namespacesAround place = []
  · refine ⟨[], by simp [hnone], .nil, fun front => ?_⟩
    simp [hnone]
  · rw [if_neg hnone]
    refine ⟨Dotted.shortenings (Dotted.join (namespacesAround place).reverse), rfl,
      Dotted.pairwise_shortenings _, fun front => ?_⟩
    rw [Dotted.mem_shortenings_iff]
    exact ⟨fun hfront => ⟨hnone, hfront⟩, fun hfront => hfront.2⟩

theorem suffix_iff_of_mem_candidates {dotted candidate : String} {scope : List Node}
    (h : candidate ∈ candidates dotted scope) :
    attributeSuffix.toList <:+ candidate.toList ↔ attributeSuffix.toList <:+ dotted.toList := by
  rcases List.mem_cons.1 h with rfl | h
  · exact Iff.rfl
  · obtain ⟨space, -, rfl⟩ := List.mem_map.1 h
    exact suffix_candidate_iff space dotted

/-- Resolving a name always gives an answer: the first hit among the candidates for the name at its
place, in a table that grew in any way. -/
theorem firstHit_of_grown (h : table.Grown) (place : Cursor) (dotted : String)
    (asAttribute : Bool) : ∃ tried, TriedInOrder place dotted tried ∧
      FirstHit table dotted asAttribute tried (table.resolve? dotted place.scope asAttribute) := by
  have hhits : ∀ candidate ∈ candidates dotted place.scope, ∀ id,
      table.lookUp? asAttribute candidate = some id ↔
        table.Hits dotted asAttribute candidate id := fun candidate hmem id =>
    h.indexed.lookUp?_eq_some_iff (suffix_iff_of_mem_candidates hmem)
  have hmisses : ∀ candidate ∈ candidates dotted place.scope,
      table.lookUp? asAttribute candidate = none ↔
        ∀ id, ¬table.Hits dotted asAttribute candidate id := by
    intro candidate hmem
    rw [Option.eq_none_iff_forall_ne_some]
    exact forall_congr' fun id => not_congr (hhits candidate hmem id)
  refine ⟨candidates dotted place.scope, triedInOrder_candidates place dotted, fun id => ?_, ?_⟩
  · rw [resolve?, List.findSome?_eq_some_iff]
    constructor
    · rintro ⟨earlier, candidate, later, hsplit, hfound, hearlier⟩
      have hmem : candidate ∈ candidates dotted place.scope := hsplit ▸ by simp
      refine ⟨earlier, candidate, later, hsplit, (hhits candidate hmem id).1 hfound, ?_⟩
      intro other hother
      exact (hmisses other (hsplit ▸ List.mem_append_left _ hother)).1 (hearlier other hother)
    · rintro ⟨earlier, candidate, later, hsplit, hhit, hearlier⟩
      have hmem : candidate ∈ candidates dotted place.scope := hsplit ▸ by simp
      refine ⟨earlier, candidate, later, hsplit, (hhits candidate hmem id).2 hhit, ?_⟩
      intro other hother
      exact (hmisses other (hsplit ▸ List.mem_append_left _ hother)).2 (hearlier other hother)
  · rw [resolve?, List.findSome?_eq_none_iff]
    exact forall₂_congr fun candidate hmem => hmisses candidate hmem

/-- The attribute `T` in a namespace that is written in two parts: `A.TAttribute` is found before
the imported `U.T`. -/
theorem firstHit_of_grown_in_parts :
    let declaration := Build.typeDeclaration .classDeclaration { name := "X" }
    let inner := Build.namespaceDeclaration "C" [declaration]
    let outer := Build.namespaceDeclaration "A.B" [inner]
    let unit := Build.compilationUnit [Build.usingDirective "U"] [outer]
    let place : Cursor := ⟨declaration, 39, [⟨inner, 25, 6⟩, ⟨outer, 9, 6⟩, ⟨unit, 0, 2⟩]⟩
    let table := ((core.declare "U" "T" .classType).1.declare "A" "TAttribute" .classType).1
    Grown table ∧ place ∈ (Cursor.ofRoot unit).descendants ∧
      candidates "T" place.scope = ["T", "A.B.C.T", "A.B.T", "A.T", "U.T"] ∧
      table.resolve? "T" place.scope true = some 13 ∧
      ∃ tried, TriedInOrder place "T" tried ∧ FirstHit table "T" true tried (some 13) := by
  intro declaration inner outer unit place table
  have hgrown : Grown table :=
    (Grown.core.declare "U" "T" .classType).declare "A" "TAttribute" .classType
  have hfound : table.resolve? "T" place.scope true = some 13 := by decide +kernel
  have hfirst := firstHit_of_grown hgrown place "T" true
  rw [hfound] at hfirst
  exact ⟨hgrown, by decide +kernel, by decide +kernel, hfound, hfirst⟩

end SymbolTable

end TreeLint
