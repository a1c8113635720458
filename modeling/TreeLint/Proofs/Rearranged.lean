import Mathlib.Data.List.Perm.Basic
import TreeLint.Proofs.KeptDeclarations

/-!
# Declarations that change places

Sibling declarations may change places with each other, at any depth: the declarations of types and
of namespaces, with everything under them. What stands at a place among siblings is then either what
stood there, or a declaration where a declaration stood.

No node reads anything of a declaration among its children, not even a dotted name. So every node
opens, imports and lists what it did, every name stands in the scope it stood in, and the list of
all declarations is what it was up to order.
-/

namespace TreeLint

namespace Kind

/-- The nodes that may change places with each other. -/
def isDeclaration (k : Kind) : Bool := k.isTypeDeclaration || k == .namespaceDeclaration

theorem not_name_of_isDeclaration {k : Kind} (h : k.isDeclaration = true) : k.isName = false := by
  cases k <;> first | rfl | cases h

end Kind

/-- Trees of which some declarations changed places with siblings, at any depth. -/
inductive RearrangedAll : (old new : List Tree) → Prop where
  | nil : RearrangedAll [] []
  | token (t : Token) {old new : List Tree} (rest : RearrangedAll old new) :
      RearrangedAll (.token t :: old) (.token t :: new)
  | node (k : Kind) {children children' old new : List Tree}
      (under : RearrangedAll children children') (rest : RearrangedAll old new) :
      RearrangedAll (.node k children :: old) (.node k children' :: new)
  | exchanged {k l : Kind} (hk : k.isDeclaration = true) (hl : l.isDeclaration = true)
      (as bs middle rest : List Tree) :
      RearrangedAll (.node k as :: (middle ++ .node l bs :: rest))
        (.node l bs :: (middle ++ .node k as :: rest))
  | trans {old between new : List Tree} (first : RearrangedAll old between)
      (second : RearrangedAll between new) : RearrangedAll old new

namespace Node

/-- Two nodes of which one is the other with declarations under it in other places. -/
structure Rearranged (n m : Node) : Prop where
  kind : n.kind = m.kind
  under : RearrangedAll n.children m.children

/-- Two nodes of which the second may stand where the first stood among its siblings. -/
def Replaces (n m : Node) : Prop :=
  n.Rearranged m ∨ n.kind.isDeclaration = true ∧ m.kind.isDeclaration = true

end Node

theorem RearrangedAll.refl (trees : List Tree) : RearrangedAll trees trees := by
  match trees with
  | [] => exact .nil
  | .token t :: rest => exact .token t (refl rest)
  | .node k children :: rest => exact .node k (refl children) (refl rest)

theorem Node.Replaces.refl (n : Node) : n.Replaces n := .inl ⟨rfl, .refl n.children⟩

theorem Node.Replaces.trans {n m o : Node} (h : n.Replaces m) (h' : m.Replaces o) :
    n.Replaces o := by
  rcases h with h | ⟨hn, hm⟩ <;> rcases h' with h' | ⟨hm', ho⟩
  · exact .inl ⟨h.kind.trans h'.kind, h.under.trans h'.under⟩
  · exact .inr ⟨h.kind ▸ hm', ho⟩
  · exact .inr ⟨hn, h'.kind ▸ hm⟩
  · exact .inr ⟨hn, ho⟩

/-! ## What is read of children -/

namespace RearrangedAll

variable {old new : List Tree}

theorem tokens_eq (h : RearrangedAll old new) :
    old.filterMap Tree.token? = new.filterMap Tree.token? := by
  induction h with
  | nil => rfl
  | token t _ ih => rw [List.filterMap_cons, List.filterMap_cons, ih]
  | node k _ _ _ ih => exact ih
  | exchanged hk hl as bs middle rest =>
      rw [List.filterMap_cons_none (by rfl), List.filterMap_cons_none (by rfl),
        List.filterMap_append, List.filterMap_append, List.filterMap_cons_none (by rfl),
        List.filterMap_cons_none (by rfl)]
  | trans _ _ ih ih' => exact ih.trans ih'

theorem nodes (h : RearrangedAll old new) :
    List.Forall₂ Node.Replaces (old.filterMap Tree.node?) (new.filterMap Tree.node?) := by
  have hsame : ∀ trees : List Tree, List.Forall₂ Node.Replaces (trees.filterMap Tree.node?)
      (trees.filterMap Tree.node?) := fun trees => List.forall₂_same.2 fun n _ => .refl n
  induction h with
  | nil => exact .nil
  | token t _ ih => exact ih
  | node k under _ _ ih => exact .cons (.inl ⟨rfl, under⟩) ih
  | exchanged hk hl as bs middle rest =>
      rw [List.filterMap_cons_some (by rfl), List.filterMap_cons_some (by rfl),
        List.filterMap_append, List.filterMap_append]
      exact .cons (.inr ⟨hk, hl⟩)
        (List.rel_append (hsame middle) (.cons (.inr ⟨hl, hk⟩) (hsame rest)))
  | trans _ _ ih ih' => exact forall₂_trans .trans ih ih'

theorem dottedParts_eq (h : RearrangedAll old new) :
    Tree.dottedParts old = Tree.dottedParts new := by
  have hnone : ∀ {k : Kind}, k.isDeclaration = true → ∀ children rest : List Tree,
      Tree.dottedParts (.node k children :: rest) = none :: Tree.dottedParts rest := by
    intro k hk children rest
    have hdotted : Node.dotted? ⟨k, children⟩ = none :=
      Node.dotted?_eq_none (Kind.not_name_of_isDeclaration hk)
    exact congrArg (· :: Tree.dottedParts rest) hdotted
  induction h with
  | nil => rfl
  | token t _ ih => exact ih
  | @node k children children' old new under _ hunder ih =>
      have hdotted : Node.dotted? ⟨k, children⟩ = Node.dotted? ⟨k, children'⟩ :=
        Node.dotted?_congr rfl (congrArg (List.find? _) under.tokens_eq) hunder
      rw [Tree.dottedParts, Tree.dottedParts, ih]
      exact congrArg (· :: Tree.dottedParts new) hdotted
  | exchanged hk hl as bs middle rest =>
      rw [hnone hk, hnone hl, Tree.dottedParts_append, Tree.dottedParts_append, hnone hk, hnone hl]
  | trans _ _ ih ih' => exact ih.trans ih'

end RearrangedAll

theorem Node.Rearranged.dotted?_eq {n m : Node} (h : n.Rearranged m) : n.dotted? = m.dotted? :=
  Node.dotted?_congr h.kind (congrArg (List.find? _) h.under.tokens_eq) h.under.dottedParts_eq

namespace Node.Replaces

variable {n m : Node} (h : n.Replaces m)

include h

theorem dotted?_eq : n.dotted? = m.dotted? := by
  rcases h with h | ⟨hn, hm⟩
  · exact h.dotted?_eq
  · rw [Node.dotted?_eq_none (Kind.not_name_of_isDeclaration hn),
      Node.dotted?_eq_none (Kind.not_name_of_isDeclaration hm)]

theorem kind_beq {k : Kind} (hk : k.isDeclaration = false) : (n.kind == k) = (m.kind == k) := by
  rcases h with h | ⟨hn, hm⟩
  · rw [h.kind]
  · have hne : ∀ l : Kind, l.isDeclaration = true → (l == k) = false := by
      rintro l hl
      rw [beq_eq_false_iff_ne]
      rintro rfl
      rw [hl] at hk
      cases hk
    rw [hne _ hn, hne _ hm]

theorem rearranged (hn : n.kind.isDeclaration = false) : n.Rearranged m := by
  rcases h with h | ⟨hn', -⟩
  · exact h
  · rw [hn] at hn'
    cases hn'

end Node.Replaces

namespace Node.Rearranged

variable {n m : Node}

theorem namespaceName?_eq (h : n.Rearranged m) : n.namespaceName? = m.namespaceName? :=
  namespaceName?_congr <| h.under.nodes.imp fun _ _ hplace =>
    ⟨by rw [hplace.kind_beq (by rfl), hplace.kind_beq (by rfl)], hplace.dotted?_eq⟩

theorem importedName?_eq (h : n.Rearranged m) : n.importedName? = m.importedName? := by
  have hnodes := h.under.nodes
  rw [Node.importedName?, Node.importedName?, Node.childNodes, Node.childNodes]
  generalize n.children.filterMap Tree.node? = children at hnodes
  generalize m.children.filterMap Tree.node? = children' at hnodes
  cases hnodes with
  | nil => rfl
  | cons hplace _ => exact hplace.dotted?_eq

theorem importedNames_eq (h : n.Rearranged m) : n.importedNames = m.importedNames := by
  refine importedNames_congr (h.under.nodes.imp fun a b hplace => ?_)
  refine ⟨hplace.kind_beq (by rfl), fun husing => ?_⟩
  exact (hplace.rearranged (by rw [husing]; rfl)).importedName?_eq

/-- A node opens and imports what it did before declarations under it changed places. -/
theorem sameScope (h : n.Rearranged m) : SameScope n m where
  space := by rw [Node.space?, Node.space?, h.kind, h.namespaceName?_eq]
  imports := by rw [Node.imports, Node.imports, h.kind, h.importedNames_eq]

end Node.Rearranged

/-! ## Declarations that are rearranged inside -/

namespace Cursor

theorem parent?_of_mem_childNodes {c e : Cursor} (h : e ∈ c.childNodes) : e.parent? = some c := by
  obtain ⟨element, hmem, hnode⟩ := List.mem_filterMap.1 h
  have hparent := c.parent?_of_mem_elements element hmem
  cases element with
  | token t => cases hnode
  | node d =>
      cases hnode
      exact hparent

variable {c d : Cursor}

/-- The child nodes of a node that was rearranged stand in for those it had, one by one. -/
theorem childNodes_rearranged (h : c.node.Rearranged d.node) :
    List.Forall₂ (Paired (fun a b => a.node.Replaces b.node) c d) c.childNodes d.childNodes := by
  have hnodes := h.under.nodes
  have hold : ∀ e ∈ c.childNodes, e.parent? = some c := fun _ => parent?_of_mem_childNodes
  have hnew : ∀ e ∈ d.childNodes, e.parent? = some d := fun _ => parent?_of_mem_childNodes
  rw [← c.map_node_childNodes, ← d.map_node_childNodes, List.forall₂_map_left_iff,
    List.forall₂_map_right_iff] at hnodes
  generalize c.childNodes = children at hnodes hold
  generalize d.childNodes = children' at hnodes hnew
  induction hnodes with
  | nil => exact .nil
  | cons hplace _ ih =>
      rw [List.forall_mem_cons] at hold hnew
      exact .cons ⟨hold.1, hnew.1, hplace⟩ (ih hold.2 hnew.2)

end Cursor

variable {table : SymbolTable} {p q c d : Cursor}

theorem Node.Rearranged.scope (h : c.node.Rearranged d.node) (hc : c.parent? = some p)
    (hd : d.parent? = some q) (hscope : List.Forall₂ SameScope p.scope q.scope) :
    List.Forall₂ SameScope c.scope d.scope := by
  rw [Cursor.scope, Cursor.scope, Cursor.map_node_above hc, Cursor.map_node_above hd]
  exact .cons h.sameScope hscope

theorem resolveName?_rearranged (h : Paired (fun a b => a.node.Replaces b.node) p q c d)
    (hscope : List.Forall₂ SameScope p.scope q.scope) :
    table.resolveName? c = table.resolveName? d := by
  have hdotted := h.related.dotted?_eq
  rcases h.related with hsame | ⟨hc, hd⟩
  · have hresolve := fun dotted => SymbolTable.resolve?_congr (rfl : table.places = table.places)
      (hsame.scope h.old h.new hscope) dotted false
    simp only [SymbolTable.resolveName?, hdotted, hresolve]
  · have hnone : d.node.dotted? = none := Node.dotted?_eq_none (Kind.not_name_of_isDeclaration hd)
    rw [SymbolTable.resolveName?, SymbolTable.resolveName?, hdotted, hnone]

/-- What a base list names does not depend on the places of declarations. -/
theorem baseTypes_rearranged (h : c.node.Rearranged d.node)
    (hscope : List.Forall₂ SameScope c.scope d.scope) :
    (c.baseTypes.filterMap Cursor.firstChild?).filterMap table.resolveName? =
      (d.baseTypes.filterMap Cursor.firstChild?).filterMap table.resolveName? := by
  have hentries := Cursor.childNodes_rearranged h
  rw [List.filterMap_filterMap, List.filterMap_filterMap, Cursor.baseTypes, Cursor.baseTypes,
    Cursor.childrenOfKind, Cursor.childrenOfKind, List.filterMap_filter, List.filterMap_filter]
  generalize c.childNodes = entries at hentries
  generalize d.childNodes = entries' at hentries
  induction hentries with
  | nil => rfl
  | @cons a b _ _ hpair _ ih =>
      have hkind : (a.kind == .simpleBaseType) = (b.kind == .simpleBaseType) :=
        hpair.related.kind_beq (by rfl)
      rw [List.filterMap_cons, List.filterMap_cons, ih, ← hkind]
      by_cases hentry : (a.kind == .simpleBaseType) = true
      · have hsame := hpair.related.rearranged (by rw [← Cursor.kind, beq_iff_eq.1 hentry]; rfl)
        have hnamed : a.firstChild?.bind table.resolveName? =
            b.firstChild?.bind table.resolveName? := by
          have hnames := Cursor.childNodes_rearranged hsame
          rw [Cursor.firstChild?, Cursor.firstChild?]
          generalize a.childNodes = names at hnames
          generalize b.childNodes = names' at hnames
          cases hnames with
          | nil => rfl
          | cons hname _ =>
              exact resolveName?_rearranged hname (hsame.scope hpair.old hpair.new hscope)
        rw [if_pos hentry, if_pos hentry, hnamed]
      · rw [if_neg hentry, if_neg hentry]

theorem baseList?_rearranged (h : c.node.Rearranged d.node) :
    Option.Rel (Paired (fun a b => a.node.Rearranged b.node) c d) c.baseList? d.baseList? := by
  have hlists := Cursor.childNodes_rearranged h
  rw [Cursor.baseList?, Cursor.baseList?, Cursor.firstChildOfKind?, Cursor.firstChildOfKind?]
  generalize c.childNodes = lists at hlists
  generalize d.childNodes = lists' at hlists
  induction hlists with
  | nil => exact .none
  | @cons a b _ _ hpair _ ih =>
      have hkind : (a.kind == .baseList) = (b.kind == .baseList) :=
        hpair.related.kind_beq (by rfl)
      rw [List.find?_cons, List.find?_cons, ← hkind]
      cases hlist : a.kind == .baseList with
      | true =>
          have hsame := hpair.related.rearranged (by rw [← Cursor.kind, beq_iff_eq.1 hlist]; rfl)
          exact .some ⟨hpair.old, hpair.new, hsame⟩
      | false => exact ih

/-- A type declaration binds as it did before declarations under it changed places. -/
theorem Node.Rearranged.sameDeclaration (h : c.node.Rearranged d.node)
    (habove : List.Forall₂ SameScope (c.above.map (·.node)) (d.above.map (·.node))) :
    SameDeclaration table c d where
  kind := h.kind
  name := by
    have htokens : c.childTokens.map (·.token) = d.childTokens.map (·.token) := by
      rw [c.map_token_childTokens, d.map_token_childTokens, h.under.tokens_eq]
    have hidentifier := congrArg (List.find? fun t => t.kind == .identifierToken) htokens
    rwa [List.find?_map, List.find?_map] at hidentifier
  space := containingNamespace?_congr habove
  bases := by
    have hscope : List.Forall₂ SameScope c.scope d.scope := .cons h.sameScope habove
    have hlists := baseList?_rearranged h
    rw [Cursor.baseNames, Cursor.baseNames]
    generalize c.baseList? = list at hlists
    generalize d.baseList? = list' at hlists
    cases hlists with
    | none => rfl
    | some hpair =>
        exact baseTypes_rearranged hpair.related (hpair.related.scope hpair.old hpair.new hscope)

/-! ## All declarations -/

open Cursor (declaring)

/-- Declarations that are those of another list in some order, as far as a table can tell. -/
def Reordered (table : SymbolTable) : List Cursor → List Cursor → Prop :=
  Relation.Comp List.Perm (List.Forall₂ (SameDeclaration table))

namespace Reordered

variable {cs ds es cs' ds' : List Cursor}

theorem of_same (h : List.Forall₂ (SameDeclaration table) cs ds) : Reordered table cs ds :=
  ⟨cs, .refl cs, h⟩

theorem of_perm (h : cs.Perm ds) : Reordered table cs ds :=
  ⟨ds, h, List.forall₂_same.2 fun d _ => .refl table d⟩

theorem append (h : Reordered table cs ds) (h' : Reordered table cs' ds') :
    Reordered table (cs ++ cs') (ds ++ ds') := by
  obtain ⟨mid, hperm, hsame⟩ := h
  obtain ⟨mid', hperm', hsame'⟩ := h'
  exact ⟨mid ++ mid', hperm.append hperm', List.rel_append hsame hsame'⟩

theorem trans (h : Reordered table cs ds) (h' : Reordered table ds es) :
    Reordered table cs es := by
  obtain ⟨mid, hperm, hsame⟩ := h
  obtain ⟨mid', hperm', hsame'⟩ := h'
  have hswapped : Reordered table mid mid' := by
    have hboth : Relation.Comp (List.Forall₂ (SameDeclaration table)) List.Perm mid mid' :=
      ⟨ds, hsame, hperm'⟩
    rwa [List.forall₂_comp_perm_eq_perm_comp_forall₂] at hboth
  obtain ⟨between, hfirst, hthen⟩ := hswapped
  exact ⟨between, hperm.trans hfirst, SameDeclaration.forall₂_trans hthen hsame'⟩

theorem exchange {as as' ms ms' bs bs' : List Cursor} (ha : Reordered table as as')
    (hm : Reordered table ms ms') (hb : Reordered table bs bs') (h : Reordered table cs ds) :
    Reordered table (as ++ (ms ++ (bs ++ cs))) (bs' ++ (ms' ++ (as' ++ ds))) := by
  have hperm : (as ++ (ms ++ (bs ++ cs))).Perm (bs ++ (ms ++ (as ++ cs))) :=
    calc (as ++ (ms ++ (bs ++ cs))).Perm (ms ++ (as ++ (bs ++ cs))) :=
          List.perm_append_comm_assoc ..
      List.Perm _ (ms ++ (bs ++ (as ++ cs))) := (List.perm_append_comm_assoc ..).append_left ms
      List.Perm _ (bs ++ (ms ++ (as ++ cs))) := List.perm_append_comm_assoc ..
  exact (Reordered.of_perm hperm).trans (hb.append (hm.append (ha.append h)))

end Reordered

/-- The same trees at two places in the same scope declare the same. -/
theorem declaring_same (hscope : List.Forall₂ SameScope p.scope q.scope)
    (index start index' start' : Nat) (trees : List Tree) :
    List.Forall₂ (SameDeclaration table) (declaring (p.nodesFrom index start trees))
      (declaring (q.nodesFrom index' start' trees)) := by
  have hkeeps : KeepsDeclarations table (fun _ => False) fun _ _ => False :=
    { trivia := fun _ h => h.elim, attributeList := fun _ h => h.elim,
      shortenable := fun _ _ h => h.elim, extra_declares := fun _ h => h.elim,
      old_declares := fun _ _ h => h.elim, new_declares := fun _ _ h => h.elim,
      resolves := fun _ _ _ h => h.elim }
  rw [Cursor.nodesFrom_eq, Cursor.nodesFrom_eq]
  exact (AlikeAll.same p q index start index' start' trees).declaring hkeeps
    (fun _ => Cursor.parent?_of_mem_elementsFrom) (fun _ => Cursor.parent?_of_mem_elementsFrom)
    hscope

theorem Node.Rearranged.declaring_of_under (h : c.node.Rearranged d.node)
    (habove : List.Forall₂ SameScope (c.above.map (·.node)) (d.above.map (·.node)))
    (hunder : Reordered table (declaring (c.nodesFrom 0 c.start c.node.children))
      (declaring (d.nodesFrom 0 d.start d.node.children))) :
    Reordered table (declaring c.descendants) (declaring d.descendants) := by
  have hkind : c.kind = d.kind := h.kind
  rw [c.descendants_eq, d.descendants_eq, declaring, declaring, List.filter_cons,
    List.filter_cons, ← hkind]
  split
  · have hself : Reordered table [c] [d] := .of_same (.cons (h.sameDeclaration habove) .nil)
    exact hself.append hunder
  · exact hunder

theorem declaring_child (hscope : List.Forall₂ SameScope p.scope q.scope)
    (index start index' start' : Nat) (k : Kind) (children : List Tree) :
    Reordered table (declaring (p.child index start k children).descendants)
      (declaring (q.child index' start' k children).descendants) := by
  have hsame : Node.Rearranged ⟨k, children⟩ ⟨k, children⟩ := ⟨rfl, .refl children⟩
  have hinside : List.Forall₂ SameScope (p.child index start k children).scope
      (q.child index' start' k children).scope := .cons hsame.sameScope hscope
  exact hsame.declaring_of_under hscope (.of_same (declaring_same hinside _ _ _ _ children))

/-- Rearranging trees reorders the declarations among and under them. -/
theorem RearrangedAll.declaring {old new : List Tree} (h : RearrangedAll old new)
    (hscope : List.Forall₂ SameScope p.scope q.scope) (index start index' start' : Nat) :
    Reordered table (declaring (p.nodesFrom index start old))
      (declaring (q.nodesFrom index' start' new)) := by
  induction h generalizing p q index start index' start' with
  | nil => exact .of_same .nil
  | token t _ ih => exact ih hscope _ _ _ _
  | @node k children children' old new under _ hunder ih =>
      have hnode : Node.Rearranged ⟨k, children⟩ ⟨k, children'⟩ := ⟨rfl, under⟩
      have hinside : List.Forall₂ SameScope (p.child index start k children).scope
          (q.child index' start' k children').scope := .cons hnode.sameScope hscope
      have hfirst : Reordered table (declaring (p.child index start k children).descendants)
          (declaring (q.child index' start' k children').descendants) :=
        hnode.declaring_of_under hscope (hunder hinside _ _ _ _)
      rw [Cursor.nodesFrom_node, Cursor.nodesFrom_node, Cursor.declaring_append,
        Cursor.declaring_append]
      exact hfirst.append (ih hscope _ _ _ _)
  | exchanged hk hl as bs middle rest =>
      rw [Cursor.nodesFrom_node, Cursor.nodesFrom_node, Cursor.nodesFrom_append,
        Cursor.nodesFrom_append, Cursor.nodesFrom_node, Cursor.nodesFrom_node]
      simp only [Cursor.declaring_append]
      exact .exchange (declaring_child hscope _ _ _ _ _ as)
        (.of_same (declaring_same hscope _ _ _ _ middle)) (declaring_child hscope _ _ _ _ _ bs)
        (.of_same (declaring_same hscope _ _ _ _ rest))
  | trans _ _ ih ih' =>
      -- the trees in between are looked at where the old ones stood
      have hself : List.Forall₂ SameScope p.scope p.scope :=
        List.forall₂_same.2 fun _ _ => ⟨rfl, rfl⟩
      exact (ih hself index start 0 0).trans (ih' hscope 0 0 index' start')

theorem Node.Rearranged.declarationsIn {n m : Node} (h : n.Rearranged m) :
    Reordered table (SymbolTable.declarationsIn n) (SymbolTable.declarationsIn m) := by
  have hroots : (Cursor.ofRoot n).node.Rearranged (Cursor.ofRoot m).node := h
  have hscope : List.Forall₂ SameScope (Cursor.ofRoot n).scope (Cursor.ofRoot m).scope :=
    .cons h.sameScope .nil
  exact hroots.declaring_of_under .nil (h.under.declaring hscope _ _ _ _)

end TreeLint
