import TreeLint.Proofs.Likeness
import TreeLint.Proofs.SameBinding

/-!
# Declarations in trees that are alike

Trees that are alike up to harmless changes declare the same types in the same order, as long as
what comes, goes or is exchanged declares none. A declaration that is kept keeps its name, since
only trivia tokens come and go, and its namespace, since the nodes around it open what they did.

Its base list is kept as well, entry by entry. The name in an entry may have been exchanged, and
then it has to stand for the same type; a name that was kept does so because its scope is what it
was.
-/

namespace TreeLint

namespace Tree

mutual

/-- Whether nothing in a tree declares a type. -/
def declaresNone : Tree → Bool
  | .token _ => true
  | .node k children => !k.isTypeDeclaration && declaresNoneAll children

def declaresNoneAll : List Tree → Bool
  | [] => true
  | t :: rest => t.declaresNone && declaresNoneAll rest

end

theorem declaresNoneAll_of_namesOnly {trees : List Tree} (h : namesOnlyAll trees = true) :
    declaresNoneAll trees = true := by
  match trees with
  | [] => rfl
  | .token t :: rest =>
      rw [namesOnlyAll, Bool.and_eq_true] at h
      rw [declaresNoneAll, declaresNone, Bool.true_and]
      exact declaresNoneAll_of_namesOnly h.2
  | .node k children :: rest =>
      rw [namesOnlyAll, namesOnly, Bool.and_eq_true, Bool.and_eq_true] at h
      rw [declaresNoneAll, declaresNone, Kind.not_typeDeclaration_of_isName h.1.1,
        declaresNoneAll_of_namesOnly h.1.2, declaresNoneAll_of_namesOnly h.2]
      rfl

end Tree

theorem Node.declaresNone_of_dotted {n : Node} {dotted : String} (hs : n.nameShaped = true)
    (hd : n.dotted? = some dotted) : n.toTree.declaresNone = true := by
  obtain ⟨hk, hnames⟩ := Node.namesOnly_of_dotted hs hd
  rw [Node.toTree, Tree.declaresNone, Kind.not_typeDeclaration_of_isName hk,
    Tree.declaresNoneAll_of_namesOnly hnames]
  rfl

/-- The type declarations among some nodes. -/
def Cursor.declaring (cursors : List Cursor) : List Cursor :=
  cursors.filter fun c => c.kind.isTypeDeclaration

open Cursor (declaring)

theorem Cursor.declaring_append (front back : List Cursor) :
    declaring (front ++ back) = declaring front ++ declaring back := List.filter_append front back

namespace Element

/-- The nodes of an element. -/
def nodes : Element → List Cursor
  | .node c => c.descendants
  | .token _ => []

end Element

namespace Cursor

theorem nodesFrom_eq (c : Cursor) (index start : Nat) (trees : List Tree) :
    c.nodesFrom index start trees = (c.elementsFrom index start trees).flatMap Element.nodes := by
  induction trees generalizing index start with
  | nil => rfl
  | cons t rest ih =>
      cases t with
      | token t =>
          rw [nodesFrom_token, elementsFrom, List.flatMap_cons, ih]
          rfl
      | node k children =>
          rw [nodesFrom_node, elementsFrom, List.flatMap_cons, ih]
          rfl

theorem descendants_eq_elements (c : Cursor) :
    c.descendants = c :: c.elements.flatMap Element.nodes := by
  rw [descendants_eq, nodesFrom_eq]
  rfl

theorem declaring_nodesFrom {c : Cursor} {index start : Nat} {trees : List Tree}
    (h : Tree.declaresNoneAll trees = true) : declaring (c.nodesFrom index start trees) = [] := by
  match trees with
  | [] => rfl
  | .token t :: rest =>
      rw [Tree.declaresNoneAll, Bool.and_eq_true] at h
      rw [nodesFrom_token]
      exact declaring_nodesFrom h.2
  | .node k children :: rest =>
      rw [Tree.declaresNoneAll, Tree.declaresNone, Bool.and_eq_true, Bool.and_eq_true,
        Bool.not_eq_true'] at h
      have hunder : declaring ((c.child index start k children).nodesFrom 0 start children) = [] :=
        declaring_nodesFrom h.1.2
      have hk : (c.child index start k children).kind.isTypeDeclaration = false := h.1.1
      rw [nodesFrom_node, declaring_append, declaring_nodesFrom h.2, List.append_nil,
        descendants_eq, declaring, List.filter_cons, hk]
      exact hunder

theorem declaring_descendants {c : Cursor} (h : c.node.toTree.declaresNone = true) :
    declaring c.descendants = [] := by
  rw [Node.toTree, Tree.declaresNone, Bool.and_eq_true, Bool.not_eq_true'] at h
  have hk : c.kind.isTypeDeclaration = false := h.1
  have hunder : declaring (c.nodesFrom 0 c.start c.node.children) = [] := declaring_nodesFrom h.2
  rw [descendants_eq, declaring, List.filter_cons, hk]
  exact hunder

end Cursor

/-- What may come, go or be exchanged without a change to any declaration. -/
structure KeepsDeclarations (table : SymbolTable) (extra : Element → Prop)
    (swap : Cursor → Cursor → Prop) : Prop extends Harmless extra swap where
  extra_declares : ∀ c, extra (.node c) → c.node.toTree.declaresNone = true
  old_declares : ∀ c d, swap c d → c.node.toTree.declaresNone = true
  new_declares : ∀ c d, swap c d → d.node.toTree.declaresNone = true
  resolves : ∀ c d p, swap c d → c.parent? = some p → p.kind = .simpleBaseType →
    table.resolveName? c = table.resolveName? d

/-! ## A declaration that is kept -/

variable {table : SymbolTable} {extra : Element → Prop} {swap : Cursor → Cursor → Prop}

/-- The scope of a node that is kept is what it was if that of its parent is. -/
theorem Paired.scope (hh : Harmless extra swap) {p q c d : Cursor}
    (h : Paired (Alike extra swap) p q c d) (hscope : List.Forall₂ SameScope p.scope q.scope) :
    List.Forall₂ SameScope c.scope d.scope := by
  rw [Cursor.scope, Cursor.scope, Cursor.map_node_above h.old, Cursor.map_node_above h.new]
  exact .cons (h.related.sameScope hh) hscope

/-- The first child of a kind stays the first, unless its kind is that of attribute lists. -/
theorem AlikeAll.find?_kept (hh : Harmless extra swap) {old new : List Element} {p q : Cursor}
    (h : AlikeAll extra swap old new) (hold : ∀ e ∈ old, e.parent? = some p)
    (hnew : ∀ e ∈ new, e.parent? = some q) (hp : p.kind.holdsShortenable = false) {k : Kind}
    (hk : k ≠ .attributeList) :
    Option.Rel (Paired (Alike extra swap) p q)
      ((old.filterMap Element.node?).find? fun c => c.kind == k)
      ((new.filterMap Element.node?).find? fun c => c.kind == k) := by
  have hextra : ∀ (e : Element) (es : List Element), extra e →
      ((e :: es).filterMap Element.node?).find? (fun c => c.kind == k) =
        (es.filterMap Element.node?).find? fun c => c.kind == k := by
    intro e es he
    cases e with
    | token t => rfl
    | node c =>
        have hne : (c.kind == k) = false := by
          rw [beq_eq_false_iff_ne, (hh.attributeList c he).1]
          exact hk.symm
        rw [List.filterMap_cons_some (by rfl), List.find?_cons, hne]
  induction h with
  | nil => exact .none
  | token _ _ ih =>
      rw [List.forall_mem_cons] at hold hnew
      exact ih hold.2 hnew.2
  | @kept c d _ _ hkind under _ _ ih =>
      rw [List.forall_mem_cons] at hold hnew
      rw [List.filterMap_cons_some (by rfl), List.filterMap_cons_some (by rfl), List.find?_cons,
        List.find?_cons, ← hkind]
      split
      · exact .some ⟨hold.1, hnew.1, hkind, under⟩
      · exact ih hold.2 hnew.2
  | swapped h _ _ =>
      rw [List.forall_mem_cons] at hold
      obtain ⟨asAttribute, hshortenable⟩ := hh.shortenable _ _ h
      rw [hshortenable.holds hold.1] at hp
      cases hp
  | dropped h _ ih =>
      rw [List.forall_mem_cons] at hold
      rw [hextra _ _ h]
      exact ih hold.2 hnew
  | added h _ ih =>
      rw [List.forall_mem_cons] at hnew
      rw [hextra _ _ h]
      exact ih hold hnew.2

/-- The name in an entry of a base list stands for what it stood for. -/
theorem Paired.entry_eq (hk : KeepsDeclarations table extra swap) {p q c d : Cursor}
    (h : Paired (Alike extra swap) p q c d) (hkind : c.kind = .simpleBaseType)
    (hscope : List.Forall₂ SameScope p.scope q.scope) :
    c.firstChild?.bind table.resolveName? = d.firstChild?.bind table.resolveName? := by
  have hpairs := h.related.under.nodes hk.toHarmless c.parent?_of_mem_elements
    d.parent?_of_mem_elements (by rw [hkind]; rfl) (by rw [← h.related.kind, hkind]; rfl)
  have hhere := h.scope hk.toHarmless hscope
  rw [Cursor.firstChild?, Cursor.firstChild?, Cursor.childNodes, Cursor.childNodes]
  generalize c.elements.filterMap Element.node? = names at hpairs
  generalize d.elements.filterMap Element.node? = names' at hpairs
  cases hpairs with
  | nil => rfl
  | cons hpair _ =>
      rcases hpair.related with halike | hswap
      · have hdotted := halike.dotted?_eq hk.toHarmless (hpair.parentKind_ne (by rw [hkind]; simp))
        have hpaired : Paired (Alike extra swap) c d _ _ := ⟨hpair.old, hpair.new, halike⟩
        have hresolve := fun dotted =>
          SymbolTable.resolve?_congr (rfl : table.places = table.places)
            (hpaired.scope hk.toHarmless hhere) dotted false
        simp only [List.head?_cons, Option.bind_some, SymbolTable.resolveName?, hdotted, hresolve]
      · exact hk.resolves _ _ c hswap hpair.old hkind

theorem Paired.entries_eq (hk : KeepsDeclarations table extra swap) {p q c d : Cursor}
    (h : Paired (Alike extra swap) p q c d) (hkind : c.kind = .baseList)
    (hscope : List.Forall₂ SameScope p.scope q.scope) :
    (c.baseTypes.filterMap Cursor.firstChild?).filterMap table.resolveName? =
      (d.baseTypes.filterMap Cursor.firstChild?).filterMap table.resolveName? := by
  have hpairs := h.related.childNodes hk.toHarmless (by rw [hkind]; rfl) (by rw [hkind]; rfl)
  have hhere := h.scope hk.toHarmless hscope
  rw [List.filterMap_filterMap, List.filterMap_filterMap, Cursor.baseTypes, Cursor.baseTypes,
    Cursor.childrenOfKind, Cursor.childrenOfKind, List.filterMap_filter, List.filterMap_filter]
  generalize c.childNodes = entries at hpairs
  generalize d.childNodes = entries' at hpairs
  induction hpairs with
  | nil => rfl
  | @cons a b _ _ hpair _ ih =>
      rw [List.filterMap_cons, List.filterMap_cons, ih, ← hpair.related.kind]
      by_cases hentry : (a.kind == .simpleBaseType) = true
      · rw [if_pos hentry, if_pos hentry, hpair.entry_eq hk (beq_iff_eq.1 hentry) hhere]
      · rw [if_neg hentry, if_neg hentry]

theorem Alike.identifier?_eq (hh : Harmless extra swap) {c d : Cursor} (h : Alike extra swap c d) :
    c.identifier?.map (·.token) = d.identifier?.map (·.token) := by
  have hidentifier := h.under.identifier_eq hh
  rw [List.find?_map, List.find?_map] at hidentifier
  exact hidentifier

/-- A declaration that is kept in the scope it had binds as it did. -/
theorem Alike.sameDeclaration (hk : KeepsDeclarations table extra swap) {c d : Cursor}
    (h : Alike extra swap c d) (hdeclares : c.kind.isTypeDeclaration = true)
    (habove : List.Forall₂ SameScope (c.above.map (·.node)) (d.above.map (·.node))) :
    SameDeclaration table c d where
  kind := h.kind
  name := h.identifier?_eq hk.toHarmless
  space := containingNamespace?_congr habove
  bases := by
    have hholds : c.kind.holdsShortenable = false :=
      Kind.not_holdsShortenable_of_isTypeDeclaration hdeclares
    have hscope : List.Forall₂ SameScope c.scope d.scope :=
      .cons (h.sameScope hk.toHarmless) habove
    have hlists := h.under.find?_kept hk.toHarmless (k := .baseList) c.parent?_of_mem_elements
      d.parent?_of_mem_elements hholds (by simp)
    rw [Cursor.baseNames, Cursor.baseNames, Cursor.baseList?, Cursor.baseList?,
      Cursor.firstChildOfKind?, Cursor.firstChildOfKind?, Cursor.childNodes, Cursor.childNodes]
    have hkind : ∀ list, (c.elements.filterMap Element.node?).find? (fun e =>
        e.kind == .baseList) = some list → list.kind = .baseList := by
      intro list hlist
      have hfits := List.find?_some hlist
      rwa [beq_iff_eq] at hfits
    generalize (c.elements.filterMap Element.node?).find? (fun e => e.kind == .baseList) = list
      at hlists hkind
    generalize (d.elements.filterMap Element.node?).find? (fun e => e.kind == .baseList) = list'
      at hlists
    cases hlists with
    | none => rfl
    | some hpair => exact hpair.entries_eq hk (hkind _ rfl) hscope

/-! ## Nodes that are kept -/

/-- Nodes of some kinds neither come nor go, and none is in anything that is exchanged. -/
structure Spares (p : Kind → Bool) (extra : Element → Prop) (swap : Cursor → Cursor → Prop) :
    Prop where
  extra : ∀ c, extra (.node c) → ∀ e ∈ c.descendants, p e.kind = false
  old : ∀ c d, swap c d → ∀ e ∈ c.descendants, p e.kind = false
  new : ∀ c d, swap c d → ∀ e ∈ d.descendants, p e.kind = false

/-- A node of some kinds and the one that it is kept as, with the nodes around them related. -/
structure KeptAs (p : Kind → Bool) (around : Node → Node → Prop) (extra : Element → Prop)
    (swap : Cursor → Cursor → Prop) (c d : Cursor) : Prop where
  fits : p c.kind = true
  alike : Alike extra swap c d
  above : List.Forall₂ around (c.above.map (·.node)) (d.above.map (·.node))

/-- The nodes of some kinds among others. -/
def Cursor.ofKinds (p : Kind → Bool) (cursors : List Cursor) : List Cursor :=
  cursors.filter fun c => p c.kind

section

variable {p : Kind → Bool} {around : Node → Node → Prop}

/-- At and under a node that is kept, the nodes of the kinds are the node itself, if it is of one of
them, and those under it. -/
theorem Alike.keptAs_of_under {c d : Cursor} (h : Alike extra swap c d)
    (habove : List.Forall₂ around (c.above.map (·.node)) (d.above.map (·.node)))
    (hunder : List.Forall₂ (KeptAs p around extra swap)
      (Cursor.ofKinds p (c.elements.flatMap Element.nodes))
      (Cursor.ofKinds p (d.elements.flatMap Element.nodes))) :
    List.Forall₂ (KeptAs p around extra swap) (Cursor.ofKinds p c.descendants)
      (Cursor.ofKinds p d.descendants) := by
  rw [c.descendants_eq_elements, d.descendants_eq_elements, Cursor.ofKinds, Cursor.ofKinds,
    List.filter_cons, List.filter_cons, ← h.kind]
  split
  · next hfits => exact .cons ⟨hfits, h, habove⟩ hunder
  · exact hunder

theorem AlikeAll.keptAs (hspares : Spares p extra swap)
    (haround : ∀ c d, Alike extra swap c d → around c.node d.node) {old new : List Element}
    {a b : Cursor} (h : AlikeAll extra swap old new) (hold : ∀ e ∈ old, e.parent? = some a)
    (hnew : ∀ e ∈ new, e.parent? = some b) (hscope : List.Forall₂ around a.scope b.scope) :
    List.Forall₂ (KeptAs p around extra swap) (Cursor.ofKinds p (old.flatMap Element.nodes))
      (Cursor.ofKinds p (new.flatMap Element.nodes)) := by
  have hskip : ∀ (c : Cursor) (es : List Element), (∀ e ∈ c.descendants, p e.kind = false) →
      Cursor.ofKinds p ((Element.node c :: es).flatMap Element.nodes) =
        Cursor.ofKinds p (es.flatMap Element.nodes) := by
    intro c es hnone
    have hempty : Cursor.ofKinds p c.descendants = [] :=
      List.filter_eq_nil_iff.2 fun e he => Bool.eq_false_iff.1 (hnone e he)
    rw [List.flatMap_cons, Cursor.ofKinds, List.filter_append]
    exact (congrArg (· ++ _) hempty).trans (List.nil_append _)
  have hextra : ∀ (e : Element) (es : List Element), extra e →
      Cursor.ofKinds p ((e :: es).flatMap Element.nodes) =
        Cursor.ofKinds p (es.flatMap Element.nodes) := by
    intro e es he
    cases e with
    | token t => rfl
    | node c => exact hskip c es (hspares.extra c he)
  induction h generalizing a b with
  | nil => exact .nil
  | token _ _ ih =>
      rw [List.forall_mem_cons] at hold hnew
      exact ih hold.2 hnew.2 hscope
  | @kept c d _ _ hkind under _ hunder ih =>
      rw [List.forall_mem_cons] at hold hnew
      have halike : Alike extra swap c d := ⟨hkind, under⟩
      have habove : List.Forall₂ around (c.above.map (·.node)) (d.above.map (·.node)) := by
        rw [Cursor.map_node_above hold.1, Cursor.map_node_above hnew.1]
        exact hscope
      have hinner := hunder c.parent?_of_mem_elements d.parent?_of_mem_elements
        (.cons (haround c d halike) habove)
      rw [List.flatMap_cons, List.flatMap_cons, Cursor.ofKinds, Cursor.ofKinds, List.filter_append,
        List.filter_append]
      exact List.rel_append (halike.keptAs_of_under habove hinner) (ih hold.2 hnew.2 hscope)
  | @swapped c d _ _ h _ ih =>
      rw [List.forall_mem_cons] at hold hnew
      rw [hskip c _ (hspares.old c d h), hskip d _ (hspares.new c d h)]
      exact ih hold.2 hnew.2 hscope
  | dropped h _ ih =>
      rw [List.forall_mem_cons] at hold
      rw [hextra _ _ h]
      exact ih hold.2 hnew hscope
  | added h _ ih =>
      rw [List.forall_mem_cons] at hnew
      rw [hextra _ _ h]
      exact ih hold hnew.2 hscope

/-- The nodes of the kinds correspond one by one in trees that are alike. -/
theorem Alike.keptAs (hspares : Spares p extra swap)
    (haround : ∀ c d, Alike extra swap c d → around c.node d.node) {root root' : Node}
    (h : Alike extra swap (.ofRoot root) (.ofRoot root')) :
    List.Forall₂ (KeptAs p around extra swap) (Cursor.ofKinds p (Cursor.ofRoot root).descendants)
      (Cursor.ofKinds p (Cursor.ofRoot root').descendants) :=
  h.keptAs_of_under .nil (h.under.keptAs hspares haround
    (Cursor.ofRoot root).parent?_of_mem_elements (Cursor.ofRoot root').parent?_of_mem_elements
    (.cons (haround _ _ h) .nil))

end

/-! ## All declarations -/

namespace KeepsDeclarations

theorem spares (hk : KeepsDeclarations table extra swap) :
    Spares Kind.isTypeDeclaration extra swap := by
  have hnone : ∀ c : Cursor, c.node.toTree.declaresNone = true →
      ∀ e ∈ c.descendants, e.kind.isTypeDeclaration = false := by
    intro c hc e he
    exact Bool.eq_false_iff.2 (List.filter_eq_nil_iff.1 (Cursor.declaring_descendants hc) e he)
  exact ⟨fun c h => hnone c (hk.extra_declares c h), fun c d h => hnone c (hk.old_declares c d h),
    fun c d h => hnone d (hk.new_declares c d h)⟩

theorem sameDeclaration (hk : KeepsDeclarations table extra swap) {c d : Cursor}
    (h : KeptAs Kind.isTypeDeclaration SameScope extra swap c d) : SameDeclaration table c d :=
  h.alike.sameDeclaration hk h.fits h.above

end KeepsDeclarations

theorem AlikeAll.declaring (hk : KeepsDeclarations table extra swap) {old new : List Element}
    {p q : Cursor} (h : AlikeAll extra swap old new) (hold : ∀ e ∈ old, e.parent? = some p)
    (hnew : ∀ e ∈ new, e.parent? = some q) (hscope : List.Forall₂ SameScope p.scope q.scope) :
    List.Forall₂ (SameDeclaration table) (Cursor.declaring (old.flatMap Element.nodes))
      (Cursor.declaring (new.flatMap Element.nodes)) :=
  (h.keptAs hk.spares (fun _ _ halike => halike.sameScope hk.toHarmless) hold hnew hscope).imp
    fun _ _ => hk.sameDeclaration

/-- Trees that are alike declare the same types. -/
theorem Alike.declarationsIn (hk : KeepsDeclarations table extra swap) {root root' : Node}
    (h : Alike extra swap (.ofRoot root) (.ofRoot root')) :
    List.Forall₂ (SameDeclaration table) (SymbolTable.declarationsIn root)
      (SymbolTable.declarationsIn root') :=
  (h.keptAs hk.spares fun _ _ halike => halike.sameScope hk.toHarmless).imp
    fun _ _ => hk.sameDeclaration

end TreeLint
