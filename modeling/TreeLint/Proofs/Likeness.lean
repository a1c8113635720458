import TreeLint.Proofs.SameScope
import TreeLint.Proofs.ShortenOnce

/-!
# Trees that differ in known places only

Two trees are alike if one becomes the other by leaving out or putting in some elements and by
exchanging some nodes, where two relations say which elements and which nodes these may be: `extra`
and `swap`. Everything else stays: the tokens, the kinds of nodes, and their order.

Such changes are harmless if what comes and goes is trivia or an attribute list of a type
declaration, and if a node is exchanged only where a name may be shortened. No namespace and no
using directive reads anything of that kind, so every node that is kept opens and imports what it
did, and a name resolves at its new place as it did at the old one.
-/

namespace TreeLint

open Simplify (Shortenable)

/-! ## The elements of a node -/

namespace Element

/-- The node that an element is a child of. -/
def parent? : Element → Option Cursor
  | .node c => c.parent?
  | .token t => some t.parent

/-- What stands at an element. -/
def tree : Element → Tree
  | .node c => c.node.toTree
  | .token t => .token t.token

end Element

namespace Cursor

theorem parent?_of_mem_elementsFrom {c : Cursor} {index start : Nat} {trees : List Tree}
    {e : Element} (h : e ∈ c.elementsFrom index start trees) : e.parent? = some c := by
  induction trees generalizing index start with
  | nil => cases h
  | cons t rest ih =>
      cases t with
      | token t =>
          rw [elementsFrom] at h
          rcases List.mem_cons.1 h with rfl | h
          · rfl
          · exact ih h
      | node k children =>
          rw [elementsFrom] at h
          rcases List.mem_cons.1 h with rfl | h
          · rfl
          · exact ih h

theorem parent?_of_mem_elements (c : Cursor) : ∀ e ∈ c.elements, e.parent? = some c := fun _ h =>
  parent?_of_mem_elementsFrom h

theorem map_tree_elementsFrom (c : Cursor) (index start : Nat) (trees : List Tree) :
    (c.elementsFrom index start trees).map Element.tree = trees := by
  induction trees generalizing index start with
  | nil => rfl
  | cons t rest ih =>
      cases t with
      | token t => rw [elementsFrom, List.map_cons, ih]; rfl
      | node k children => rw [elementsFrom, List.map_cons, ih]; rfl

theorem elementsFrom_append (c : Cursor) (index start : Nat) (front back : List Tree) :
    c.elementsFrom index start (front ++ back) = c.elementsFrom index start front ++
      c.elementsFrom (index + front.length) (start + Tree.widthAll front) back := by
  induction front generalizing index start with
  | nil => rfl
  | cons t rest ih =>
      have hindex : index + (t :: rest).length = index + 1 + rest.length := by
        rw [List.length_cons]
        omega
      rw [Tree.widthAll, ← Nat.add_assoc start, hindex]
      cases t with
      | token t => rw [List.cons_append, elementsFrom, elementsFrom, ih, List.cons_append]; rfl
      | node k children =>
          rw [List.cons_append, elementsFrom, elementsFrom, ih, List.cons_append]

theorem map_node_childNodes (c : Cursor) :
    c.childNodes.map (·.node) = c.node.children.filterMap Tree.node? := by
  have htrees := c.map_tree_elementsFrom 0 c.start c.node.children
  rw [← htrees, List.filterMap_map, childNodes, List.map_filterMap]
  refine List.filterMap_congr fun e _ => ?_
  cases e <;> rfl

theorem map_token_childTokens (c : Cursor) :
    c.childTokens.map (·.token) = c.node.children.filterMap Tree.token? := by
  have htrees := c.map_tree_elementsFrom 0 c.start c.node.children
  rw [← htrees, List.filterMap_map, childTokens, List.map_filterMap]
  refine List.filterMap_congr fun e _ => ?_
  cases e <;> rfl

theorem map_node_above {c p : Cursor} (h : c.parent? = some p) :
    c.above.map (·.node) = p.scope := by
  unfold parent? at h
  split at h
  · cases h
  · next frame rest habove =>
      cases h
      rw [habove]
      rfl

end Cursor

/-! ## Likeness -/

/-- The elements of a list are those of another, but for extra ones on either side and nodes that
were exchanged. -/
inductive AlikeAll (extra : Element → Prop) (swap : Cursor → Cursor → Prop) :
    (old new : List Element) → Prop where
  | nil : AlikeAll extra swap [] []
  | token {t u : TokenCursor} {old new : List Element} (h : t.token = u.token)
      (rest : AlikeAll extra swap old new) : AlikeAll extra swap (.token t :: old) (.token u :: new)
  | kept {c d : Cursor} {old new : List Element} (hkind : c.kind = d.kind)
      (under : AlikeAll extra swap c.elements d.elements) (rest : AlikeAll extra swap old new) :
      AlikeAll extra swap (.node c :: old) (.node d :: new)
  | swapped {c d : Cursor} {old new : List Element} (h : swap c d)
      (rest : AlikeAll extra swap old new) : AlikeAll extra swap (.node c :: old) (.node d :: new)
  | dropped {e : Element} {old new : List Element} (h : extra e)
      (rest : AlikeAll extra swap old new) : AlikeAll extra swap (e :: old) new
  | added {e : Element} {old new : List Element} (h : extra e)
      (rest : AlikeAll extra swap old new) : AlikeAll extra swap old (e :: new)

/-- Two nodes are of one kind and have the same under them, but for what is extra or exchanged. -/
structure Alike (extra : Element → Prop) (swap : Cursor → Cursor → Prop) (old new : Cursor) :
    Prop where
  kind : old.kind = new.kind
  under : AlikeAll extra swap old.elements new.elements

namespace AlikeAll

variable {extra : Element → Prop} {swap : Cursor → Cursor → Prop}

theorem append {old new old' new' : List Element} (h : AlikeAll extra swap old new)
    (h' : AlikeAll extra swap old' new') : AlikeAll extra swap (old ++ old') (new ++ new') := by
  induction h with
  | nil => exact h'
  | token h _ ih => exact .token h ih
  | kept hkind under _ _ ih => exact .kept hkind under ih
  | swapped h _ ih => exact .swapped h ih
  | dropped h _ ih => exact .dropped h ih
  | added h _ ih => exact .added h ih

theorem imp {extra' : Element → Prop} {swap' : Cursor → Cursor → Prop}
    (hextra : ∀ e, extra e → extra' e) (hswap : ∀ c d, swap c d → swap' c d)
    {old new : List Element} (h : AlikeAll extra swap old new) :
    AlikeAll extra' swap' old new := by
  induction h with
  | nil => exact .nil
  | token h _ ih => exact .token h ih
  | kept hkind _ _ hunder ih => exact .kept hkind hunder ih
  | swapped h _ ih => exact .swapped (hswap _ _ h) ih
  | dropped h _ ih => exact .dropped (hextra _ h) ih
  | added h _ ih => exact .added (hextra _ h) ih

theorem same (c d : Cursor) (index start index' start' : Nat) (trees : List Tree) :
    AlikeAll extra swap (c.elementsFrom index start trees)
      (d.elementsFrom index' start' trees) := by
  match trees with
  | [] => exact .nil
  | .token t :: rest => exact .token rfl (same c d _ _ _ _ rest)
  | .node k children :: rest =>
      exact .kept rfl (same (c.child index start k children) (d.child index' start' k children)
        0 start 0 start' children) (same c d _ _ _ _ rest)

end AlikeAll

/-- The elements of a node at a place that has a child in a gap. -/
theorem Place.elements_fill (g : Gap) (outer : Place) (n : Node) :
    (cursor outer (g.fill n)).elements =
      (cursor outer (g.fill n)).elementsFrom 0 (start outer) g.before ++
        .node (cursor (g :: outer) n) ::
          (cursor outer (g.fill n)).elementsFrom (g.before.length + 1)
            (start outer + Tree.widthAll g.before + n.width) g.behind := by
  have hchildren : (g.fill n).children = g.before ++ .node n.kind n.children :: g.behind := rfl
  have hchild : (cursor outer (g.fill n)).child g.before.length
      (start outer + Tree.widthAll g.before) n.kind n.children = cursor (g :: outer) n :=
    cursor_child outer hchildren
  have helements := Cursor.elementsFrom_append (cursor outer (g.fill n)) 0 (start outer)
    g.before (.node n.kind n.children :: g.behind)
  rw [Nat.zero_add, Cursor.elementsFrom, hchild] at helements
  exact helements

/-- Trees are alike if what stands at one place of them is. -/
theorem Place.alike_fill {extra : Element → Prop} {swap : Cursor → Cursor → Prop} (p : Place)
    {n m : Node} (hkind : n.kind = m.kind)
    (h : AlikeAll extra swap (p.cursor n).elements (p.cursor m).elements) :
    Alike extra swap (.ofRoot (p.fill n)) (.ofRoot (p.fill m)) := by
  induction p generalizing n m with
  | nil => exact ⟨hkind, h⟩
  | cons g outer ih =>
      refine ih rfl ?_
      rw [elements_fill, elements_fill]
      exact (AlikeAll.same _ _ _ _ _ _ g.before).append
        (.kept hkind h (AlikeAll.same _ _ _ _ _ _ g.behind))

/-- What may come, go or be exchanged without a change to any scope. -/
structure Harmless (extra : Element → Prop) (swap : Cursor → Cursor → Prop) : Prop where
  trivia : ∀ t, extra (.token t) → t.isTrivia = true
  attributeList : ∀ c, extra (.node c) → c.kind = .attributeList ∧
    ∃ p, c.parent? = some p ∧ p.kind.isTypeDeclaration = true
  shortenable : ∀ c d, swap c d → ∃ asAttribute, Shortenable c asAttribute

theorem Kind.not_container_of_isName {k : Kind} (h : k.isName = true) :
    k.isContainer = false := by
  cases k <;> first | rfl | cases h

/-- No node comes or goes but in a type declaration. -/
theorem Harmless.node?_eq_none {extra : Element → Prop} {swap : Cursor → Cursor → Prop}
    (hh : Harmless extra swap) {e : Element} {p : Cursor} (he : extra e)
    (hparent : e.parent? = some p) (hp : p.kind.isTypeDeclaration = false) : e.node? = none := by
  cases e with
  | token t => rfl
  | node c =>
      obtain ⟨-, p', hparent', hdeclaration⟩ := hh.attributeList c he
      have hsame : p = p' := Option.some.inj (hparent.symm.trans hparent')
      rw [← hsame, hp] at hdeclaration
      cases hdeclaration

/-- Two nodes that are related, each a child of one of two others. -/
structure Paired (related : Cursor → Cursor → Prop) (p q c d : Cursor) : Prop where
  old : c.parent? = some p
  new : d.parent? = some q
  related : related c d

theorem Kind.not_typeDeclaration_of_isName {k : Kind} (h : k.isName = true) :
    k.isTypeDeclaration = false := by
  cases k <;> first | rfl | cases h

theorem Paired.parentKind_ne {related : Cursor → Cursor → Prop} {p q c d : Cursor} {k : Kind}
    (h : Paired related p q c d) (hp : p.kind ≠ k) : c.parentKind? ≠ some k := by
  rw [Cursor.parentKind?, h.old, Option.map_some, ne_eq, Option.some.injEq]
  exact hp

/-- The kinds of nodes that a name is shortened in. -/
def Kind.holdsShortenable (k : Kind) : Bool :=
  k == .simpleBaseType || k == .attribute || k == .simpleMemberAccessExpression

theorem Kind.not_typeDeclaration_of_isContainer {k : Kind} (h : k.isContainer = true) :
    k.isTypeDeclaration = false := by
  cases k <;> first | rfl | cases h

theorem Kind.not_holdsShortenable_of_isTypeDeclaration {k : Kind}
    (h : k.isTypeDeclaration = true) : k.holdsShortenable = false := by
  cases k <;> first | rfl | cases h

theorem Kind.not_holdsShortenable_of_isContainer {k : Kind} (h : k.isContainer = true) :
    k.holdsShortenable = false := by
  cases k <;> first | rfl | cases h

theorem Simplify.Shortenable.holds {c p : Cursor} {asAttribute : Bool}
    (h : Shortenable c asAttribute) (hp : c.parent? = some p) :
    p.kind.holdsShortenable = true := by
  cases h with
  | baseType _ hparent hentry =>
      rw [hp] at hparent
      cases hparent
      rw [hentry]
      rfl
  | attributeName _ hparent hnamed =>
      rw [hp] at hparent
      cases hparent
      rw [hnamed]
      rfl
  | receiver _ _ hparent haccess _ _ =>
      rw [hp] at hparent
      cases hparent
      rw [haccess]
      rfl

namespace AlikeAll

variable {extra : Element → Prop} {swap : Cursor → Cursor → Prop} {old new : List Element}

theorem identifier_eq (hh : Harmless extra swap) (h : AlikeAll extra swap old new) :
    ((old.filterMap Element.token?).map (·.token)).find? (·.kind == .identifierToken) =
      ((new.filterMap Element.token?).map (·.token)).find? (·.kind == .identifierToken) := by
  have hextra : ∀ (e : Element) (es : List Element), extra e →
      (((e :: es).filterMap Element.token?).map (·.token)).find? (·.kind == .identifierToken) =
        ((es.filterMap Element.token?).map (·.token)).find? (·.kind == .identifierToken) := by
    intro e es he
    cases e with
    | node c => rfl
    | token t =>
        have htrivia : t.token.kind.isTrivia = true := hh.trivia t he
        have hne : (t.token.kind == .identifierToken) = false := by
          rw [beq_eq_false_iff_ne]
          intro hk
          rw [hk] at htrivia
          cases htrivia
        simp only [List.filterMap_cons, Element.token?, List.map_cons, List.find?_cons, hne]
  induction h with
  | nil => rfl
  | token h _ ih =>
      simp only [List.filterMap_cons, Element.token?, List.map_cons, List.find?_cons, h]
      split
      · rfl
      · exact ih
  | kept _ _ _ _ ih => exact ih
  | swapped _ _ ih => exact ih
  | dropped h _ ih => rw [hextra _ _ h, ih]
  | added h _ ih => rw [hextra _ _ h, ih]

theorem dotted?_eq (hh : Harmless extra swap) {c d : Cursor} (hkind : c.kind = d.kind)
    (h : AlikeAll extra swap c.elements d.elements)
    (hparts : c.kind.isName = true →
      c.childNodes.map (·.node.dotted?) = d.childNodes.map (·.node.dotted?)) :
    c.node.dotted? = d.node.dotted? := by
  have hmap : ∀ e : Cursor, Tree.dottedParts e.node.children =
      e.childNodes.map (·.node.dotted?) := by
    intro e
    rw [Tree.dottedParts_eq, ← e.map_node_childNodes, List.map_map]
    rfl
  cases hname : c.kind.isName with
  | true =>
      refine Node.dotted?_congr hkind ?_ ?_
      · have hidentifier := identifier_eq hh h
        rw [Tree.identifierIn?, Tree.identifierIn?, ← c.map_token_childTokens,
          ← d.map_token_childTokens]
        exact hidentifier
      · rw [hmap, hmap, hparts hname]
  | false =>
      have hname' : d.kind.isName = false := by rw [← hkind, hname]
      rw [Node.dotted?_eq_none hname, Node.dotted?_eq_none hname']

/-- The child nodes of two nodes correspond one to one if nothing that comes or goes there is a
node. -/
theorem pairs {p q : Cursor} (h : AlikeAll extra swap old new)
    (hold : ∀ e ∈ old, e.parent? = some p) (hnew : ∀ e ∈ new, e.parent? = some q)
    (hp : ∀ e, extra e → e.parent? = some p → e.node? = none)
    (hq : ∀ e, extra e → e.parent? = some q → e.node? = none) :
    List.Forall₂ (Paired (fun c d => Alike extra swap c d ∨ swap c d) p q)
      (old.filterMap Element.node?) (new.filterMap Element.node?) := by
  induction h with
  | nil => exact .nil
  | token _ _ ih =>
      rw [List.forall_mem_cons] at hold hnew
      exact ih hold.2 hnew.2
  | kept hkind under _ _ ih =>
      rw [List.forall_mem_cons] at hold hnew
      exact .cons ⟨hold.1, hnew.1, .inl ⟨hkind, under⟩⟩ (ih hold.2 hnew.2)
  | swapped h _ ih =>
      rw [List.forall_mem_cons] at hold hnew
      exact .cons ⟨hold.1, hnew.1, .inr h⟩ (ih hold.2 hnew.2)
  | dropped h _ ih =>
      rw [List.forall_mem_cons] at hold
      rw [List.filterMap_cons_none (hp _ h hold.1)]
      exact ih hold.2 hnew
  | added h _ ih =>
      rw [List.forall_mem_cons] at hnew
      rw [List.filterMap_cons_none (hq _ h hnew.1)]
      exact ih hold hnew.2

/-- The child nodes of a node that is no type declaration correspond one to one. -/
theorem nodes (hh : Harmless extra swap) {p q : Cursor} (h : AlikeAll extra swap old new)
    (hold : ∀ e ∈ old, e.parent? = some p) (hnew : ∀ e ∈ new, e.parent? = some q)
    (hp : p.kind.isTypeDeclaration = false) (hq : q.kind.isTypeDeclaration = false) :
    List.Forall₂ (Paired (fun c d => Alike extra swap c d ∨ swap c d) p q)
      (old.filterMap Element.node?) (new.filterMap Element.node?) :=
  h.pairs hold hnew (fun _ he hparent => hh.node?_eq_none he hparent hp)
    fun _ he hparent => hh.node?_eq_none he hparent hq

/-- The names in a name stay what they are. -/
theorem parts_eq (hh : Harmless extra swap) {p q : Cursor} (h : AlikeAll extra swap old new)
    (hold : ∀ e ∈ old, e.parent? = some p) (hnew : ∀ e ∈ new, e.parent? = some q)
    (hpq : p.kind = q.kind) (hk : p.kind.isName = true)
    (harg : p.parentKind? ≠ some .attributeArgument) :
    (old.filterMap Element.node?).map (·.node.dotted?) =
      (new.filterMap Element.node?).map (·.node.dotted?) := by
  have hp := Kind.not_typeDeclaration_of_isName hk
  induction h generalizing p q with
  | nil => rfl
  | token _ _ ih =>
      rw [List.forall_mem_cons] at hold hnew
      exact ih hold.2 hnew.2 hpq hk harg hp
  | @kept c d _ _ hkind under _ hunder ih =>
      rw [List.forall_mem_cons] at hold hnew
      have hsame : c.node.dotted? = d.node.dotted? := by
        refine dotted?_eq hh hkind under fun hname => ?_
        refine hunder c.parent?_of_mem_elements d.parent?_of_mem_elements hkind hname
          (fun harg' => ?_) (Kind.not_typeDeclaration_of_isName hname)
        have hparent : c.parent? = some p := hold.1
        rw [Cursor.parentKind?, hparent, Option.map_some, Option.some.injEq] at harg'
        rw [harg'] at hk
        cases hk
      have hrest := ih hold.2 hnew.2 hpq hk harg hp
      simp only [List.filterMap_cons, Element.node?, List.map_cons, hsame, hrest]
  | swapped h _ ih =>
      rw [List.forall_mem_cons] at hold hnew
      obtain ⟨asAttribute, hshortenable⟩ := hh.shortenable _ _ h
      exact absurd (hshortenable.parent_not_name hold.1 hk) harg
  | dropped h _ ih =>
      rw [List.forall_mem_cons] at hold
      rw [List.filterMap_cons_none (hh.node?_eq_none h hold.1 hp)]
      exact ih hold.2 hnew hpq hk harg hp
  | added h _ ih =>
      rw [List.forall_mem_cons] at hnew
      rw [List.filterMap_cons_none (hh.node?_eq_none h hnew.1 (hpq ▸ hp))]
      exact ih hold hnew.2 hpq hk harg hp

end AlikeAll

/-! ## Scopes -/

namespace Alike

variable {extra : Element → Prop} {swap : Cursor → Cursor → Prop} {c d : Cursor}

theorem dotted?_eq (hh : Harmless extra swap) (h : Alike extra swap c d)
    (harg : c.parentKind? ≠ some .attributeArgument) : c.node.dotted? = d.node.dotted? := by
  refine AlikeAll.dotted?_eq hh h.kind h.under fun hname => ?_
  exact h.under.parts_eq hh c.parent?_of_mem_elements d.parent?_of_mem_elements h.kind hname harg

/-- All child nodes are kept in a node that neither declares a type nor holds a name that may be
shortened. -/
theorem childNodes (hh : Harmless extra swap) (h : Alike extra swap c d)
    (hdeclaration : c.kind.isTypeDeclaration = false) (hholds : c.kind.holdsShortenable = false) :
    List.Forall₂ (Paired (Alike extra swap) c d) c.childNodes d.childNodes := by
  have hpairs := h.under.nodes hh c.parent?_of_mem_elements d.parent?_of_mem_elements hdeclaration
    (by rw [← h.kind, hdeclaration])
  refine hpairs.imp fun a b hab => ⟨hab.old, hab.new, ?_⟩
  rcases hab.related with halike | hswap
  · exact halike
  · obtain ⟨asAttribute, hshortenable⟩ := hh.shortenable a b hswap
    rw [hshortenable.holds hab.old] at hholds
    cases hholds

theorem importedName?_eq (hh : Harmless extra swap) (h : Alike extra swap c d)
    (hk : c.kind = .usingDirective) : c.node.importedName? = d.node.importedName? := by
  have hpairs := h.childNodes hh (by rw [hk]; rfl) (by rw [hk]; rfl)
  rw [Node.importedName?, Node.importedName?, Node.childNodes, Node.childNodes,
    ← c.map_node_childNodes, ← d.map_node_childNodes]
  generalize c.childNodes = children at hpairs
  generalize d.childNodes = children' at hpairs
  cases hpairs with
  | nil => rfl
  | cons hpair _ => exact hpair.related.dotted?_eq hh (hpair.parentKind_ne (by rw [hk]; simp))

/-- A node that is kept opens and imports what it did. -/
theorem sameScope (hh : Harmless extra swap) (h : Alike extra swap c d) :
    SameScope c.node d.node := by
  have hkind : c.node.kind = d.node.kind := h.kind
  cases hcontainer : c.node.kind.isContainer with
  | false => exact .of_not_container hcontainer (by rw [← hkind, hcontainer])
  | true =>
      have hpairs := h.childNodes hh (Kind.not_typeDeclaration_of_isContainer hcontainer)
        (Kind.not_holdsShortenable_of_isContainer hcontainer)
      refine .of_children hkind ?_
      rw [Node.childNodes, Node.childNodes, ← c.map_node_childNodes, ← d.map_node_childNodes,
        List.forall₂_map_left_iff, List.forall₂_map_right_iff]
      refine hpairs.imp fun a b hab =>
        ⟨hab.related.kind, ?_, hab.related.importedName?_eq hh⟩
      refine hab.related.dotted?_eq hh (hab.parentKind_ne ?_)
      rintro hk
      rw [← Cursor.kind, hk] at hcontainer
      cases hcontainer

end Alike

namespace AlikeAll

variable {extra : Element → Prop} {swap : Cursor → Cursor → Prop} {old new : List Element}

/-- The nodes around what is exchanged open and import what they did. -/
theorem inPlace (hh : Harmless extra swap) (h : AlikeAll extra swap old new) {p q : Cursor}
    (hold : ∀ e ∈ old, e.parent? = some p) (hnew : ∀ e ∈ new, e.parent? = some q)
    (hscope : List.Forall₂ SameScope p.scope q.scope) :
    AlikeAll extra (fun c d => swap c d ∧
      List.Forall₂ SameScope (c.above.map (·.node)) (d.above.map (·.node))) old new := by
  induction h generalizing p q with
  | nil => exact .nil
  | token h _ ih =>
      rw [List.forall_mem_cons] at hold hnew
      exact .token h (ih hold.2 hnew.2 hscope)
  | @kept c d _ _ hkind under _ hunder ih =>
      rw [List.forall_mem_cons] at hold hnew
      have hsame : SameScope c.node d.node := Alike.sameScope hh ⟨hkind, under⟩
      have habove : List.Forall₂ SameScope c.scope d.scope := by
        rw [Cursor.scope, Cursor.scope, Cursor.map_node_above hold.1, Cursor.map_node_above hnew.1]
        exact .cons hsame hscope
      exact .kept hkind (hunder c.parent?_of_mem_elements d.parent?_of_mem_elements habove)
        (ih hold.2 hnew.2 hscope)
  | swapped h _ ih =>
      rw [List.forall_mem_cons] at hold hnew
      refine .swapped ⟨h, ?_⟩ (ih hold.2 hnew.2 hscope)
      rw [Cursor.map_node_above hold.1, Cursor.map_node_above hnew.1]
      exact hscope
  | dropped h _ ih =>
      rw [List.forall_mem_cons] at hold
      exact .dropped h (ih hold.2 hnew hscope)
  | added h _ ih =>
      rw [List.forall_mem_cons] at hnew
      exact .added h (ih hold hnew.2 hscope)

end AlikeAll

end TreeLint
