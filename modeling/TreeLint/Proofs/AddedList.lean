import TreeLint.Proofs.DocumentOrder
import TreeLint.Proofs.GrownLists

/-!
# The class that gains a list

Adding an annotation is where one declaration is told from the others. The tree is split at the
place of the class: the nodes in front of it, the class with what is under it, and the nodes behind.
The nodes around the class are among those in front; they are other nodes when the class is, but
their attribute lists are the same, because the class is none. So in the list of all declarations
one entry changes, and its number is that of the first class, which no other declaration has.
-/

namespace TreeLint

/-! ## The tree around a class -/

namespace Cursor

theorem map_node_nodesFrom (c d : Cursor) (index start index' start' : Nat) (trees : List Tree) :
    (c.nodesFrom index start trees).map (·.node) =
      (d.nodesFrom index' start' trees).map (·.node) := by
  match trees with
  | [] => rfl
  | .token t :: rest =>
      rw [nodesFrom_token, nodesFrom_token]
      exact map_node_nodesFrom c d _ _ _ _ rest
  | .node k children :: rest =>
      have hunder := map_node_nodesFrom (c.child index start k children)
        (d.child index' start' k children) 0 start 0 start' children
      rw [nodesFrom_node, nodesFrom_node, List.map_append, List.map_append, descendants_eq,
        descendants_eq, List.map_cons, List.map_cons, map_node_nodesFrom c d _ _ _ _ rest]
      exact congrArg (_ :: · ++ _) hunder

/-- The kind of a node and the attribute lists among its children. -/
def listed (c : Cursor) : Kind × List Node := (c.kind, c.attributeLists.map (·.node))

theorem listed_eq (c : Cursor) : c.listed =
    (c.kind, (c.node.children.filterMap Tree.node?).filter fun n => n.kind == .attributeList) := by
  rw [listed, attributeLists, childrenOfKind, ← map_node_childNodes, List.filter_map]
  rfl

/-- What depends on the nodes alone is the same of the same nodes, wherever they stand. -/
theorem map_congr_of_node {β : Type} {f : Cursor → β} (hf : ∀ c, f c = f (ofRoot c.node))
    {old new : List Cursor} (h : old.map (·.node) = new.map (·.node)) : old.map f = new.map f := by
  have hmap : ∀ cursors : List Cursor,
      cursors.map f = (cursors.map (·.node)).map fun n => f (ofRoot n) := by
    intro cursors
    rw [List.map_map]
    exact List.map_congr_left fun c _ => hf c
  rw [hmap, hmap, h]

theorem listed_eq_ofRoot (c : Cursor) : c.listed = (ofRoot c.node).listed :=
  c.listed_eq.trans (listed_eq (.ofRoot c.node)).symm

theorem map_listed_nodesFrom (c d : Cursor) (index start index' start' : Nat)
    (trees : List Tree) :
    (c.nodesFrom index start trees).map listed = (d.nodesFrom index' start' trees).map listed :=
  map_congr_of_node listed_eq_ofRoot (c.map_node_nodesFrom d _ _ _ _ trees)

theorem ofKinds_append (p : Kind → Bool) (front back : List Cursor) :
    ofKinds p (front ++ back) = ofKinds p front ++ ofKinds p back := List.filter_append front back

theorem map_listed_ofKinds (p : Kind → Bool) (cursors : List Cursor) :
    (ofKinds p cursors).map listed = (cursors.map listed).filter fun l => p l.1 := by
  rw [ofKinds, List.filter_map]
  rfl

end Cursor

open Cursor (listed)

namespace Place

theorem inContainers_cursor (p : Place) (n : Node) :
    (p.cursor n).inContainers = p.all fun g => g.kind.isContainer := by
  induction p generalizing n with
  | nil => rfl
  | cons g outer ih =>
      rw [List.all_cons, ← ih (g.fill n)]
      rfl

/-- A node around a gap has the same attribute lists if what fills the gap is none. -/
theorem listed_fill (p : Place) (g : Gap) {n m : Node} (hkind : n.kind = m.kind)
    (hlist : n.kind ≠ .attributeList) :
    (p.cursor (g.fill n)).listed = (p.cursor (g.fill m)).listed := by
  have hn : (n.kind == .attributeList) = false := beq_eq_false_iff_ne.2 hlist
  have hm : (m.kind == .attributeList) = false := hkind ▸ hn
  rw [Cursor.listed_eq, Cursor.listed_eq]
  simp only [cursor, Gap.fill, Node.toTree, List.filterMap_append, List.filterMap_cons,
    Tree.node?, List.filter_append, List.filter_cons, hn, hm]
  rfl

theorem map_listed_nodesInFront (p : Place) (hp : (p.all fun g => g.kind.isContainer) = true)
    {n m : Node} (hkind : n.kind = m.kind) (hlist : n.kind ≠ .attributeList) :
    (p.nodesInFront n).map listed = (p.nodesInFront m).map listed := by
  induction p generalizing n m with
  | nil => rfl
  | cons g outer ih =>
      rw [List.all_cons, Bool.and_eq_true] at hp
      have hgap : (g.fill n).kind ≠ .attributeList := by
        intro hg
        have hcontainer : (g.fill n).kind.isContainer = true := hp.1
        rw [hg] at hcontainer
        cases hcontainer
      have houter := ih hp.2 (n := g.fill n) (m := g.fill m) rfl hgap
      have hbefore := (cursor outer (g.fill n)).map_listed_nodesFrom (cursor outer (g.fill m)) 0
        (start outer) 0 (start outer) g.before
      rw [nodesInFront, nodesInFront, List.map_append, List.map_append, List.map_cons,
        List.map_cons, houter, hbefore, listed_fill outer g hkind hlist]

theorem map_node_nodesBehind (p : Place) (n m : Node) :
    (p.nodesBehind n).map (·.node) = (p.nodesBehind m).map (·.node) := by
  induction p generalizing n m with
  | nil => rfl
  | cons g outer ih =>
      have hbehind := fun c d i j => Cursor.map_node_nodesFrom c d i j (g.before.length + 1)
        (start outer + Tree.widthAll g.before + m.width) g.behind
      rw [nodesBehind, nodesBehind, List.map_append, List.map_append, ih (g.fill n) (g.fill m),
        hbehind]

end Place

/-! ## The class that gains a list -/

theorem AttributeTarget.not_declares_annotation (target : AttributeTarget) {c : Cursor}
    (hc : c.node = target.annotation) : ∀ e ∈ c.descendants, e.kind.declares = false := by
  have hnodes : c.descendants.map (·.node) =
      (Cursor.ofRoot target.annotation).descendants.map (·.node) := by
    rw [Cursor.descendants_eq, Cursor.descendants_eq, List.map_cons, List.map_cons, hc,
      c.map_node_nodesFrom (.ofRoot target.annotation) 0 c.start 0 0]
    rfl
  have hnone : ((Cursor.ofRoot target.annotation).descendants.map (·.node)).all
      (fun n => !n.kind.declares) = true := by
    rw [target.annotation_eq]
    rfl
  intro e he
  rw [← hnodes, List.all_map, List.all_eq_true] at hnone
  rw [← Bool.not_eq_true']
  exact hnone e he

theorem spares_annotating (target : AttributeTarget) :
    Spares Kind.declares (Annotating target) (fun _ _ => False) where
  extra := fun c h => by
    obtain ⟨d, p, hd, hnode, -⟩ := h
    cases hd
    exact target.not_declares_annotation hnode
  old := fun _ _ h => h.elim
  new := fun _ _ h => h.elim

/-- The number of the first class tells how many declarations stand in front of it. -/
theorem Node.firstClassNumber_eq {root : Node} {c : Cursor} {front back : List Cursor}
    (hsplit : root.declarations = front ++ c :: back)
    (hfirst : root.declarations[root.firstClassNumber]? = some c) :
    root.firstClassNumber = front.length := by
  have hnodup : root.declarations.Nodup :=
    List.Pairwise.filter _ (Cursor.ofRoot root).nodup_descendants
  obtain ⟨hbound, -⟩ := List.getElem?_eq_some_iff.1 hfirst
  refine (List.getElem?_inj hbound hnodup).1 (hfirst.trans ?_)
  rw [hsplit, List.getElem?_append_right (Nat.le_refl _), Nat.sub_self]
  rfl

namespace Place

open Cursor (ofKinds)

theorem declarations_fill (p : Place) {n : Node} (hk : n.kind.declares = true) :
    (p.fill n).declarations = ofKinds Kind.declares (p.nodesInFront n) ++
      p.cursor n :: (ofKinds Kind.declares ((p.cursor n).nodesFrom 0 p.start n.children) ++
        ofKinds Kind.declares (p.nodesBehind n)) := by
  have hk : (p.cursor n).kind.declares = true := hk
  rw [Node.declarations, descendants_fill, Cursor.descendants_eq]
  simp only [ofKinds, List.filter_append, List.filter_cons, hk, List.append_assoc]
  rfl

/-- A class with one more attribute list behind those it has lists it last. -/
theorem listed_annotated (p : Place) (target : AttributeTarget) {before after : List Tree}
    (hbehind : BehindLists before after) :
    (p.cursor ⟨.classDeclaration, before ++ target.annotation.toTree :: after⟩).listed =
      (.classDeclaration, (p.cursor ⟨.classDeclaration, before ++ after⟩).listed.2 ++
        [target.annotation]) := by
  have hafter : (after.filterMap Tree.node?).filter (fun n => n.kind == .attributeList) = [] := by
    refine List.filter_eq_nil_iff.2 fun n hn => ?_
    obtain ⟨t, ht, hnode⟩ := List.mem_filterMap.1 hn
    cases t with
    | token t => cases hnode
    | node k children =>
        cases hnode
        rw [beq_iff_eq]
        exact hbehind.none_after _ ht
  have hlist : target.annotation.kind = .attributeList := rfl
  rw [Cursor.listed_eq, Cursor.listed_eq]
  simp only [cursor, Node.toTree, List.filterMap_append, List.filterMap_cons, Tree.node?,
    List.filter_append, List.filter_cons, hafter, hlist, List.append_nil]
  rfl

theorem modify_append_cons {α : Type} (front : List α) (x : α) (back : List α) (f : α → α) :
    (front ++ x :: back).modify front.length f = front ++ f x :: back :=
  List.modifyTailIdx_add (List.modifyHead f) 0 front (x :: back)

/-- Among the declarations of a tree, only the entry of the class changes. -/
theorem map_listed_annotated (p : Place) (hp : (p.all fun g => g.kind.isContainer) = true)
    (target : AttributeTarget) {before after : List Tree} (hbehind : BehindLists before after) :
    (p.fill ⟨.classDeclaration, before ++ target.annotation.toTree :: after⟩).declarations.map
        listed =
      ((p.fill ⟨.classDeclaration, before ++ after⟩).declarations.map listed).modify
        (ofKinds Kind.declares
          (p.nodesInFront ⟨.classDeclaration, before ++ after⟩)).length
        fun l => (l.1, l.2 ++ [target.annotation]) := by
  have hfront := p.map_listed_nodesInFront hp
    (n := ⟨.classDeclaration, before ++ target.annotation.toTree :: after⟩)
    (m := ⟨.classDeclaration, before ++ after⟩) rfl (by simp)
  have hback := Cursor.map_congr_of_node Cursor.listed_eq_ofRoot (p.map_node_nodesBehind
    ⟨.classDeclaration, before ++ target.annotation.toTree :: after⟩
    ⟨.classDeclaration, before ++ after⟩)
  have hnone : ∀ c : Cursor, c.node = target.annotation →
      ofKinds Kind.declares c.descendants = [] := fun c hc =>
    List.filter_eq_nil_iff.2 fun e he =>
      Bool.eq_false_iff.1 (target.not_declares_annotation hc e he)
  -- what is under the class are the same declarations as before, since the annotation has none
  have hunder : ∀ (c d : Cursor) (start : Nat),
      (ofKinds Kind.declares
        (c.nodesFrom 0 start (before ++ target.annotation.toTree :: after))).map listed =
      (ofKinds Kind.declares (d.nodesFrom 0 start (before ++ after))).map listed := by
    intro c d start
    have hbefore := c.map_listed_nodesFrom d 0 start 0 start before
    have hafter := fun i j => c.map_listed_nodesFrom d i j (0 + before.length)
      (start + Tree.widthAll before) after
    rw [Node.toTree, Cursor.nodesFrom_append, Cursor.nodesFrom_append, Cursor.nodesFrom_node,
      Cursor.ofKinds_append, Cursor.ofKinds_append, Cursor.ofKinds_append, hnone _ rfl,
      List.nil_append, List.map_append, List.map_append]
    simp only [Cursor.map_listed_ofKinds, hbefore, hafter]
  rw [declarations_fill _ rfl, declarations_fill _ rfl]
  simp only [List.map_append, List.map_cons]
  rw [hunder _ (p.cursor ⟨.classDeclaration, before ++ after⟩), listed_annotated p target hbehind]
  simp only [Cursor.map_listed_ofKinds, hfront, hback]
  rw [← Cursor.map_listed_ofKinds, ← List.length_map listed, modify_append_cons]
  rfl

end Place

/-- Adding an annotation to the first class: it has one more, and all else is as it was. -/
theorem Eligible.continuedAt_annotatedRoot {e : Eligible} (table : SymbolTable)
    (target : AttributeTarget) (hstands : e.declaration.Stands e.document.root)
    (hfirst : e.document.firstClass? = some e.declaration) :
    ContinuedAt table target e.document.root.firstClassNumber 1 e.document.root.declarations
      (e.annotatedRoot target).declarations := by
  have houter := Document.isOuterClass_of_firstClass? hfirst
  rw [Cursor.isOuterClass, Bool.and_eq_true, beq_iff_eq] at houter
  obtain ⟨around, before, after, hclass, hroot, hbehind, hannotated⟩ :=
    exists_annotatedRoot target hstands houter.1
  have hcontainers := houter.2
  rw [hclass, Place.inContainers_cursor] at hcontainers
  rw [Document.firstClass?_eq, hroot, hclass] at hfirst
  have hsplit := around.declarations_fill (n := ⟨.classDeclaration, before ++ after⟩) rfl
  have hnumber := Node.firstClassNumber_eq hsplit hfirst
  have hlisted := around.map_listed_annotated hcontainers target hbehind
  have hkept := (around.alike_annotated target before after).declarations
    (keepsDeclarations_annotating table target) (spares_annotating target)
  rw [← hnumber] at hlisted
  rw [hroot, hannotated]
  generalize (around.fill ⟨.classDeclaration, before ++ after⟩).firstClassNumber = place at hlisted
  intro number
  have hcd := forall₂_getElem? hkept number
  have hentry := congrArg (fun entries => entries[number]?) hlisted
  simp only [List.getElem?_modify, List.getElem?_map] at hentry
  generalize (around.fill ⟨.classDeclaration, before ++ after⟩).declarations[number]? = old
    at hcd hentry
  generalize (around.fill ⟨.classDeclaration,
    before ++ target.annotation.toTree :: after⟩).declarations[number]? = new at hcd hentry
  cases hcd with
  | none => exact .none
  | @some c d hkept =>
      refine .some ⟨hkept.recognised (keepsDeclarations_annotating table target), .of_nodes ?_⟩
      have hnodes : d.listed.2 = (if place = number then (c.listed.1,
          c.listed.2 ++ [target.annotation]) else c.listed).2 :=
        congrArg Prod.snd (Option.some.inj hentry)
      by_cases hplace : place = number
      · rw [if_pos hplace] at hnodes
        rw [if_pos hplace.symm]
        exact hnodes
      · rw [if_neg hplace] at hnodes
        rw [if_neg (Ne.symm hplace), List.replicate_zero, List.append_nil]
        exact hnodes

end TreeLint
