import TreeLint.Proofs.AddedList

/-!
# One attribute list more

An annotated document has one attribute list more than before, counted over the whole tree. Putting
the annotation in at the place of a class leaves all other nodes of the tree with their kinds, and
the annotation holds one attribute list, itself. Layout and shortening keep the number: layout puts
in and leaves out nothing but trivia, and shortening exchanges names, in which there is no attribute
list as long as names hold nothing but names.
-/

namespace TreeLint

/-- The attribute lists of a tree, in document order. -/
def Node.attributeLists (root : Node) : List Cursor :=
  Cursor.ofKinds (· == .attributeList) (Cursor.ofRoot root).descendants

namespace Cursor

theorem map_kind_nodesFrom (c d : Cursor) (index start index' start' : Nat) (trees : List Tree) :
    (c.nodesFrom index start trees).map kind = (d.nodesFrom index' start' trees).map kind :=
  map_congr_of_node (fun _ => rfl) (c.map_node_nodesFrom d _ _ _ _ trees)

theorem map_kind_descendants {c d : Cursor} (h : c.node = d.node) :
    c.descendants.map kind = d.descendants.map kind := by
  rw [descendants_eq, descendants_eq, List.map_cons, List.map_cons, kind, kind, h,
    c.map_kind_nodesFrom d 0 c.start 0 d.start]

theorem length_ofKinds (p : Kind → Bool) (cursors : List Cursor) :
    (ofKinds p cursors).length = (cursors.map kind).countP p := by
  rw [List.countP_map, List.countP_eq_length_filter]
  rfl

end Cursor

open Cursor (ofKinds)

/-! ## Adding a list -/

namespace Place

/-- The nodes around a place and those in front of it have the same kinds whatever stands there. -/
theorem map_kind_nodesInFront (p : Place) (n m : Node) :
    (p.nodesInFront n).map Cursor.kind = (p.nodesInFront m).map Cursor.kind := by
  induction p generalizing n m with
  | nil => rfl
  | cons g outer ih =>
      have hbefore := (cursor outer (g.fill n)).map_kind_nodesFrom (cursor outer (g.fill m)) 0
        (start outer) 0 (start outer) g.before
      rw [nodesInFront, nodesInFront, List.map_append, List.map_append, List.map_cons,
        List.map_cons, ih (g.fill n) (g.fill m), hbefore]
      rfl

theorem map_kind_nodesBehind (p : Place) (n m : Node) :
    (p.nodesBehind n).map Cursor.kind = (p.nodesBehind m).map Cursor.kind :=
  Cursor.map_congr_of_node (fun _ => rfl) (p.map_node_nodesBehind n m)

/-- The nodes of some kinds in a tree are those at and under a place and as many as there are
anyway. -/
theorem length_ofKinds_fill (kinds : Kind → Bool) (p : Place) (n m : Node) :
    (ofKinds kinds (Cursor.ofRoot (p.fill n)).descendants).length +
        (ofKinds kinds (p.cursor m).descendants).length =
      (ofKinds kinds (Cursor.ofRoot (p.fill m)).descendants).length +
        (ofKinds kinds (p.cursor n).descendants).length := by
  simp only [descendants_fill, Cursor.length_ofKinds, List.map_append, List.countP_append,
    p.map_kind_nodesInFront n m, p.map_kind_nodesBehind n m]
  omega

end Place

theorem AttributeTarget.length_attributeLists_annotation (target : AttributeTarget) :
    target.annotation.attributeLists.length = 1 := by
  rw [annotation_eq]
  rfl

/-- The nodes of some kinds in a node that has one child more are those it had anyway and those in
the child. -/
theorem Cursor.length_ofKinds_child (kinds : Kind → Bool) {c d : Cursor} {k : Kind}
    {before after : List Tree} {n : Node} (hc : c.node = ⟨k, before ++ after⟩)
    (hd : d.node = ⟨k, before ++ n.toTree :: after⟩) :
    (ofKinds kinds d.descendants).length =
      (ofKinds kinds c.descendants).length +
        (ofKinds kinds (Cursor.ofRoot n).descendants).length := by
  have hold : c.descendants = c :: (c.nodesFrom 0 c.start before ++
      c.nodesFrom (0 + before.length) (c.start + Tree.widthAll before) after) := by
    rw [descendants_eq, hc, nodesFrom_append]
  let child := d.child (0 + before.length) (d.start + Tree.widthAll before) n.kind n.children
  have hnew : d.descendants = d :: (d.nodesFrom 0 d.start before ++ (child.descendants ++
      d.nodesFrom (0 + before.length + 1)
        (d.start + Tree.widthAll before + Tree.widthAll n.children) after)) := by
    rw [descendants_eq, hd, nodesFrom_append, Node.toTree, nodesFrom_node]
  have hchild : child.descendants.map kind = (ofRoot n).descendants.map kind :=
    map_kind_descendants rfl
  have hkind : d.kind = c.kind := by rw [kind, kind, hc, hd]
  rw [hold, hnew]
  simp only [length_ofKinds, List.map_cons, List.map_append, List.countP_cons, List.countP_append,
    hkind, hchild, d.map_kind_nodesFrom c 0 d.start 0 c.start before,
    d.map_kind_nodesFrom c _ _ (0 + before.length) (c.start + Tree.widthAll before) after]
  omega

namespace Eligible

theorem length_attributeLists_annotatedRoot {e : Eligible} (target : AttributeTarget)
    (hstands : e.declaration.Stands e.document.root)
    (hk : e.declaration.kind = .classDeclaration) :
    (e.annotatedRoot target).attributeLists.length =
      e.document.root.attributeLists.length + 1 := by
  obtain ⟨around, before, after, -, hroot, -, hannotated⟩ :=
    exists_annotatedRoot target hstands hk
  have htree := around.length_ofKinds_fill (· == .attributeList)
    ⟨.classDeclaration, before ++ target.annotation.toTree :: after⟩
    ⟨.classDeclaration, before ++ after⟩
  have hclass := Cursor.length_ofKinds_child (· == .attributeList)
    (c := around.cursor ⟨.classDeclaration, before ++ after⟩)
    (d := around.cursor ⟨.classDeclaration, before ++ target.annotation.toTree :: after⟩)
    (n := target.annotation) rfl rfl
  have hone := target.length_attributeLists_annotation
  rw [hroot, hannotated]
  unfold Node.attributeLists at hone ⊢
  omega

end Eligible

/-! ## Layout and shortening -/

theorem DifferInStyle.length_attributeLists {table : SymbolTable} {root root' : Node}
    (h : DifferInStyle table (.ofRoot root) (.ofRoot root')) :
    root.attributeLists.length = root'.attributeLists.length := by
  have hname : ∀ k : Kind, k.isName = true → (k == .attributeList) = false := by
    intro k hk
    cases k <;> first | rfl | cases hk
  have hkept : List.Forall₂ (KeptAs (· == .attributeList) (fun _ _ => True)
      (fun e => e.isTrivia = true) (Abbreviated table)) root.attributeLists root'.attributeLists :=
    h.keptAs (spares_restyling table hname) fun _ _ _ => trivial
  exact hkept.length_eq

/-! ## The annotated document -/

namespace Eligible

variable {e : Eligible} {options : AnalyzerOptions}

/-- An annotated document has one attribute list more, if its names hold nothing but names or are
not shortened. -/
theorem length_attributeLists_outcome
    (hs : options.simplify = true → e.document.root.nameShaped = true)
    (hstands : e.declaration.Stands e.document.root)
    (hk : e.declaration.kind = .classDeclaration) :
    (e.outcome options).root.attributeLists.length = e.document.root.attributeLists.length + 1 := by
  rw [← e.length_attributeLists_annotatedRoot options.attributeUsage.target hstands hk,
    (options.formatting.differInStyle_format e.document.compilation.table
      (e.annotatedRoot options.attributeUsage.target)).length_attributeLists, root_outcome]
  split
  · next hsimplify =>
      have hlaidOut := nameShaped_laidOut options (hs hsimplify) hstands hk
      exact (Simplify.differInStyle_simplifyRoot e.document.compilation.table
        hlaidOut).length_attributeLists.symm
  · rfl

end Eligible

end TreeLint
