import TreeLint.Proofs.AnnotationRuns
import TreeLint.Proofs.KeptDeclarations

/-!
# The first class among the declarations

The walk that looks for a class goes down through containers alone. What it visits are the nodes
with nothing but containers around them, in document order, so the class it finds is the first such
class in the list of all declarations of the tree. Whether a declaration is the one is decided by
its kind and the kinds of the nodes around it; a change to the tree that keeps these for each
declaration keeps the number that the class has in the list.
-/

namespace TreeLint

/-- The kinds of nodes that declare something: namespaces, types and methods. -/
def Kind.declares (k : Kind) : Bool :=
  k == .namespaceDeclaration || k.isTypeDeclaration || k == .methodDeclaration

/-- The declarations of a tree, in document order. -/
def Node.declarations (root : Node) : List Cursor :=
  Cursor.ofKinds Kind.declares (Cursor.ofRoot root).descendants

namespace Cursor

/-! ## What the walk visits -/

/-- A node hands a property on to its children if it is a container and has the property itself,
and no child has it otherwise. -/
def HandsOn (q : Cursor → Bool) (c : Cursor) : Prop :=
  ∀ index start k children, q (c.child index start k children) = (c.kind.isContainer && q c)

section HandedOn

variable {q : Cursor → Bool}

/-- Nothing under a node has the property that is no container itself, or does not have it. -/
theorem HandsOn.not_of_mem_nodesFrom {c e : Cursor} (index start : Nat) (trees : List Tree)
    (h : HandsOn q c) (hunder : ∀ d ∈ c.nodesFrom index start trees, HandsOn q d)
    (hc : (c.kind.isContainer && q c) = false) (he : e ∈ c.nodesFrom index start trees) :
    q e = false := by
  match trees with
  | [] => cases he
  | .token t :: rest =>
      rw [nodesFrom_token] at he hunder
      exact not_of_mem_nodesFrom _ _ rest h hunder hc he
  | .node k children :: rest =>
      have hchild : q (c.child index start k children) = false := (h ..).trans hc
      rw [nodesFrom_node, descendants_eq] at he hunder
      rw [List.forall_mem_append, List.forall_mem_cons] at hunder
      obtain ⟨⟨hfirst, hinner⟩, hrest⟩ := hunder
      rcases List.mem_append.1 he with he | he
      · rcases List.mem_cons.1 he with rfl | he
        · exact hchild
        · refine not_of_mem_nodesFrom _ _ children hfirst hinner ?_ he
          rw [hchild, Bool.and_false]
      · exact not_of_mem_nodesFrom _ _ rest h hrest hc he

theorem HandsOn.visitedFrom_eq {c : Cursor} (index start : Nat) (trees : List Tree)
    (h : HandsOn q c) (hunder : ∀ d ∈ c.nodesFrom index start trees, HandsOn q d)
    (hc : (c.kind.isContainer && q c) = true) :
    c.visitedFrom index start trees = (c.nodesFrom index start trees).filter q := by
  match trees with
  | [] => rfl
  | .token t :: rest =>
      rw [nodesFrom_token] at hunder
      rw [visitedFrom, visitedOf, nodesFrom_token, List.nil_append]
      exact visitedFrom_eq _ _ rest h hunder hc
  | .node k children :: rest =>
      have hchild : q (c.child index start k children) = true := (h ..).trans hc
      rw [nodesFrom_node, descendants_eq, List.forall_mem_append, List.forall_mem_cons] at hunder
      obtain ⟨⟨hfirst, hinner⟩, hrest⟩ := hunder
      have hbelow : (if k.isContainer then
            (c.child index start k children).visitedFrom 0 start children else []) =
          ((c.child index start k children).nodesFrom 0 start children).filter q := by
        split
        · next hk =>
            refine visitedFrom_eq _ _ children hfirst hinner ?_
            rw [hchild, Bool.and_true]
            exact hk
        · next hk =>
            refine (List.filter_eq_nil_iff.2 fun e he => Bool.eq_false_iff.1 ?_).symm
            refine not_of_mem_nodesFrom _ _ children hfirst hinner ?_ he
            rw [hchild, Bool.and_true]
            exact Bool.eq_false_iff.2 hk
      rw [visitedFrom, visitedOf, nodesFrom_node, descendants_eq, List.filter_append,
        List.filter_cons, if_pos hchild, hbelow,
        visitedFrom_eq (index + 1) (start + (Tree.node k children).width) rest h hrest hc]
      rfl

/-- A walk from a node visits what has a property there that is handed on. -/
theorem visited_eq_filter {c : Cursor} (h : ∀ d ∈ c.descendants, HandsOn q d) (hc : q c = true) :
    c.visited = c.descendants.filter q := by
  rw [descendants_eq, List.forall_mem_cons] at h
  rw [visited, descendants_eq, List.filter_cons, if_pos hc]
  split
  · next hk => rw [h.1.visitedFrom_eq _ _ _ h.2 (by rw [hc, Bool.and_true]; exact hk)]
  · next hk =>
      refine congrArg _ (List.filter_eq_nil_iff.2 fun e he => Bool.eq_false_iff.1 ?_).symm
      refine h.1.not_of_mem_nodesFrom _ _ _ h.2 ?_ he
      rw [hc, Bool.and_true]
      exact Bool.eq_false_iff.2 hk

end HandedOn

/-- Whether all the nodes around a node are containers. -/
def inContainers (c : Cursor) : Bool := c.above.all fun frame => frame.node.kind.isContainer

/-- The walk visits the nodes that only containers are around. -/
theorem visited_eq (root : Node) :
    (ofRoot root).visited = (ofRoot root).descendants.filter inContainers :=
  visited_eq_filter (fun _ _ _ _ _ _ => rfl) rfl

end Cursor

/-! ## The number of the first class -/

/-- Whether the walk stops at a declaration: a class that only containers are around. -/
def Cursor.isOuterClass (c : Cursor) : Bool := c.kind == .classDeclaration && c.inContainers

/-- The number among the declarations of a tree that its first class has. -/
def Node.firstClassNumber (root : Node) : Nat := root.declarations.findIdx Cursor.isOuterClass

theorem Document.firstClass?_eq (d : Document) :
    d.firstClass? = d.root.declarations[d.root.firstClassNumber]? := by
  rw [Node.firstClassNumber, ← List.find?_eq_getElem?_findIdx, Node.declarations, Cursor.ofKinds,
    List.find?_filter, firstClass?, Document.cursor, Cursor.visited_eq, List.find?_filter]
  refine congrArg (List.find? · _) (funext fun c => ?_)
  rw [Cursor.isOuterClass]
  cases hk : c.kind == .classDeclaration with
  | true =>
      have hdeclares : c.kind.declares = true := by
        rw [beq_iff_eq.1 hk]
        rfl
      rw [hdeclares]
      simp
  | false => simp

theorem Document.isOuterClass_of_firstClass? {d : Document} {c : Cursor}
    (h : d.firstClass? = some c) : c.isOuterClass = true := by
  rw [firstClass?_eq] at h
  obtain ⟨hbound, rfl⟩ := List.getElem?_eq_some_iff.1 h
  exact List.findIdx_getElem

end TreeLint
