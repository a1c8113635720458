import TreeLint.Proofs.Place

/-!
# Well-shaped names, and finding them by span

A tree is name-shaped if its names look the way they are built, trivia aside: an identifier name is
one identifier, and a qualified name or member access is two nodes with a dot between them. The
shape of a node's children is all this depends on: which tokens there are, and where a node stands.
So a node may be put in the place of another without asking what is in it.

The dot is what makes search by span safe. A qualified name or member access is wider than anything
under it by at least its dot, and two nodes neither of which is under the other do not overlap, so
no two such nodes of one kind have the same span.
-/

namespace TreeLint

namespace Tree

/-- The shape of some children: the tokens that are no trivia, and nothing more of a node than that
it is one. -/
def shape : List Tree → List (Option Token)
  | [] => []
  | .token t :: rest => if t.kind.isTrivia then shape rest else some t :: shape rest
  | .node _ _ :: rest => none :: shape rest

end Tree

/-- The kinds of names that are made of two names. -/
def Kind.isPair (k : Kind) : Bool := k == .qualifiedName || k == .simpleMemberAccessExpression

/-- Whether the children of a node of a kind may have a shape. -/
def Kind.fits (k : Kind) (shape : List (Option Token)) : Bool :=
  if k = .identifierName then
    match shape with
    | [some t] => t.kind == .identifierToken
    | _ => false
  else if k.isPair then shape == [none, some (.fixed .dotToken), none]
  else true

namespace Tree

mutual

/-- Whether the names of a tree look the way they are built, trivia aside. -/
def nameShaped : Tree → Bool
  | .token _ => true
  | .node k children => k.fits (shape children) && nameShapedAll children

def nameShapedAll : List Tree → Bool
  | [] => true
  | t :: rest => t.nameShaped && nameShapedAll rest

end

end Tree

/-- Whether the names of a node look the way they are built, trivia aside. -/
def Node.nameShaped (n : Node) : Bool := n.toTree.nameShaped

theorem Node.nameShaped_iff (n : Node) : n.nameShaped = true ↔
    n.kind.fits (Tree.shape n.children) = true ∧ Tree.nameShapedAll n.children = true := by
  rw [Node.nameShaped, Node.toTree, Tree.nameShaped, Bool.and_eq_true]

namespace Tree

theorem nameShapedAll_append (front back : List Tree) :
    nameShapedAll (front ++ back) = (nameShapedAll front && nameShapedAll back) := by
  induction front with
  | nil => rfl
  | cons t rest ih => rw [List.cons_append, nameShapedAll, nameShapedAll, ih, Bool.and_assoc]

theorem shape_append (front back : List Tree) :
    shape (front ++ back) = shape front ++ shape back := by
  induction front with
  | nil => rfl
  | cons t rest ih =>
      cases t with
      | token t =>
          rw [List.cons_append, shape, shape, ih]
          split <;> rfl
      | node k children => rw [List.cons_append, shape, shape, ih, List.cons_append]

theorem token_mem_of_shape {t : Token} {trees : List Tree} (h : some t ∈ shape trees) :
    Tree.token t ∈ trees := by
  induction trees with
  | nil => cases h
  | cons first rest ih =>
      cases first with
      | token first =>
          rw [shape] at h
          split at h
          · exact List.mem_cons_of_mem _ (ih h)
          · rcases List.mem_cons.1 h with h | h
            · rw [Option.some.inj h]
              exact List.mem_cons_self
            · exact List.mem_cons_of_mem _ (ih h)
      | node k children =>
          rw [shape] at h
          rcases List.mem_cons.1 h with h | h
          · cases h
          · exact List.mem_cons_of_mem _ (ih h)

end Tree

/-! ## Exchanging a node at a place -/

theorem Gap.nameShaped_fill_iff (g : Gap) (n : Node) : (g.fill n).nameShaped = true ↔
    (g.kind.fits (Tree.shape g.before ++ none :: Tree.shape g.behind) = true ∧
      Tree.nameShapedAll g.before = true ∧ Tree.nameShapedAll g.behind = true) ∧
        n.nameShaped = true := by
  rw [Node.nameShaped_iff, Gap.fill, Tree.shape_append, Tree.nameShapedAll_append, Node.toTree,
    Tree.shape, Tree.nameShapedAll, Node.nameShaped, Node.toTree]
  simp only [Bool.and_eq_true]
  constructor
  · rintro ⟨hfits, hbefore, hn, hbehind⟩
    exact ⟨⟨hfits, hbefore, hbehind⟩, hn⟩
  · rintro ⟨⟨hfits, hbefore, hbehind⟩, hn⟩
    exact ⟨hfits, hbefore, hn, hbehind⟩

/-- A name-shaped tree stays so when a node is exchanged for another name-shaped one. -/
theorem Place.nameShaped_fill (p : Place) (n : Node) (h : (p.fill n).nameShaped = true) :
    n.nameShaped = true ∧ ∀ m : Node, m.nameShaped = true → (p.fill m).nameShaped = true := by
  induction p generalizing n with
  | nil => exact ⟨h, fun m hm => hm⟩
  | cons g outer ih =>
      obtain ⟨hgap, houter⟩ := ih (g.fill n) h
      rw [Gap.nameShaped_fill_iff] at hgap
      refine ⟨hgap.2, fun m hm => houter (g.fill m) ?_⟩
      rw [Gap.nameShaped_fill_iff]
      exact ⟨hgap.1, hm⟩

/-! ## Widths and spans -/

namespace Cursor

theorem bounds_of_mem_nodesFrom {c d : Cursor} {index start : Nat} {trees : List Tree}
    (h : d ∈ c.nodesFrom index start trees) :
    start ≤ d.start ∧ d.start + d.node.width ≤ start + Tree.widthAll trees := by
  match trees with
  | [] => simp at h
  | .token t :: rest =>
      rw [nodesFrom_token] at h
      have hrest := bounds_of_mem_nodesFrom h
      rw [Tree.widthAll, Tree.width]
      omega
  | .node k children :: rest =>
      rw [nodesFrom_node, List.mem_append, descendants_eq, List.mem_cons] at h
      rw [Tree.widthAll, Tree.width]
      rcases h with (rfl | h) | h
      · simp only [child, Node.width]
        omega
      · have h : d ∈ (c.child index start k children).nodesFrom 0 start children := h
        have hunder := bounds_of_mem_nodesFrom h
        omega
      · have hrest := bounds_of_mem_nodesFrom h
        omega

/-- A node under some children is at most as wide as they are without one of their tokens. -/
theorem width_add_le {c d : Cursor} {index start : Nat} {trees : List Tree} {t : Token}
    (h : d ∈ c.nodesFrom index start trees) (ht : Tree.token t ∈ trees) :
    d.node.width + t.width ≤ Tree.widthAll trees := by
  obtain ⟨front, back, rfl⟩ := List.append_of_mem ht
  rw [nodesFrom_append, nodesFrom_token, List.mem_append] at h
  rw [Tree.widthAll_append, Tree.widthAll, Tree.width]
  rcases h with h | h
  · have hfront := bounds_of_mem_nodesFrom h
    omega
  · have hback := bounds_of_mem_nodesFrom h
    omega

end Cursor

theorem Kind.fits_pair {k : Kind} {shape : List (Option Token)} (hk : k.isPair = true)
    (h : k.fits shape = true) : shape = [none, some (.fixed .dotToken), none] := by
  have hne : k ≠ .identifierName := by
    rintro rfl
    cases hk
  unfold Kind.fits at h
  rwa [if_neg hne, if_pos hk, beq_iff_eq] at h

theorem Node.dot_mem {n : Node} (hk : n.kind.isPair = true) (h : n.nameShaped = true) :
    Tree.token (.fixed .dotToken) ∈ n.children := by
  refine Tree.token_mem_of_shape ?_
  rw [Kind.fits_pair hk ((Node.nameShaped_iff n).1 h).1]
  simp

theorem Token.width_dot : (Token.fixed .dotToken).width = 1 := by decide

theorem Node.width_pos {n : Node} (hk : n.kind.isPair = true) (h : n.nameShaped = true) :
    0 < n.width := by
  obtain ⟨front, back, hsplit⟩ := List.append_of_mem (Node.dot_mem hk h)
  rw [Node.width, hsplit, Tree.widthAll_append, Tree.widthAll, Tree.width, Token.width_dot]
  omega

namespace Cursor

/-- A name of two names is wider than what is under it. -/
theorem width_lt_of_under {c d : Cursor} (hk : c.kind.isPair = true)
    (h : c.node.nameShaped = true) (hd : d ∈ c.nodesFrom 0 c.start c.node.children) :
    d.node.width < c.node.width := by
  have hle := width_add_le hd (Node.dot_mem hk h)
  rw [Token.width_dot] at hle
  rw [Node.width, Node.width] at *
  omega

theorem node_nameShaped_of_mem {c d : Cursor} {index start : Nat} {trees : List Tree}
    (hs : Tree.nameShapedAll trees = true) (h : d ∈ c.nodesFrom index start trees) :
    d.node.nameShaped = true := by
  match trees with
  | [] => simp at h
  | .token t :: rest =>
      rw [nodesFrom_token] at h
      rw [Tree.nameShapedAll, Bool.and_eq_true] at hs
      exact node_nameShaped_of_mem hs.2 h
  | .node k children :: rest =>
      rw [nodesFrom_node, List.mem_append, descendants_eq, List.mem_cons] at h
      rw [Tree.nameShapedAll, Tree.nameShaped, Bool.and_eq_true, Bool.and_eq_true] at hs
      rcases h with (rfl | h) | h
      · rw [Node.nameShaped_iff]
        exact hs.1
      · have h : d ∈ (c.child index start k children).nodesFrom 0 start children := h
        exact node_nameShaped_of_mem hs.1.2 h
      · exact node_nameShaped_of_mem hs.2 h

/-- Whether two nodes are names of two names, of one kind and with one span. -/
def SameSpan (d e : Cursor) : Prop :=
  d.kind.isPair = true ∧ d.kind = e.kind ∧ d.fullSpan = e.fullSpan

theorem SameSpan.symm {d e : Cursor} (h : SameSpan d e) : SameSpan e d :=
  ⟨h.2.1 ▸ h.1, h.2.1.symm, h.2.2.symm⟩

theorem SameSpan.start_eq {d e : Cursor} (h : SameSpan d e) : d.start = e.start :=
  congrArg Span.start h.2.2

theorem SameSpan.width_eq {d e : Cursor} (h : SameSpan d e) : d.node.width = e.node.width :=
  congrArg Span.length h.2.2

theorem eq_of_sameSpan {c d e : Cursor} (hs : c.node.nameShaped = true)
    (hd : d ∈ c.descendants) (he : e ∈ c.descendants) (h : SameSpan d e)
    (hunder : d ∈ c.nodesFrom 0 c.start c.node.children →
      e ∈ c.nodesFrom 0 c.start c.node.children → d = e) : d = e := by
  rw [descendants_eq, List.mem_cons] at hd he
  rcases hd with rfl | hd <;> rcases he with rfl | he
  · rfl
  · have hlt := width_lt_of_under h.1 hs he
    have heq := h.width_eq
    omega
  · have hlt := width_lt_of_under h.symm.1 hs hd
    have heq := h.width_eq
    omega
  · exact hunder hd he

theorem bounds_of_mem_descendants {c d : Cursor} (h : d ∈ c.descendants) :
    c.start ≤ d.start ∧ d.start + d.node.width ≤ c.start + c.node.width := by
  rw [descendants_eq, List.mem_cons] at h
  rcases h with rfl | h
  · exact ⟨Nat.le_refl _, Nat.le_refl _⟩
  · exact bounds_of_mem_nodesFrom h

/-- Names of two names under some children are the same if their kinds and spans are. -/
theorem eq_of_sameSpan_from {c d e : Cursor} {index start : Nat} {trees : List Tree}
    (hs : Tree.nameShapedAll trees = true) (hd : d ∈ c.nodesFrom index start trees)
    (he : e ∈ c.nodesFrom index start trees) (h : SameSpan d e) : d = e := by
  have hdpos := Node.width_pos h.1 (node_nameShaped_of_mem hs hd)
  have hstart := h.start_eq
  have hwidth := h.width_eq
  match trees with
  | [] => simp at hd
  | .token t :: rest =>
      rw [nodesFrom_token] at hd he
      rw [Tree.nameShapedAll, Bool.and_eq_true] at hs
      exact eq_of_sameSpan_from hs.2 hd he h
  | .node k children :: rest =>
      rw [nodesFrom_node, List.mem_append] at hd he
      rw [Tree.nameShapedAll, Bool.and_eq_true] at hs
      have hchild : (c.child index start k children).node.nameShaped = true := hs.1
      have hchildren : Tree.nameShapedAll children = true :=
        ((Node.nameShaped_iff _).1 hchild).2
      -- What is in the first child ends where the others begin.
      have hend : (c.child index start k children).start +
          (c.child index start k children).node.width = start + Tree.widthAll children := rfl
      rcases hd with hd | hd <;> rcases he with he | he
      · refine eq_of_sameSpan hchild hd he h fun hd he => ?_
        exact eq_of_sameSpan_from hchildren hd he h
      · have hleft := bounds_of_mem_descendants hd
        have hright := bounds_of_mem_nodesFrom he
        omega
      · have hleft := bounds_of_mem_descendants he
        have hright := bounds_of_mem_nodesFrom hd
        omega
      · exact eq_of_sameSpan_from hs.2 hd he h

/-- The search for the kind and span of a name of two names finds it. -/
theorem find?_place (p : Place) (n : Node) (hk : n.kind.isPair = true)
    (hs : (p.fill n).nameShaped = true) :
    ((ofRoot (p.fill n)).descendants.find? fun c =>
      c.kind == n.kind && c.fullSpan == ⟨p.start, n.width⟩) = some (p.cursor n) := by
  have hmem := p.cursor_mem_descendants n
  have hself : ((p.cursor n).kind == n.kind &&
      (p.cursor n).fullSpan == ⟨p.start, n.width⟩) = true := by
    rw [Bool.and_eq_true, beq_iff_eq, beq_iff_eq]
    exact ⟨rfl, rfl⟩
  have hsome : ((ofRoot (p.fill n)).descendants.find? fun c =>
      c.kind == n.kind && c.fullSpan == ⟨p.start, n.width⟩).isSome :=
    List.find?_isSome.2 ⟨p.cursor n, hmem, hself⟩
  obtain ⟨found, hfound⟩ := Option.isSome_iff_exists.1 hsome
  have hfits := List.find?_some hfound
  rw [Bool.and_eq_true, beq_iff_eq, beq_iff_eq] at hfits
  have hsame : SameSpan (p.cursor n) found := ⟨hk, hfits.1.symm, hfits.2.symm⟩
  rw [hfound]
  refine congrArg some (eq_of_sameSpan hs hmem (List.mem_of_find?_eq_some hfound) hsame ?_).symm
  intro hd he
  exact eq_of_sameSpan_from ((Node.nameShaped_iff _).1 hs).2 hd he hsame

end Cursor

end TreeLint
