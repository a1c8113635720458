import TreeLint.Tree.Locate

/-!
# Places in a tree

A place is a tree with a gap: the nodes around it, each without the child that the place is in or
under. Filling the gap gives a whole tree, and a node that fills it has a cursor that the place
alone determines. So whatever is found in a tree by walking over it, by offset or by going up from a
token can be taken apart into a place and a node, and replacing the node is filling the same place
with another one.

The converse is what makes replacing by search possible: the cursor of a node that fills a place is
among the descendants of the whole tree.
-/

namespace TreeLint

/-- A node without one of its children: what stands in front of the gap and behind it. -/
structure Gap where
  kind : Kind
  before : List Tree
  behind : List Tree

/-- The node with a child in the gap. -/
def Gap.fill (g : Gap) (n : Node) : Node := ⟨g.kind, g.before ++ n.toTree :: g.behind⟩

/-- A place in a tree: the gaps around it, the innermost first. -/
abbrev Place := List Gap

namespace Place

/-- The tree with a node at a place. -/
def fill : Place → Node → Node
  | [], n => n
  | g :: outer, n => fill outer (g.fill n)

/-- The offset at which a node at a place starts. -/
def start : Place → Nat
  | [] => 0
  | g :: outer => start outer + Tree.widthAll g.before

/-- The frames above a node at a place. -/
def frames : Place → Node → List Frame
  | [], _ => []
  | g :: outer, n => ⟨g.fill n, start outer, g.before.length⟩ :: frames outer (g.fill n)

/-- The cursor of a node at a place. -/
def cursor (p : Place) (n : Node) : Cursor := ⟨n, p.start, p.frames n⟩

end Place

/-- A node stands in a tree if its cursor is that of a place of the tree. -/
def Cursor.Stands (c : Cursor) (root : Node) : Prop :=
  ∃ p : Place, c = p.cursor c.node ∧ p.fill c.node = root

namespace Tree

theorem widthAll_append (front back : List Tree) :
    widthAll (front ++ back) = widthAll front + widthAll back := by
  induction front with
  | nil => simp [widthAll]
  | cons t rest ih => rw [List.cons_append, widthAll, widthAll, ih, Nat.add_assoc]

theorem widthAll_snoc (front : List Tree) (t : Tree) :
    widthAll (front ++ [t]) = widthAll front + t.width := by
  rw [widthAll_append, widthAll, widthAll, Nat.add_zero]

end Tree

namespace Place

theorem fill_gap {n child : Node} {before behind : List Tree}
    (hn : n.children = before ++ child.toTree :: behind) :
    Gap.fill ⟨n.kind, before, behind⟩ child = n := by
  rw [Gap.fill, ← hn]

/-- A child of a node at a place is at a place one gap further in. -/
theorem cursor_child {n : Node} {before behind : List Tree} {k : Kind} {children : List Tree}
    (p : Place) (hn : n.children = before ++ .node k children :: behind) :
    (p.cursor n).child before.length (p.start + Tree.widthAll before) k children =
      cursor (⟨n.kind, before, behind⟩ :: p) ⟨k, children⟩ := by
  have hgap : Gap.fill ⟨n.kind, before, behind⟩ ⟨k, children⟩ = n := fill_gap hn
  simp only [cursor, Cursor.child, Cursor.frames, start, frames, hgap]

/-! ## Replacing -/

theorem setChild_fill (g : Gap) (old new : Node) :
    (g.fill old).setChild g.before.length new = g.fill new := by
  simp [Node.setChild, Gap.fill]

/-- A node around a place has the child that is replaced. -/
theorem replaceChild?_fill (g : Gap) (old new : Node) :
    (g.fill old).replaceChild? g.before.length new = some (g.fill new) := by
  have hlt : g.before.length < (g.fill old).children.length := by
    rw [Gap.fill, List.length_append, List.length_cons]
    omega
  rw [Node.replaceChild?, if_pos hlt, setChild_fill]

theorem rebuild_frames (p : Place) (old new : Node) :
    Cursor.rebuild (p.frames old) new = p.fill new := by
  induction p generalizing old new with
  | nil => rfl
  | cons g outer ih => rw [frames, Cursor.rebuild, setChild_fill, ih, fill]

theorem replaceWith_cursor (p : Place) (old new : Node) :
    (p.cursor old).replaceWith new = p.fill new := rebuild_frames p old new

/-! ## Going up -/

theorem ancestors_cons (g : Gap) (outer : Place) (n : Node) :
    (cursor (g :: outer) n).ancestors =
      cursor (g :: outer) n :: (cursor outer (g.fill n)).ancestors := rfl

theorem root_cursor (p : Place) (n : Node) : (p.cursor n).root = .ofRoot (p.fill n) := by
  have hlast : ∀ (p : Place) (n : Node) (c : Cursor),
      (p.cursor n).ancestors.getLastD c = .ofRoot (p.fill n) := by
    intro p
    induction p with
    | nil => intro n c; rfl
    | cons g outer ih =>
        intro n c
        rw [ancestors_cons, List.getLastD_cons]
        exact ih (g.fill n) _
  exact hlast p n _

theorem stands_of_mem_ancestors {c : Cursor} (p : Place) (n : Node)
    (h : c ∈ (p.cursor n).ancestors) : c.Stands (p.fill n) := by
  induction p generalizing n with
  | nil =>
      rw [List.mem_singleton.1 h]
      exact ⟨[], rfl, rfl⟩
  | cons g outer ih =>
      rw [ancestors_cons] at h
      rcases List.mem_cons.1 h with rfl | h
      · exact ⟨g :: outer, rfl, rfl⟩
      · exact ih (g.fill n) h

end Place

theorem Cursor.Stands.of_mem_ancestors {c inner : Cursor} {root : Node} (hs : inner.Stands root)
    (h : c ∈ inner.ancestors) : c.Stands root := by
  obtain ⟨p, hp, hfill⟩ := hs
  rw [hp] at h
  exact hfill ▸ Place.stands_of_mem_ancestors p inner.node h

theorem Cursor.Stands.root_eq {c : Cursor} {root : Node} (hs : c.Stands root) :
    c.root = .ofRoot root := by
  obtain ⟨p, hp, hfill⟩ := hs
  rw [hp, Place.root_cursor, hfill]

/-! ## Going down -/

/-- The node that is an element, or has it as a child. -/
def Element.host : Element → Cursor
  | .node c => c
  | .token t => t.parent

theorem stands_of_mem_preorderFrom {root n : Node} {e : Element} (p : Place)
    (hroot : p.fill n = root) (before trees : List Tree) (hn : n.children = before ++ trees)
    (h : e ∈ (p.cursor n).preorderFrom before.length (p.start + Tree.widthAll before) trees) :
    e.host.Stands root := by
  match trees with
  | [] => simp [Cursor.preorderFrom] at h
  | .token t :: rest =>
      rw [Cursor.preorderFrom, Cursor.preorderOf, List.singleton_append, List.mem_cons] at h
      rcases h with rfl | h
      · exact ⟨p, rfl, hroot⟩
      · refine stands_of_mem_preorderFrom p hroot (before ++ [.token t]) rest (by simp [hn]) ?_
        rw [List.length_append, Tree.widthAll_snoc, ← Nat.add_assoc]
        exact h
  | .node k children :: rest =>
      rw [Cursor.preorderFrom, Cursor.preorderOf, Place.cursor_child p hn, List.cons_append,
        List.mem_cons, List.mem_append] at h
      have hchild : Place.fill (⟨n.kind, before, rest⟩ :: p) ⟨k, children⟩ = root := by
        rw [Place.fill, Place.fill_gap hn, hroot]
      rcases h with rfl | h | h
      · exact ⟨_, rfl, hchild⟩
      · exact stands_of_mem_preorderFrom _ hchild [] children rfl h
      · refine stands_of_mem_preorderFrom p hroot (before ++ [.node k children]) rest
          (by simp [hn]) ?_
        rw [List.length_append, Tree.widthAll_snoc, ← Nat.add_assoc]
        exact h

theorem stands_of_mem_preorder {root : Node} {e : Element}
    (h : e ∈ (Cursor.ofRoot root).preorder) : e.host.Stands root := by
  rcases List.mem_cons.1 h with rfl | h
  · exact ⟨[], rfl, rfl⟩
  · exact stands_of_mem_preorderFrom [] rfl [] root.children rfl h

theorem stands_of_mem_descendants {root : Node} {c : Cursor}
    (h : c ∈ (Cursor.ofRoot root).descendants) : c.Stands root := by
  obtain ⟨e, he, hc⟩ := List.mem_filterMap.1 h
  cases e with
  | node d =>
      cases hc
      exact stands_of_mem_preorder he
  | token t => cases hc

theorem stands_of_mem_tokens {root : Node} {t : TokenCursor}
    (h : t ∈ (Cursor.ofRoot root).tokens) : t.parent.Stands root := by
  obtain ⟨e, he, ht⟩ := List.mem_filterMap.1 h
  cases e with
  | node d => cases ht
  | token u =>
      cases ht
      exact stands_of_mem_preorder he

/-! ## The nodes of a tree -/

namespace Cursor

/-- The nodes among some children of a node and under them, in document order. -/
def nodesFrom (c : Cursor) (index start : Nat) (trees : List Tree) : List Cursor :=
  (c.preorderFrom index start trees).filterMap Element.node?

@[simp] theorem nodesFrom_nil (c : Cursor) (index start : Nat) : c.nodesFrom index start [] = [] :=
  rfl

@[simp] theorem nodesFrom_token (c : Cursor) (index start : Nat) (t : Token) (rest : List Tree) :
    c.nodesFrom index start (.token t :: rest) =
      c.nodesFrom (index + 1) (start + t.width) rest := rfl

theorem descendants_eq (c : Cursor) :
    c.descendants = c :: c.nodesFrom 0 c.start c.node.children := rfl

@[simp] theorem nodesFrom_node (c : Cursor) (index start : Nat) (k : Kind)
    (children rest : List Tree) :
    c.nodesFrom index start (.node k children :: rest) =
      (c.child index start k children).descendants ++
        c.nodesFrom (index + 1) (start + Tree.widthAll children) rest := by
  unfold nodesFrom
  rw [preorderFrom, List.filterMap_append]
  rfl

theorem nodesFrom_append (c : Cursor) (index start : Nat) (front back : List Tree) :
    c.nodesFrom index start (front ++ back) =
      c.nodesFrom index start front ++
        c.nodesFrom (index + front.length) (start + Tree.widthAll front) back := by
  induction front generalizing index start with
  | nil => rfl
  | cons t rest ih =>
      have hindex : index + (t :: rest).length = index + 1 + rest.length := by
        rw [List.length_cons, Nat.add_assoc, Nat.add_comm 1]
      cases t with
      | token t =>
          rw [List.cons_append, nodesFrom_token, nodesFrom_token, ih, hindex, Tree.widthAll,
            Nat.add_assoc start]
          rfl
      | node k children =>
          rw [List.cons_append, nodesFrom_node, nodesFrom_node, ih, hindex, Tree.widthAll,
            Nat.add_assoc start, List.append_assoc]
          rfl

end Cursor

namespace Place

/-- The nodes of a tree that come before a node at a place, those around it included. -/
def nodesInFront : Place → Node → List Cursor
  | [], _ => []
  | g :: outer, n =>
    nodesInFront outer (g.fill n) ++ cursor outer (g.fill n) ::
      (cursor outer (g.fill n)).nodesFrom 0 (start outer) g.before

/-- The nodes of a tree that come after a node at a place and all under it. -/
def nodesBehind : Place → Node → List Cursor
  | [], _ => []
  | g :: outer, n =>
    (cursor outer (g.fill n)).nodesFrom (g.before.length + 1)
      (start outer + Tree.widthAll g.before + n.width) g.behind ++ nodesBehind outer (g.fill n)

theorem descendants_fill (p : Place) (n : Node) : (Cursor.ofRoot (p.fill n)).descendants =
    p.nodesInFront n ++ (p.cursor n).descendants ++ p.nodesBehind n := by
  induction p generalizing n with
  | nil => exact (List.append_nil _).symm
  | cons g outer ih =>
      have hchildren : (g.fill n).children = g.before ++ .node n.kind n.children :: g.behind := rfl
      have hgap : (cursor outer (g.fill n)).descendants = cursor outer (g.fill n) ::
          (cursor outer (g.fill n)).nodesFrom 0 (start outer) (g.fill n).children := rfl
      rw [hchildren, Cursor.nodesFrom_append, Cursor.nodesFrom_node, Nat.zero_add,
        cursor_child outer hchildren] at hgap
      rw [fill, ih, hgap, nodesInFront, nodesBehind]
      simp only [List.append_assoc, List.cons_append]
      rfl

/-- A node at a place is found among the descendants of the whole tree. -/
theorem cursor_mem_descendants (p : Place) (n : Node) :
    p.cursor n ∈ (Cursor.ofRoot (p.fill n)).descendants := by
  rw [descendants_fill]
  exact List.mem_append_left _ (List.mem_append_right _ List.mem_cons_self)

end Place

/-! ## By offset -/

namespace Cursor

theorem token_mem_preorderFrom {c : Cursor} {offset index start : Nat} {trees : List Tree}
    {t : TokenCursor} (h : c.tokenAtFrom? offset index start trees = some t) :
    Element.token t ∈ c.preorderFrom index start trees := by
  match trees with
  | [] => cases h
  | .token token :: rest =>
      rw [tokenAtFrom?] at h
      rw [preorderFrom, preorderOf, List.singleton_append, List.mem_cons]
      split at h
      · rw [tokenAtOf?] at h
        cases h
        exact .inl rfl
      · exact .inr (token_mem_preorderFrom h)
  | .node k children :: rest =>
      rw [tokenAtFrom?] at h
      rw [preorderFrom, preorderOf, List.mem_append]
      split at h
      · rw [tokenAtOf?] at h
        exact .inl (List.mem_cons_of_mem _ (token_mem_preorderFrom h))
      · exact .inr (token_mem_preorderFrom h)

end Cursor

theorem stands_of_tokenAt? {root : Node} {offset : Nat} {t : TokenCursor}
    (h : (Cursor.ofRoot root).tokenAt? offset = some t) : t.parent.Stands root := by
  unfold Cursor.tokenAt? at h
  split at h
  · exact stands_of_mem_preorder (List.mem_cons_of_mem _ (Cursor.token_mem_preorderFrom h))
  · cases h

theorem stands_of_nextSignificant? {root : Node} {t next : TokenCursor}
    (hs : t.parent.Stands root) (h : t.nextSignificant? = some next) :
    next.parent.Stands root := by
  rw [TokenCursor.nextSignificant?, TokenCursor.nextSignificantIn?, hs.root_eq] at h
  exact stands_of_mem_tokens (List.mem_of_find?_eq_some h)

theorem stands_of_significantTokenAt? {root : Node} {offset : Nat} {t : TokenCursor}
    (h : (Cursor.ofRoot root).significantTokenAt? offset = some t) : t.parent.Stands root := by
  unfold Cursor.significantTokenAt? at h
  split at h
  · cases h
  · next covering hcovering =>
      have hs := stands_of_tokenAt? hcovering
      split at h
      · cases h
        exact hs
      · split at h <;> simp only [] at h
        · split at h
          · next previous hprevious =>
              split at h
              · cases h
                exact stands_of_tokenAt? hprevious
              · exact stands_of_nextSignificant? hs h
          · exact stands_of_nextSignificant? hs h
        · exact stands_of_nextSignificant? hs h

end TreeLint
