import TreeLint.Proofs.TokenTiling

/-!
# Document order

The nodes of a tree are listed with each node before those under it, and those under one child
before those under the next. Two things can be said along this list. The paths of the nodes rise,
and so do those of the tokens, compared index by index, a node's own path being the start of those
under it; so none is listed twice. And the offsets at which the first significant tokens of the
nodes start never fall: the tokens of a node are those of some stretch of the text, and this stretch
lies either inside that of an earlier node or behind it.
-/

namespace TreeLint

/-- The child indices that lead from the root to an element. -/
def Element.path : Element → List Nat
  | .node c => c.path
  | .token t => t.path

namespace Cursor

/-! ## Paths -/

theorem nodesFrom_singleton (c : Cursor) (index start : Nat) (k : Kind) (children : List Tree) :
    c.nodesFrom index start [.node k children] = (c.child index start k children).descendants := by
  rw [nodesFrom_node, nodesFrom_nil, List.append_nil]

theorem path_child (c : Cursor) (index start : Nat) (k : Kind) (children : List Tree) :
    (c.child index start k children).path = c.path ++ [index] := by
  rw [path, child, frames, List.map_cons, List.reverse_cons]
  rfl

/-- The path of what is under some children of a node goes through one of these. -/
theorem exists_path_eq_of_mem_preorderFrom {c : Cursor} {e : Element} {index start : Nat}
    {trees : List Tree} (he : e ∈ c.preorderFrom index start trees) :
    ∃ i inner, e.path = c.path ++ i :: inner ∧ index ≤ i ∧ i < index + trees.length := by
  match trees with
  | [] => simp [preorderFrom] at he
  | .token t :: rest =>
      rw [preorderFrom, preorderOf, List.singleton_append, List.mem_cons] at he
      rw [List.length_cons]
      rcases he with rfl | he
      · exact ⟨index, [], rfl, by omega, by omega⟩
      · obtain ⟨i, inner, hpath, hfrom, hto⟩ := exists_path_eq_of_mem_preorderFrom he
        exact ⟨i, inner, hpath, by omega, by omega⟩
  | .node k children :: rest =>
      rw [preorderFrom, preorderOf, List.cons_append, List.mem_cons, List.mem_append] at he
      rw [List.length_cons]
      rcases he with rfl | he | he
      · exact ⟨index, [], c.path_child index start k children, by omega, by omega⟩
      · obtain ⟨i, inner, hpath, -, -⟩ := exists_path_eq_of_mem_preorderFrom he
        refine ⟨index, i :: inner, ?_, by omega, by omega⟩
        rw [hpath, path_child, List.append_assoc, List.singleton_append]
      · obtain ⟨i, inner, hpath, hfrom, hto⟩ := exists_path_eq_of_mem_preorderFrom he
        exact ⟨i, inner, hpath, by omega, by omega⟩

theorem path_lt_of_mem_preorderFrom {c : Cursor} {e : Element} {index start : Nat}
    {trees : List Tree} (he : e ∈ c.preorderFrom index start trees) : c.path < e.path := by
  obtain ⟨i, inner, hpath, -, -⟩ := exists_path_eq_of_mem_preorderFrom he
  have hlonger : c.path ++ [] < c.path ++ i :: inner :=
    List.append_left_lt (List.nil_lt_cons i inner)
  rwa [List.append_nil, ← hpath] at hlonger

/-- A child of a node and what is under it come before what a later child has under it. -/
theorem path_lt_of_mem_preorderOf {c : Cursor} {a b : Element} {index start start' : Nat}
    {t : Tree} {rest : List Tree} (ha : a ∈ c.preorderOf index start t)
    (hb : b ∈ c.preorderFrom (index + 1) start' rest) : a.path < b.path := by
  have hsingle : c.preorderFrom index start [t] = c.preorderOf index start t := by
    rw [preorderFrom, preorderFrom, List.append_nil]
  rw [← hsingle] at ha
  obtain ⟨i, inner, hpath, -, hto⟩ := exists_path_eq_of_mem_preorderFrom ha
  obtain ⟨i', inner', hpath', hfrom', -⟩ := exists_path_eq_of_mem_preorderFrom hb
  have hlt : i < i' := by
    rw [List.length_singleton] at hto
    omega
  rw [hpath, hpath']
  exact List.append_left_lt (List.cons_lt_cons_iff.2 (.inl hlt))

/-- Paths rise in document order. -/
theorem pairwise_path_preorderFrom (c : Cursor) (index start : Nat) (trees : List Tree) :
    (c.preorderFrom index start trees).Pairwise fun a b => a.path < b.path := by
  match trees with
  | [] => exact .nil
  | .token t :: rest =>
      rw [preorderFrom, List.pairwise_append]
      refine ⟨?_, c.pairwise_path_preorderFrom _ _ rest, fun a ha b hb =>
        path_lt_of_mem_preorderOf ha hb⟩
      rw [preorderOf]
      exact List.pairwise_singleton _ _
  | .node k children :: rest =>
      rw [preorderFrom, List.pairwise_append]
      refine ⟨?_, c.pairwise_path_preorderFrom _ _ rest, fun a ha b hb =>
        path_lt_of_mem_preorderOf ha hb⟩
      rw [preorderOf, List.pairwise_cons]
      exact ⟨fun e he => path_lt_of_mem_preorderFrom he,
        pairwise_path_preorderFrom _ 0 start children⟩

theorem pairwise_path_preorder (c : Cursor) :
    c.preorder.Pairwise fun a b => a.path < b.path := by
  rw [preorder, List.pairwise_cons]
  exact ⟨fun e he => path_lt_of_mem_preorderFrom he, c.pairwise_path_preorderFrom _ _ _⟩

theorem mem_preorderFrom_of_mem_nodesFrom {c d : Cursor} {index start : Nat} {trees : List Tree}
    (hd : d ∈ c.nodesFrom index start trees) :
    Element.node d ∈ c.preorderFrom index start trees := by
  obtain ⟨e, he, hnode⟩ := List.mem_filterMap.1 hd
  cases e with
  | node d' =>
      obtain rfl : d' = d := Option.some.inj hnode
      exact he
  | token t => cases hnode

theorem exists_path_eq {c e : Cursor} {index start : Nat} {trees : List Tree}
    (he : e ∈ c.nodesFrom index start trees) :
    ∃ i inner, e.path = c.path ++ i :: inner ∧ index ≤ i ∧ i < index + trees.length :=
  exists_path_eq_of_mem_preorderFrom (mem_preorderFrom_of_mem_nodesFrom he)

theorem pairwise_path_descendants (c : Cursor) :
    c.descendants.Pairwise fun a b => a.path < b.path := by
  refine List.Pairwise.filterMap Element.node? (fun e e' hlt d hd d' hd' => ?_)
    c.pairwise_path_preorder
  cases e with
  | node => cases e' with
    | node =>
        cases hd
        cases hd'
        exact hlt
    | token => cases hd'
  | token => cases hd

theorem pairwise_path_tokens (c : Cursor) : c.tokens.Pairwise fun t u => t.path < u.path := by
  refine List.Pairwise.filterMap Element.token? (fun e e' hlt t ht t' ht' => ?_)
    c.pairwise_path_preorder
  cases e with
  | node => cases ht
  | token => cases e' with
    | node => cases ht'
    | token =>
        cases ht
        cases ht'
        exact hlt

/-- No node is listed twice. -/
theorem nodup_descendants (c : Cursor) : c.descendants.Nodup := by
  refine List.Pairwise.imp (fun {a b} hlt => ?_) c.pairwise_path_descendants
  rintro rfl
  exact List.lt_irrefl _ hlt

/-! ## First tokens -/

/-- The tokens of a node are tokens of the nodes around it. -/
theorem tokens_subset_of_mem_nodesFrom {c e : Cursor} {index start : Nat} {trees : List Tree}
    (he : e ∈ c.nodesFrom index start trees) : e.tokens ⊆ c.tokensFrom index start trees := by
  match trees with
  | [] => cases he
  | .token t :: rest =>
      rw [nodesFrom_token] at he
      rw [tokensFrom_token]
      exact List.subset_cons_of_subset _ (tokens_subset_of_mem_nodesFrom he)
  | .node k children :: rest =>
      rw [nodesFrom_node, descendants_eq, List.mem_append, List.mem_cons] at he
      rw [tokensFrom_node]
      rcases he with (rfl | he) | he
      · exact List.subset_append_left _ _
      · have hinner : e.tokens ⊆ (c.child index start k children).tokensFrom 0 start children :=
          tokens_subset_of_mem_nodesFrom he
        exact List.subset_append_of_subset_left _ hinner
      · exact List.subset_append_of_subset_right _ (tokens_subset_of_mem_nodesFrom he)

/-- No significant token of a node starts in front of its first. -/
theorem start_le_of_mem_significant {c : Cursor} {t u : TokenCursor}
    (ht : t ∈ c.significant.head?) (hu : u ∈ c.significant) : t.start ≤ u.start := by
  have htiles := c.tiles_tokensFrom 0 c.start c.node.children
  have hordered : c.significant.Pairwise fun t u => t.start + t.token.width ≤ u.start :=
    (List.pairwise_map.1 htiles.pairwise).filter _
  generalize c.significant = tokens at ht hu hordered
  cases tokens with
  | nil => cases hu
  | cons first rest =>
      obtain rfl : first = t := Option.some.inj ht
      rcases List.mem_cons.1 hu with rfl | hlater
      · exact Nat.le_refl _
      · have hbehind := (List.pairwise_cons.1 hordered).1 u hlater
        omega

/-- Of two nodes, the first significant token of the one starts no later than that of the other. -/
def StartsBefore (a b : Cursor) : Prop :=
  ∀ t ∈ a.significant.head?, ∀ u ∈ b.significant.head?, t.start ≤ u.start

theorem startsBefore_of_subset {a b : Cursor} (h : b.tokens ⊆ a.tokens) : a.StartsBefore b := by
  intro t ht u hu
  have hfound := List.mem_filter.1 (List.mem_of_mem_head? hu)
  exact start_le_of_mem_significant ht (List.mem_filter.2 ⟨h hfound.1, hfound.2⟩)

theorem bounds_of_first {c e : Cursor} {index start : Nat} {trees : List Tree} {t : TokenCursor}
    (he : e ∈ c.nodesFrom index start trees) (ht : t ∈ e.significant.head?) :
    start ≤ t.start ∧ t.start + t.token.width ≤ start + Tree.widthAll trees := by
  have hmem : t ∈ c.tokensFrom index start trees :=
    tokens_subset_of_mem_nodesFrom he (List.mem_filter.1 (List.mem_of_mem_head? ht)).1
  exact (c.tiles_tokensFrom index start trees).bounds (List.mem_map_of_mem (f := (·.span)) hmem)

/-- The first significant tokens of nodes start in document order. -/
theorem pairwise_startsBefore_nodesFrom (c : Cursor) (index start : Nat) (trees : List Tree) :
    (c.nodesFrom index start trees).Pairwise StartsBefore := by
  match trees with
  | [] => exact .nil
  | .token t :: rest =>
      rw [nodesFrom_token]
      exact c.pairwise_startsBefore_nodesFrom _ _ rest
  | .node k children :: rest =>
      rw [nodesFrom_node, List.pairwise_append]
      refine ⟨?_, c.pairwise_startsBefore_nodesFrom _ _ rest, fun a ha b hb t ht u hu => ?_⟩
      · rw [descendants_eq, List.pairwise_cons]
        exact ⟨fun e he => startsBefore_of_subset (tokens_subset_of_mem_nodesFrom he),
          pairwise_startsBefore_nodesFrom _ 0 start children⟩
      · -- the tokens of the one end where the child does, and those of the other start behind it
        rw [← nodesFrom_singleton] at ha
        have hin := (bounds_of_first ha ht).2
        have hbehind := (bounds_of_first hb hu).1
        rw [Tree.widthAll, Tree.widthAll, Tree.width, Nat.add_zero] at hin
        omega

theorem pairwise_startsBefore_descendants (c : Cursor) :
    c.descendants.Pairwise StartsBefore := by
  rw [descendants_eq, List.pairwise_cons]
  exact ⟨fun e he => startsBefore_of_subset (tokens_subset_of_mem_nodesFrom he),
    c.pairwise_startsBefore_nodesFrom _ _ _⟩

/-! ## Spans -/

/-- The span of a node with significant tokens starts with the first of them and ends with the
last. -/
theorem span_of_significant {c : Cursor} (h : c.significant ≠ []) :
    ∃ first last, c.significant.head? = some first ∧ c.significant.getLast? = some last ∧
      c.span.start = first.start ∧ c.span.stop = last.span.stop := by
  have hfirst : c.significant.head? = some (c.significant.head h) := List.head?_eq_some_head h
  have hlast : c.significant.getLast? = some (c.significant.getLast h) :=
    List.getLast?_eq_some_getLast h
  have horder : (c.significant.head h).start ≤ (c.significant.getLast h).start :=
    start_le_of_mem_significant hfirst (List.getLast_mem h)
  refine ⟨_, _, hfirst, hlast, ?_, ?_⟩
  · rw [span, firstToken?_eq, lastToken?_eq, hfirst, hlast]
    rfl
  · rw [span, firstToken?_eq, lastToken?_eq, hfirst, hlast]
    simp only [Span.ofBounds, Span.stop, TokenCursor.span]
    omega

end Cursor

end TreeLint
