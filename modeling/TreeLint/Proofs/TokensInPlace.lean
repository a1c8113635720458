import TreeLint.Proofs.Likeness

/-!
# The tokens under a node, in their place

The tokens under a node are those of its elements, one after the other, and without their places
they are the tokens of the tree. So a statement about the tokens of a tree is proved by going
through the children of its nodes, with the offset and the index at which the next one starts.

Among them, the significant ones are those that are no trivia. The first and the last of these are
where the span of a node begins and ends.
-/

namespace TreeLint

namespace Cursor

/-- The tokens among some children of a node and under them, in document order. -/
def tokensFrom (c : Cursor) (index start : Nat) (trees : List Tree) : List TokenCursor :=
  (c.preorderFrom index start trees).filterMap Element.token?

@[simp] theorem tokensFrom_token (c : Cursor) (index start : Nat) (t : Token) (rest : List Tree) :
    c.tokensFrom index start (.token t :: rest) =
      ⟨t, start, index, c⟩ :: c.tokensFrom (index + 1) (start + t.width) rest := rfl

theorem tokens_eq (c : Cursor) : c.tokens = c.tokensFrom 0 c.start c.node.children := rfl

@[simp] theorem tokensFrom_node (c : Cursor) (index start : Nat) (k : Kind)
    (children rest : List Tree) :
    c.tokensFrom index start (.node k children :: rest) =
      (c.child index start k children).tokens ++
        c.tokensFrom (index + 1) (start + Tree.widthAll children) rest := by
  unfold tokensFrom
  rw [preorderFrom, List.filterMap_append]
  rfl

/-- Without their places, the tokens under a node are those of its tree. -/
theorem map_token_tokensFrom (c : Cursor) (index start : Nat) (trees : List Tree) :
    (c.tokensFrom index start trees).map (·.token) = Tree.tokensAll trees := by
  match trees with
  | [] => rfl
  | .token t :: rest =>
      rw [tokensFrom_token, List.map_cons, map_token_tokensFrom c _ _ rest]
      rfl
  | .node k children :: rest =>
      have hchild : (c.child index start k children).tokens.map (·.token) =
          Tree.tokensAll children :=
        map_token_tokensFrom (c.child index start k children) 0 start children
      rw [tokensFrom_node, List.map_append, map_token_tokensFrom c _ _ rest, hchild]
      rfl

theorem map_token_tokens (c : Cursor) : c.tokens.map (·.token) = c.node.tokens :=
  c.map_token_tokensFrom 0 c.start c.node.children

end Cursor

namespace Element

/-- The tokens of an element. -/
def tokens : Element → List TokenCursor
  | .node c => c.tokens
  | .token t => [t]

/-- The tokens of an element that are no trivia. -/
def significant (e : Element) : List TokenCursor := e.tokens.filter fun t => !t.isTrivia

end Element

namespace Cursor

theorem tokensFrom_eq_elements (c : Cursor) (index start : Nat) (trees : List Tree) :
    c.tokensFrom index start trees =
      (c.elementsFrom index start trees).flatMap Element.tokens := by
  induction trees generalizing index start with
  | nil => rfl
  | cons t rest ih =>
      cases t with
      | token t =>
          rw [tokensFrom_token, elementsFrom, List.flatMap_cons, ih]
          rfl
      | node k children =>
          rw [tokensFrom_node, elementsFrom, List.flatMap_cons, ih]
          rfl

/-- The tokens under a node that are no trivia. -/
def significant (c : Cursor) : List TokenCursor := c.tokens.filter fun t => !t.isTrivia

theorem significant_eq_elements (c : Cursor) :
    c.significant = c.elements.flatMap Element.significant := by
  rw [significant, tokens_eq, tokensFrom_eq_elements, List.filter_flatMap]
  rfl

theorem mem_significant_of_element {c : Cursor} {e : Element} {t : TokenCursor}
    (he : e ∈ c.elements) (ht : t ∈ e.significant) : t ∈ c.significant := by
  rw [significant_eq_elements]
  exact List.mem_flatMap_of_mem he ht

theorem mem_significant_of_childNode {c d : Cursor} {t : TokenCursor} (hd : d ∈ c.childNodes)
    (ht : t ∈ d.significant) : t ∈ c.significant := by
  obtain ⟨e, he, hnode⟩ := List.mem_filterMap.1 hd
  cases e with
  | node c' =>
      cases hnode
      exact mem_significant_of_element he ht
  | token t => cases hnode

theorem mem_significant_of_childToken {c : Cursor} {t : TokenCursor} (ht : t ∈ c.childTokens)
    (hsignificant : t.isTrivia = false) : t ∈ c.significant := by
  obtain ⟨e, he, htoken⟩ := List.mem_filterMap.1 ht
  cases e with
  | node c' => cases htoken
  | token u =>
      cases htoken
      refine mem_significant_of_element he ?_
      simp [Element.significant, Element.tokens, hsignificant]

/-! ## Where a span begins and ends -/

theorem firstToken?_eq (c : Cursor) : c.firstToken? = c.significant.head? := by
  rw [firstToken?, significant, List.head?_filter]

theorem lastToken?_eq (c : Cursor) : c.lastToken? = c.significant.getLast? := by
  rw [lastToken?, significant, ← List.head?_reverse, ← List.filter_reverse, List.head?_filter]

/-- A span goes from one significant token of a tree to another, counted from zero. -/
def Covers (root : Cursor) (first last : Nat) (s : Span) : Prop :=
  first ≤ last ∧ ∃ t u, root.significant[first]? = some t ∧ root.significant[last]? = some u ∧
    s = .ofBounds t.start u.span.stop

/-- The span of a node with significant tokens covers these, wherever they are in the tree. -/
theorem covers_span {root c : Cursor} {front back : List TokenCursor}
    (hroot : root.significant = front ++ c.significant ++ back) (hne : c.significant ≠ []) :
    root.Covers front.length (front.length + (c.significant.length - 1)) c.span := by
  have hpos : 0 < c.significant.length := List.length_pos_iff.2 hne
  have hbehind : c.significant.length - 1 < c.significant.length := Nat.sub_one_lt_of_lt hpos
  have hfirst : c.firstToken? = some c.significant[0] := by
    rw [firstToken?_eq, List.head?_eq_getElem?, List.getElem?_eq_getElem hpos]
  have hlast : c.lastToken? = some c.significant[c.significant.length - 1] := by
    rw [lastToken?_eq, List.getLast?_eq_getElem?, List.getElem?_eq_getElem]
  have hat : ∀ i, (hi : i < c.significant.length) →
      root.significant[front.length + i]? = some c.significant[i] := by
    intro i hi
    rw [hroot, List.append_assoc, List.getElem?_append_right (by omega),
      Nat.add_sub_cancel_left, List.getElem?_append_left hi, List.getElem?_eq_getElem hi]
  refine ⟨Nat.le_add_right _ _, _, _, hat 0 hpos, hat _ hbehind, ?_⟩
  rw [span, hfirst, hlast]

end Cursor

end TreeLint
