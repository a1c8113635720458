import TreeLint.Proofs.LayoutTrivia

/-!
# Layout goes by the tokens alone

The separators of a layout are decided on over the tokens in order, and they are used up on the way
down the tree. Both passes must meet the same tokens for each to get its own separator. They do: the
first leaves out what the second drops, and behind a tree just the separators of the tokens behind
it are left over. So the tokens of a layout are what one pass over the tokens of the tree gives, and
trivia tokens, nodes without tokens and nodes of nothing but trivia leave no mark on it.

Together with the tree without its trivia, which stays what it was, this says of every token of a
layout where it comes from.
-/

namespace TreeLint

theorem significant_append (front back : List Token) :
    significant (front ++ back) = significant front ++ significant back :=
  List.filter_append front back

theorem significant_trivia {t : Token} (h : t.kind.isTrivia = true) (rest : List Token) :
    significant (t :: rest) = significant rest :=
  List.filter_cons_of_neg (by simp [h])

theorem significant_token {t : Token} (h : ¬ t.kind.isTrivia = true) (rest : List Token) :
    significant (t :: rest) = t :: significant rest :=
  List.filter_cons_of_pos (by simp [h])

/-- The tokens that are left of a tree without its trivia are the significant ones. -/
theorem Tree.tokensAll_withoutTriviaAll (trees : List Tree) :
    tokensAll (withoutTriviaAll trees) = significant (tokensAll trees) := by
  match trees with
  | [] => rfl
  | .token t :: rest =>
      rw [tokensAll, tokens, List.singleton_append, withoutTriviaAll]
      split
      · next h => rw [significant_trivia h, tokensAll_withoutTriviaAll rest]
      · next h =>
          rw [significant_token h, tokensAll, tokens, tokensAll_withoutTriviaAll rest]
          rfl
  | .node k children :: rest =>
      rw [withoutTriviaAll, withoutTrivia, tokensAll, tokensAll, tokens, tokens,
        significant_append, tokensAll_withoutTriviaAll children, tokensAll_withoutTriviaAll rest]

theorem Node.tokens_withoutTrivia (n : Node) : n.withoutTrivia.tokens = significant n.tokens :=
  Tree.tokensAll_withoutTriviaAll n.children

namespace FormattingOptions

variable {options : FormattingOptions}

/-- What is remembered behind some tokens. -/
def remember (options : FormattingOptions) (state : LayoutState) (tokens : List Token) :
    LayoutState := tokens.foldl (fun state t => options.behind state t.kind) state

/-- Tokens in order, each with the trivia of its separator in front of it. -/
def spaced (options : FormattingOptions) (state : LayoutState) : List Token → List Token
  | [] => []
  | t :: rest =>
    Tree.tokensAll (options.trivia (options.separate state t.kind).1) ++
      t :: spaced options (options.behind state t.kind) rest

theorem spaced_append (state : LayoutState) (front back : List Token) :
    options.spaced state (front ++ back) =
      options.spaced state front ++ options.spaced (options.remember state front) back := by
  induction front generalizing state with
  | nil => rfl
  | cons t rest ih =>
      rw [List.cons_append, spaced, spaced, ih, List.append_assoc, List.cons_append]
      rfl

theorem remember_append (state : LayoutState) (front back : List Token) :
    options.remember state (front ++ back) =
      options.remember (options.remember state front) back := List.foldl_append

theorem separators_append (state : LayoutState) (front back : List Token) :
    options.separators state (front ++ back) =
      options.separators state front ++ options.separators (options.remember state front) back := by
  induction front generalizing state with
  | nil => rfl
  | cons t rest ih =>
      rw [List.cons_append, separators, separators, ih, List.cons_append]
      rfl

/-- Behind a tree, the separators that are left over are those for what is behind it. -/
theorem rebuildAll_leftOver (state : LayoutState) (trees : List Tree) (more : List Separator) :
    (rebuildAll options (options.separators state (significant (Tree.tokensAll trees)) ++ more)
      trees).2 = more := by
  match trees with
  | [] => rfl
  | .token t :: rest =>
      rw [Tree.tokensAll, Tree.tokens, List.singleton_append]
      by_cases h : t.kind.isTrivia = true
      · rw [rebuildAll_trivia h, significant_trivia h, rebuildAll_leftOver state rest]
      · rw [rebuildAll_token h, significant_token h, separators, List.cons_append, List.tail_cons,
          rebuildAll_leftOver _ rest]
  | .node k children :: rest =>
      rw [Tree.tokensAll, Tree.tokens, significant_append, separators_append, List.append_assoc,
        rebuildAll_node, rebuildAll_leftOver state children, rebuildAll_leftOver _ rest]

theorem tokensAll_rebuildAll (options : FormattingOptions) (state : LayoutState)
    (trees : List Tree) (more : List Separator) :
    Tree.tokensAll (rebuildAll options
      (options.separators state (significant (Tree.tokensAll trees)) ++ more) trees).1 =
        options.spaced state (significant (Tree.tokensAll trees)) := by
  match trees with
  | [] => rfl
  | .token t :: rest =>
      rw [Tree.tokensAll, Tree.tokens, List.singleton_append]
      by_cases h : t.kind.isTrivia = true
      · rw [rebuildAll_trivia h, significant_trivia h, tokensAll_rebuildAll options state rest]
      · rw [rebuildAll_token h, significant_token h, separators, List.cons_append, List.tail_cons,
          List.head?_cons, Option.toList_some, List.flatMap_singleton, Tree.tokensAll_append,
          Tree.tokensAll, Tree.tokens, tokensAll_rebuildAll options _ rest]
        rfl
  | .node k children :: rest =>
      rw [Tree.tokensAll, Tree.tokens, significant_append, separators_append, List.append_assoc,
        rebuildAll_node, rebuildAll_leftOver, Tree.tokensAll, Tree.tokens, spaced_append,
        tokensAll_rebuildAll options state children, tokensAll_rebuildAll options _ rest]

/-- The tokens of a layout are those of the tree that are no trivia, each with its separator. -/
theorem tokens_format (n : Node) :
    (options.format n).tokens = options.spaced {} (significant n.tokens) := by
  have htokens := tokensAll_rebuildAll options {} n.children []
  rwa [List.append_nil] at htokens

/-- Layout changes trivia alone: without trivia the tree is what it was, so its tokens that are no
trivia are the same and in the same order, and all others are the separators of these. -/
theorem format_changes_trivia_alone (options : FormattingOptions) (n : Node) :
    (options.format n).withoutTrivia = n.withoutTrivia ∧
      significant (options.format n).tokens = significant n.tokens ∧
      (options.format n).tokens = options.spaced {} (significant n.tokens) := by
  have hwithout : (options.format n).withoutTrivia = n.withoutTrivia := withoutTrivia_format n
  refine ⟨hwithout, ?_, tokens_format n⟩
  rw [← Node.tokens_withoutTrivia, hwithout, Node.tokens_withoutTrivia]

/-- A node that holds nothing but a blank stays, empty, and does not part the braces around it. -/
example : (({} : FormattingOptions).format ⟨.block, [.token (.fixed .openBraceToken),
      .node .block [.token ⟨.whitespace, " "⟩], .token (.fixed .closeBraceToken)]⟩) =
    ⟨.block, [.token (.fixed .openBraceToken), .node .block [],
      .token (.fixed .closeBraceToken)]⟩ := by decide

end FormattingOptions

end TreeLint
