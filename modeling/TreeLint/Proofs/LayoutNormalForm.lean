import TreeLint.Proofs.LayoutTokens

/-!
# The layout of a tree is a normal form

Layout skips trivia without a trace: a trivia token is dropped, has no separator and uses up none.
So a tree is laid out as its own remainder without trivia is, and this is all that the result
depends on. The trivia that layout puts in is trivia to it like any other, even where a line end or
an indentation has no text, so a second layout starts from the same remainder as the first.

Layout also leaves that remainder as it was. Both together make it a normal form: two trees have
the same layout exactly if they differ in trivia alone.
-/

namespace TreeLint.FormattingOptions

variable {options : FormattingOptions}

theorem rebuildAll_withoutTriviaAll (separators : List Separator) (trees : List Tree) :
    rebuildAll options separators (Tree.withoutTriviaAll trees) =
      rebuildAll options separators trees := by
  match trees with
  | [] => rfl
  | .token t :: rest =>
      by_cases h : t.kind.isTrivia = true
      · rw [Tree.withoutTriviaAll_trivia h, rebuildAll_trivia h]
        exact rebuildAll_withoutTriviaAll separators rest
      · rw [Tree.withoutTriviaAll, if_neg h, rebuildAll_token h, rebuildAll_token h,
          rebuildAll_withoutTriviaAll _ rest]
  | .node k children :: rest =>
      rw [Tree.withoutTriviaAll, Tree.withoutTrivia, rebuildAll_node, rebuildAll_node,
        rebuildAll_withoutTriviaAll separators children, rebuildAll_withoutTriviaAll _ rest]

theorem significant_tokens_withoutTrivia (n : Node) :
    significant n.withoutTrivia.tokens = significant n.tokens := by
  rw [Node.tokens_withoutTrivia, significant, significant, List.filter_filter]
  simp only [Bool.and_self]

theorem format_withoutTrivia (n : Node) : options.format n.withoutTrivia = options.format n := by
  rw [format, format, significant_tokens_withoutTrivia, Node.withoutTrivia,
    rebuildAll_withoutTriviaAll]

theorem format_congr {n m : Node} (h : n.withoutTrivia = m.withoutTrivia) :
    options.format n = options.format m := by
  rw [← format_withoutTrivia n, h, format_withoutTrivia m]

theorem withoutTrivia_eq_of_format {n m : Node} (h : options.format n = options.format m) :
    n.withoutTrivia = m.withoutTrivia := by
  have hn : (options.format n).withoutTrivia = n.withoutTrivia := withoutTrivia_format n
  rw [← hn, h, withoutTrivia_format m]

/-- Trees that are the same without their trivia have the same layout, and no others have. So a
layout is its own layout, and of two layouts in a row the first leaves no trace. -/
theorem format_eq_iff (options other : FormattingOptions) (n m : Node) :
    (options.format n = options.format m ↔ n.withoutTrivia = m.withoutTrivia) ∧
      options.format (options.format n) = options.format n ∧
      options.format (other.format n) = options.format n := by
  refine ⟨⟨withoutTrivia_eq_of_format, format_congr⟩, ?_, ?_⟩
  · exact format_congr (withoutTrivia_format n)
  · exact format_congr (withoutTrivia_format n)

/-- An empty line end is a token all the same, and the next layout drops it. -/
example :
    let bare : FormattingOptions := { newLine := "", indentSize := 0 }
    let closed : Node :=
      ⟨.block, [.token (.fixed .semicolonToken), .token (.fixed .closeBraceToken)]⟩
    bare.format closed = ⟨.block, [.token (.fixed .semicolonToken), .token ⟨.endOfLine, ""⟩,
      .token (.fixed .closeBraceToken)]⟩ ∧
      bare.format (bare.format closed) = bare.format closed := by decide

end TreeLint.FormattingOptions
