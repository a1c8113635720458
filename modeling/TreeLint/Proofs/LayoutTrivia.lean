import TreeLint.Layout
import TreeLint.Proofs.Likeness

/-!
# Layout changes trivia alone

A tree and its layout are alike with nothing exchanged and nothing extra but trivia: layout drops
every trivia token, keeps every other token and every node, and puts trivia of its own in front of
what it keeps. Which trivia that is does not matter here, so the induction is over a rebuilding with
any separators, too few or too many of them as well.

Trees that are alike in this way are one tree without their trivia, and that tree decides whether
names are well-shaped.
-/

namespace TreeLint

namespace Element

/-- Whether an element is a token that is trivia. -/
def isTrivia : Element → Bool
  | .node _ => false
  | .token t => t.isTrivia

end Element

/-- Two lists of elements that differ in trivia alone. -/
abbrev AlikeButTrivia (old new : List Element) : Prop :=
  AlikeAll (fun e => e.isTrivia = true) (fun _ _ => False) old new

theorem harmless_trivia : Harmless (fun e => e.isTrivia = true) (fun _ _ => False) where
  trivia := fun _ h => h
  attributeList := fun _ h => by cases h
  shortenable := fun _ _ h => h.elim

namespace Tree

theorem withoutTriviaAll_trivia {t : Token} (h : t.kind.isTrivia = true) (rest : List Tree) :
    withoutTriviaAll (.token t :: rest) = withoutTriviaAll rest := by
  rw [withoutTriviaAll, if_pos h]

end Tree

theorem AlikeAll.withoutTriviaAll_eq {old new : List Element} (h : AlikeButTrivia old new) :
    Tree.withoutTriviaAll (old.map Element.tree) =
      Tree.withoutTriviaAll (new.map Element.tree) := by
  have hextra : ∀ (e : Element) (es : List Element), e.isTrivia = true →
      Tree.withoutTriviaAll ((e :: es).map Element.tree) =
        Tree.withoutTriviaAll (es.map Element.tree) := by
    intro e es he
    cases e with
    | node c => cases he
    | token t => exact Tree.withoutTriviaAll_trivia he _
  induction h with
  | nil => rfl
  | @token t u _ _ h _ ih =>
      rw [List.map_cons, List.map_cons, Element.tree, Element.tree, h]
      rw [Tree.withoutTriviaAll, Tree.withoutTriviaAll, ih]
  | @kept c d _ _ hkind _ _ hunder ih =>
      rw [Cursor.elements, Cursor.elements, Cursor.map_tree_elementsFrom,
        Cursor.map_tree_elementsFrom] at hunder
      have hkind : c.node.kind = d.node.kind := hkind
      rw [List.map_cons, List.map_cons, Element.tree, Element.tree, Node.toTree, Node.toTree]
      rw [Tree.withoutTriviaAll, Tree.withoutTriviaAll, Tree.withoutTrivia, Tree.withoutTrivia,
        hkind, hunder, ih]
  | swapped h _ _ => exact h.elim
  | dropped h _ ih => rw [hextra _ _ h, ih]
  | added h _ ih => rw [hextra _ _ h, ih]

/-! ## Names without trivia -/

namespace Tree

theorem shape_withoutTriviaAll (trees : List Tree) :
    shape (withoutTriviaAll trees) = shape trees := by
  induction trees with
  | nil => rfl
  | cons t rest ih =>
      cases t with
      | token t =>
          rw [withoutTriviaAll, shape]
          split
          · exact ih
          · next h => rw [shape, if_neg h, ih]
      | node k children => rw [withoutTriviaAll, withoutTrivia, shape, shape, ih]

theorem nameShapedAll_withoutTriviaAll (trees : List Tree) :
    nameShapedAll (withoutTriviaAll trees) = nameShapedAll trees := by
  match trees with
  | [] => rfl
  | .token t :: rest =>
      rw [withoutTriviaAll, nameShapedAll, nameShaped, Bool.true_and,
        ← nameShapedAll_withoutTriviaAll rest]
      split
      · rfl
      · rw [nameShapedAll, nameShaped, Bool.true_and]
  | .node k children :: rest =>
      rw [withoutTriviaAll, withoutTrivia, nameShapedAll, nameShaped, nameShapedAll, nameShaped,
        shape_withoutTriviaAll, nameShapedAll_withoutTriviaAll children,
        nameShapedAll_withoutTriviaAll rest]

end Tree

/-- Whether names are well-shaped is a matter of the tree without its trivia. -/
theorem Node.nameShaped_withoutTrivia (n : Node) : n.withoutTrivia.nameShaped = n.nameShaped := by
  rw [Node.nameShaped, Node.nameShaped, Node.toTree, Node.toTree, Tree.nameShaped,
    Tree.nameShaped]
  simp only [Node.withoutTrivia, Tree.shape_withoutTriviaAll, Tree.nameShapedAll_withoutTriviaAll]

namespace FormattingOptions

variable {options : FormattingOptions}

theorem isTrivia_of_mem_trivia {separator : Separator} {t : Tree}
    (h : t ∈ options.trivia separator) : ∃ token : Token, t = .token token ∧
      token.kind.isTrivia = true := by
  cases separator with
  | nothing => cases h
  | space =>
      rw [trivia, List.mem_singleton] at h
      exact ⟨_, h, rfl⟩
  | line depth =>
      rw [trivia, List.mem_cons] at h
      rcases h with h | h
      · exact ⟨_, h, rfl⟩
      · split at h
        · cases h
        · exact ⟨_, List.mem_singleton.1 h, rfl⟩

theorem alike_trivia {old : List Element} {d : Cursor} {trees rest : List Tree}
    (htrivia : ∀ t ∈ trees, ∃ token : Token, t = .token token ∧ token.kind.isTrivia = true)
    (hrest : ∀ index start, AlikeButTrivia old (d.elementsFrom index start rest))
    (index start : Nat) :
    AlikeButTrivia old (d.elementsFrom index start (trees ++ rest)) := by
  induction trees generalizing index start with
  | nil => exact hrest index start
  | cons t others ih =>
      obtain ⟨⟨token, rfl, htoken⟩, hothers⟩ := List.forall_mem_cons.1 htrivia
      exact .added htoken (ih hothers _ _)

theorem rebuildAll_trivia {t : Token} (h : t.kind.isTrivia = true) (separators : List Separator)
    (rest : List Tree) :
    rebuildAll options separators (.token t :: rest) = rebuildAll options separators rest := by
  rw [rebuildAll, rebuild, if_pos h]
  rfl

theorem rebuildAll_token {t : Token} (h : ¬ t.kind.isTrivia = true) (separators : List Separator)
    (rest : List Tree) :
    rebuildAll options separators (.token t :: rest) =
      (separators.head?.toList.flatMap options.trivia ++
          .token t :: (rebuildAll options separators.tail rest).1,
        (rebuildAll options separators.tail rest).2) := by
  rw [rebuildAll, rebuild, if_neg h]
  simp only [List.append_assoc, List.singleton_append]

theorem rebuildAll_node (separators : List Separator) (k : Kind) (children rest : List Tree) :
    rebuildAll options separators (.node k children :: rest) =
      (.node k (rebuildAll options separators children).1 ::
          (rebuildAll options (rebuildAll options separators children).2 rest).1,
        (rebuildAll options (rebuildAll options separators children).2 rest).2) := by
  rw [rebuildAll, rebuild]
  rfl

theorem alike_rebuildAll (separators : List Separator) (c d : Cursor) (trees : List Tree)
    (index start index' start' : Nat) :
    AlikeButTrivia (c.elementsFrom index start trees)
      (d.elementsFrom index' start' (rebuildAll options separators trees).1) := by
  match trees with
  | [] => exact .nil
  | .token t :: rest =>
      by_cases h : t.kind.isTrivia = true
      · rw [rebuildAll_trivia h]
        exact .dropped h (alike_rebuildAll separators c d rest _ _ _ _)
      · rw [rebuildAll_token h]
        refine alike_trivia (fun u hu => ?_) (fun index' start' => ?_) _ _
        · obtain ⟨separator, -, hu⟩ := List.mem_flatMap.1 hu
          exact isTrivia_of_mem_trivia hu
        · exact .token rfl (alike_rebuildAll _ c d rest _ _ _ _)
  | .node k children :: rest =>
      rw [rebuildAll_node]
      exact .kept rfl (alike_rebuildAll separators _ _ children 0 start 0 start')
        (alike_rebuildAll _ c d rest _ _ _ _)

/-- A tree and its layout are alike but for trivia. -/
theorem alike_format (options : FormattingOptions) (n : Node) :
    Alike (fun e => e.isTrivia = true) (fun _ _ => False) (.ofRoot n)
      (.ofRoot (options.format n)) :=
  ⟨rfl, alike_rebuildAll _ (.ofRoot n) (.ofRoot (options.format n)) n.children 0 0 0 0⟩

theorem withoutTrivia_format (n : Node) :
    (options.format n).withoutTrivia = n.withoutTrivia := by
  have h := (alike_format options n).under.withoutTriviaAll_eq
  rw [Cursor.elements, Cursor.elements, Cursor.map_tree_elementsFrom,
    Cursor.map_tree_elementsFrom] at h
  rw [Node.withoutTrivia, Node.withoutTrivia]
  exact congrArg (Node.mk n.kind) h.symm

theorem nameShaped_format (n : Node) : (options.format n).nameShaped = n.nameShaped := by
  rw [← Node.nameShaped_withoutTrivia, withoutTrivia_format, Node.nameShaped_withoutTrivia]

end FormattingOptions

end TreeLint
