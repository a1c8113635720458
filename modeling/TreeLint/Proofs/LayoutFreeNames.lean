import TreeLint.Proofs.LayoutTrivia
import TreeLint.Proofs.ShortestNames

/-!
# Shortening and layout

What a name spells and what it stands for where it stands is read past trivia, and so is most of
what makes a node a name that may be shortened. Only the receiver of a member access is told by its
index, and trivia in front of it counts: with trivia as the first child of the access, the receiver
is left alone.

So trees that differ in trivia alone are shortened alike as long as the accesses that are arguments
of attributes start with trivia in both or in neither. The induction goes over both trees at once.
Trivia on one side moves the index on that side only, and what survives that is which of the two
lists of children still has its first node at index zero.
-/

namespace TreeLint

open TreeLint.Tree (withoutTriviaAll)

/-! ## Trees that differ in trivia alone -/

/-- Whether the first of some trees is trivia. -/
def startsWithTrivia : List Tree → Bool
  | .token t :: _ => t.kind.isTrivia
  | _ => false

theorem withoutTriviaAll_cons {t : Tree} {rest : List Tree}
    (h : startsWithTrivia (t :: rest) = false) :
    withoutTriviaAll (t :: rest) = t.withoutTrivia :: withoutTriviaAll rest := by
  cases t with
  | token t =>
      rw [startsWithTrivia] at h
      rw [withoutTriviaAll, h, if_neg Bool.false_ne_true, Tree.withoutTrivia]
  | node k children => rw [withoutTriviaAll]

/-- Trees that are the same but for trivia. -/
inductive ButTrivia : List Tree → List Tree → Prop where
  | nil : ButTrivia [] []
  | left {t : Token} {trees trees' : List Tree} (h : t.kind.isTrivia = true)
      (rest : ButTrivia trees trees') : ButTrivia (.token t :: trees) trees'
  | right {t : Token} {trees trees' : List Tree} (h : t.kind.isTrivia = true)
      (rest : ButTrivia trees trees') : ButTrivia trees (.token t :: trees')
  | token (t : Token) {trees trees' : List Tree} (rest : ButTrivia trees trees') :
      ButTrivia (.token t :: trees) (.token t :: trees')
  | node (k : Kind) {children children' trees trees' : List Tree}
      (under : ButTrivia children children') (rest : ButTrivia trees trees') :
      ButTrivia (.node k children :: trees) (.node k children' :: trees')

namespace ButTrivia

theorem of_eq (trees trees' : List Tree) (h : withoutTriviaAll trees = withoutTriviaAll trees') :
    ButTrivia trees trees' := by
  cases hleft : startsWithTrivia trees with
  | true =>
      match trees with
      | .token t :: rest =>
          rw [Tree.withoutTriviaAll_trivia hleft] at h
          exact .left hleft (of_eq rest trees' h)
  | false =>
      cases hright : startsWithTrivia trees' with
      | true =>
          match trees' with
          | .token u :: rest' =>
              rw [Tree.withoutTriviaAll_trivia hright] at h
              exact .right hright (of_eq trees rest' h)
      | false =>
          match trees, trees' with
          | [], [] => exact .nil
          | [], u :: rest' =>
              rw [withoutTriviaAll_cons hright] at h
              cases h
          | t :: rest, [] =>
              rw [withoutTriviaAll_cons hleft] at h
              cases h
          | .token t :: rest, .token u :: rest' =>
              rw [withoutTriviaAll_cons hleft, withoutTriviaAll_cons hright, List.cons.injEq] at h
              cases h.1
              exact .token t (of_eq rest rest' h.2)
          | .node k children :: rest, .node k' children' :: rest' =>
              rw [withoutTriviaAll_cons hleft, withoutTriviaAll_cons hright, List.cons.injEq,
                Tree.withoutTrivia, Tree.withoutTrivia, Tree.node.injEq] at h
              rw [h.1.1]
              exact .node k' (of_eq children children' h.1.2) (of_eq rest rest' h.2)
          | .token t :: rest, .node k' children' :: rest' =>
              rw [withoutTriviaAll_cons hleft, withoutTriviaAll_cons hright] at h
              cases h
          | .node k children :: rest, .token u :: rest' =>
              rw [withoutTriviaAll_cons hleft, withoutTriviaAll_cons hright] at h
              cases h
termination_by sizeOf trees + sizeOf trees'

variable {trees trees' : List Tree}

theorem alike (h : ButTrivia trees trees') (c d : Cursor) (index start index' start' : Nat) :
    AlikeButTrivia (c.elementsFrom index start trees) (d.elementsFrom index' start' trees') := by
  induction h generalizing c d index start index' start' with
  | nil => exact .nil
  | left h _ ih => exact .dropped h (ih c d _ _ _ _)
  | right h _ ih => exact .added h (ih c d _ _ _ _)
  | token t _ ih => exact .token rfl (ih c d _ _ _ _)
  | node k _ _ hunder ih => exact .kept rfl (hunder _ _ 0 start 0 start') (ih c d _ _ _ _)

theorem length_nodesFrom (h : ButTrivia trees trees') (c d : Cursor)
    (index start index' start' : Nat) :
    (c.nodesFrom index start trees).length = (d.nodesFrom index' start' trees').length := by
  induction h generalizing c d index start index' start' with
  | nil => rfl
  | left _ _ ih => exact ih c d _ _ _ _
  | right _ _ ih => exact ih c d _ _ _ _
  | token _ _ ih => exact ih c d _ _ _ _
  | node k _ _ hunder ih =>
      rw [Cursor.nodesFrom_node, Cursor.nodesFrom_node, List.length_append, List.length_append,
        Cursor.descendants_eq, Cursor.descendants_eq, List.length_cons, List.length_cons]
      exact congrArg₂ (· + 1 + ·) (hunder _ _ 0 start 0 start') (ih c d _ _ _ _)

end ButTrivia

/-! ## Where the first node stands -/

/-- Whether some children, the first of them at an index, start with what is the first child. -/
def leads (index : Nat) (trees : List Tree) : Bool := index == 0 && !startsWithTrivia trees

theorem leads_trivia {t : Token} (h : t.kind.isTrivia = true) (index : Nat) (rest : List Tree) :
    leads index (.token t :: rest) = false := by
  rw [leads, startsWithTrivia, h, Bool.not_true, Bool.and_false]

theorem leads_succ (index : Nat) (trees : List Tree) : leads (index + 1) trees = false := rfl

theorem leads_node (index : Nat) (k : Kind) (children rest : List Tree) :
    leads index (.node k children :: rest) = (index == 0) := by
  have hstarts : startsWithTrivia (.node k children :: rest) = false := rfl
  rw [leads, hstarts, Bool.not_false, Bool.and_true]

/-- Whether a node is a member access that is the argument of an attribute and starts with trivia
of its own. -/
def Cursor.spacedArgument (c : Cursor) : Bool :=
  c.kind == .simpleMemberAccessExpression && c.parentKind? == some .attributeArgument &&
    startsWithTrivia c.node.children

/-- Trees in which the same arguments of attributes start with trivia, node by node. -/
def SpacedAlike (n m : Node) : Prop :=
  (Cursor.ofRoot n).descendants.map Cursor.spacedArgument =
    (Cursor.ofRoot m).descendants.map Cursor.spacedArgument

instance (n m : Node) : Decidable (SpacedAlike n m) := inferInstanceAs (Decidable (_ = _))

namespace Simplify

variable {table : SymbolTable}

theorem withoutTriviaAll_lead (lead : List Token) (h : ∀ t ∈ lead, t.kind.isTrivia = true)
    (trees : List Tree) :
    withoutTriviaAll (lead.map Tree.token ++ trees) = withoutTriviaAll trees := by
  induction lead with
  | nil => rfl
  | cons t rest ih =>
      rw [List.map_cons, List.cons_append,
        Tree.withoutTriviaAll_trivia (h t List.mem_cons_self)]
      exact ih fun u hu => h u (List.mem_cons_of_mem _ hu)

/-- But for trivia a replacement is built from the kind and the shorter name alone. -/
theorem withoutTrivia_replacement {a b : Abbreviation} (hkind : a.kind = b.kind)
    (hshorter : a.shorter = b.shorter) (old old' : Node) :
    (replacement a old).toTree.withoutTrivia = (replacement b old').toTree.withoutTrivia := by
  have hlead : ∀ n : Node, ∀ t ∈ leadingTokens n, t.kind.isTrivia = true := fun _ _ =>
    isTrivia_of_mem_leadingTokens
  simp only [replacement, Node.splice, Node.toTree, Tree.withoutTrivia, leadingTrivia, hkind,
    hshorter, List.take_zero, List.nil_append, List.drop_zero]
  have hbare : ∀ (n : Node) (trees : List Tree),
      withoutTriviaAll ((n.tokens.takeWhile fun t => t.kind.isTrivia).map Tree.token ++ trees) =
        withoutTriviaAll trees := fun n => withoutTriviaAll_lead _ (hlead n)
  rw [hbare, hbare]

/-! ## Both trees at once -/

theorem SamePlace.leads_children {c d : Cursor} (h : SamePlace c d)
    (hspaced : c.spacedArgument = d.spacedArgument)
    (hkind : c.kind = .simpleMemberAccessExpression)
    (hparent : c.parentKind? = some .attributeArgument) :
    leads 0 c.node.children = leads 0 d.node.children := by
  rw [Cursor.spacedArgument, Cursor.spacedArgument, ← h.kind, ← h.parentKind, hkind, hparent,
    beq_self_eq_true, beq_self_eq_true, Bool.and_self, Bool.true_and, Bool.true_and] at hspaced
  rw [leads, leads, hspaced]

theorem shortenFrom_token (c : Cursor) (index start : Nat) (t : Token) (rest : List Tree) :
    shortenFrom table c index start (.token t :: rest) =
      .token t :: shortenFrom table c (index + 1) (start + t.width) rest := by
  rw [shortenFrom, shortenOf, Tree.width]

/-- Children that differ in trivia alone do so when their names are shortened. -/
theorem withoutTriviaAll_shortenFrom {c d : Cursor} (h : SamePlace c d) {trees trees' : List Tree}
    (hbut : ButTrivia trees trees') (index start index' start' : Nat)
    (hleads : c.kind = .simpleMemberAccessExpression → c.parentKind? = some .attributeArgument →
      leads index trees = leads index' trees')
    (hspaced : (c.nodesFrom index start trees).map Cursor.spacedArgument =
      (d.nodesFrom index' start' trees').map Cursor.spacedArgument) :
    withoutTriviaAll (shortenFrom table c index start trees) =
      withoutTriviaAll (shortenFrom table d index' start' trees') := by
  induction hbut generalizing c d index start index' start' with
  | nil => rfl
  | left ht _ ih =>
      rw [shortenFrom_token, Tree.withoutTriviaAll_trivia ht]
      refine ih h _ _ _ _ (fun hkind hparent => ?_) hspaced
      rw [leads_succ, ← hleads hkind hparent, leads_trivia ht]
  | right ht _ ih =>
      rw [shortenFrom_token, Tree.withoutTriviaAll_trivia ht]
      refine ih h _ _ _ _ (fun hkind hparent => ?_) hspaced
      rw [leads_succ, hleads hkind hparent, leads_trivia ht]
  | token t _ ih =>
      rw [Cursor.nodesFrom_token, Cursor.nodesFrom_token] at hspaced
      rw [shortenFrom_token, shortenFrom_token, withoutTriviaAll, withoutTriviaAll,
        ih h _ _ _ _ (fun _ _ => rfl) hspaced]
  | @node k children children' rest rest' under _ hunder ih =>
      have halike : Alike (fun e => e.isTrivia = true) (fun _ _ => False)
          (c.child index start k children) (d.child index' start' k children') :=
        ⟨rfl, under.alike _ _ 0 start 0 start'⟩
      have hplace : SamePlace (c.child index start k children)
          (d.child index' start' k children') :=
        ⟨rfl, congrArg some h.kind, .cons (halike.sameScope harmless_trivia) h.scope⟩
      have hcandidate : candidate? (c.child index start k children) =
          candidate? (d.child index' start' k children') := by
        refine h.candidate?_eq start start' k children children' fun hkind hparent => ?_
        have hzero := hleads hkind hparent
        rw [leads_node, leads_node] at hzero
        simpa using hzero
      have hshorter : (abbreviation? table (c.child index start k children)).map
          (fun a => (a.kind, a.shorter)) = _ :=
        abbreviation?_alike halike.kind hcandidate (halike.dotted?_eq harmless_trivia)
          hplace.scope
      rw [Cursor.nodesFrom_node, Cursor.nodesFrom_node, List.map_append, List.map_append] at hspaced
      obtain ⟨hself, hbehind⟩ := List.append_inj hspaced (by
        rw [List.length_map, List.length_map, Cursor.descendants_eq, Cursor.descendants_eq,
          List.length_cons, List.length_cons]
        exact congrArg (· + 1) (under.length_nodesFrom _ _ 0 start 0 start'))
      rw [Cursor.descendants_eq, Cursor.descendants_eq, List.map_cons, List.map_cons,
        List.cons.injEq] at hself
      have hrest := ih h _ _ _ _ (fun _ _ => rfl) hbehind
      have hchildren := hunder hplace 0 start 0 start' (hplace.leads_children hself.1) hself.2
      rw [shortenFrom, shortenFrom, shortenOf, shortenOf]
      cases ha : abbreviation? table (c.child index start k children) with
      | none =>
          rw [ha] at hshorter
          rw [Option.map_eq_none_iff.1 hshorter.symm]
          simp only [withoutTriviaAll, Tree.withoutTrivia, hchildren]
          exact congrArg _ hrest
      | some a =>
          rw [ha] at hshorter
          obtain ⟨b, hb, hsame⟩ := Option.map_eq_some_iff.1 hshorter.symm
          rw [Prod.mk.injEq] at hsame
          rw [hb]
          have hname := withoutTrivia_replacement hsame.1.symm hsame.2.symm ⟨k, children⟩
            ⟨k, children'⟩
          exact congrArg₂ List.cons hname hrest

/-- Trees that differ in trivia alone do so when their names are shortened, if the same arguments
of attributes start with trivia. -/
theorem withoutTrivia_simplifyRoot {n m : Node} (hs : n.nameShaped = true)
    (h : n.withoutTrivia = m.withoutTrivia) (hspaced : SpacedAlike n m) :
    (simplifyRoot table n).withoutTrivia = (simplifyRoot table m).withoutTrivia := by
  have hs' : m.nameShaped = true := by
    rw [← Node.nameShaped_withoutTrivia, ← h, Node.nameShaped_withoutTrivia, hs]
  rw [Node.withoutTrivia, Node.withoutTrivia, Node.mk.injEq] at h
  have hbut := ButTrivia.of_eq n.children m.children h.2
  have halike : Alike (fun e => e.isTrivia = true) (fun _ _ => False) (.ofRoot n) (.ofRoot m) :=
    ⟨h.1, hbut.alike _ _ 0 0 0 0⟩
  have hplace : SamePlace (.ofRoot n) (.ofRoot m) :=
    ⟨h.1, rfl, .cons (halike.sameScope harmless_trivia) .nil⟩
  rw [SpacedAlike, Cursor.descendants_eq, Cursor.descendants_eq, List.map_cons, List.map_cons,
    List.cons.injEq] at hspaced
  have hchildren : withoutTriviaAll (shortenFrom table (.ofRoot n) 0 0 n.children) =
      withoutTriviaAll (shortenFrom table (.ofRoot m) 0 0 m.children) :=
    withoutTriviaAll_shortenFrom hplace hbut 0 0 0 0 (hplace.leads_children hspaced.1) hspaced.2
  rw [simplifyRoot_eq table hs, simplifyRoot_eq table hs', shortenRoot, shortenRoot,
    Node.withoutTrivia, Node.withoutTrivia, hchildren, h.1]

end Simplify

namespace Document

/-- Shortening names does not depend on layout, apart from trivia that an argument of an attribute
starts with: documents of one compilation whose trees differ in other trivia alone are shortened to
trees that differ in trivia alone. -/
theorem withoutTrivia_simplify {d d' : Document} (hcompilation : d.compilation = d'.compilation)
    (hs : d.root.nameShaped = true) (hsame : d.root.withoutTrivia = d'.root.withoutTrivia)
    (hspaced : SpacedAlike d.root d'.root) :
    d.simplify.root.withoutTrivia = d'.simplify.root.withoutTrivia := by
  have hroots : (Simplify.simplifyRoot d.compilation.table d.root).withoutTrivia =
      (Simplify.simplifyRoot d.compilation.table d'.root).withoutTrivia :=
    Simplify.withoutTrivia_simplifyRoot hs hsame hspaced
  rw [hcompilation] at hroots
  rw [simplify, simplify, hcompilation]
  exact hroots

/-- A tree and its layout: the annotation goes to a line of its own in one of them. -/
theorem withoutTrivia_simplify_format :
    let root := Build.compilationUnit [Build.usingDirective "System"]
      [Build.typeDeclaration .classDeclaration
        { name := "Foo", attributes := [AttributeTarget.classes.annotation],
          bases := ["System.Attribute"] }]
    let laidOut := ({} : FormattingOptions).format root
    let d : Document := ⟨0, "Foo.cs", root, .ofTrees .core [root]⟩
    let d' := d.withRoot laidOut
    d.compilation = d'.compilation ∧ d.root.nameShaped = true ∧
      d.root.withoutTrivia = d'.root.withoutTrivia ∧ SpacedAlike d.root d'.root ∧
      d.simplify.root ≠ d'.simplify.root ∧
        d.simplify.root.withoutTrivia = d'.simplify.root.withoutTrivia := by
  intro root laidOut d d'
  have hs : d.root.nameShaped = true := by decide +kernel
  have hsame : d.root.withoutTrivia = d'.root.withoutTrivia := by decide +kernel
  have hspaced : SpacedAlike d.root d'.root := by decide +kernel
  have hne : d.simplify.root ≠ d'.simplify.root := by decide +kernel
  exact ⟨rfl, hs, hsame, hspaced, hne, withoutTrivia_simplify rfl hs hsame hspaced⟩

/-- A blank as the first child of an attribute's argument: the receiver behind it is the second
child and is left alone, while the same receiver without the blank is shortened. -/
theorem withoutTrivia_simplify_ne_of_blank :
    let access := Build.memberAccess (Build.memberAccessChain "System.AttributeTargets") "Class"
    let spaced : Node := ⟨access.kind, Build.space :: access.children⟩
    let unit := fun argument : Node => Build.compilationUnit [Build.usingDirective "System"]
      [Build.typeDeclaration .classDeclaration
        { name := "Foo", attributes := [Build.attributeList
            [Build.attributeOf (Build.name "System.AttributeUsage")
              (some (Build.attributeArgumentList [Build.attributeArgument argument]))]],
          bases := ["System.Attribute"] }]
    let compilation := Compilation.ofTrees .core [unit access, unit spaced]
    let d : Document := ⟨0, "document0.cs", unit access, compilation⟩
    let d' : Document := ⟨1, "document1.cs", unit spaced, compilation⟩
    d.compilation = d'.compilation ∧ d.root.nameShaped = true ∧ d'.root.nameShaped = true ∧
      d.root.withoutTrivia = d'.root.withoutTrivia ∧
        d.simplify.root.withoutTrivia ≠ d'.simplify.root.withoutTrivia := by
  decide +kernel

end Document

end TreeLint
