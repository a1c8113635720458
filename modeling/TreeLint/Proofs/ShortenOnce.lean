import TreeLint.Proofs.DottedNames

/-!
# Shortening in one pass

Names are shortened one at a time: what to do is noted on the tree as it was, and each note is then
carried out on a tree that has already changed, at the first node that the kind and span of the note
fit. Here that is shown to be the same as one pass over the tree that replaces every name where it
stands.

The induction goes over the children of a node at some place, and the place is what carries it. The
notes of later children are carried out first and change only what is behind the gap, so the gap
still starts where it did; the search then finds the node in the gap and nothing else, because the
tree is name-shaped throughout. A name that is replaced holds no other that could be: everything in
it is a name, and a name directly in another is never a candidate.
-/

namespace TreeLint

/-- The kind of the node around another, if there is one. -/
def Cursor.parentKind? (c : Cursor) : Option Kind := c.parent?.map Cursor.kind

namespace Simplify

open TreeLint.Tree (nameShapedAll)

/-! ## Where names are shortened -/

/-- A node is a name that may be shortened: a qualified name as a base type or as the name of an
attribute, or the receiver of a member access that is an argument of an attribute. -/
inductive Shortenable : (c : Cursor) → (asAttribute : Bool) → Prop where
  | baseType {c entry : Cursor} (hkind : c.kind = .qualifiedName)
      (hparent : c.parent? = some entry) (hentry : entry.kind = .simpleBaseType) :
      Shortenable c false
  | attributeName {c named : Cursor} (hkind : c.kind = .qualifiedName)
      (hparent : c.parent? = some named) (hnamed : named.kind = .attribute) : Shortenable c true
  | receiver {c access argument : Cursor} (hkind : c.kind = .simpleMemberAccessExpression)
      (hindex : c.index = 0) (hparent : c.parent? = some access)
      (haccess : access.kind = .simpleMemberAccessExpression)
      (hargument : access.parent? = some argument) (houter : argument.kind = .attributeArgument) :
      Shortenable c false

theorem shortenable_of_candidate? {c : Cursor} {asAttribute : Bool}
    (h : candidate? c = some asAttribute) : Shortenable c asAttribute := by
  unfold candidate? at h
  split at h
  · cases h
  · next frame outer habove =>
      have hparent : c.parent? = some ⟨frame.node, frame.start, outer⟩ := by
        rw [Cursor.parent?, habove]
      split at h
      · next hk =>
          cases h
          exact .baseType hk.1 hparent hk.2
      · split at h
        · next hk =>
            cases h
            exact .attributeName hk.1 hparent hk.2
        · split at h
          · next hk =>
              cases h
              obtain ⟨hkind, haccess, hindex, houter⟩ := hk
              obtain ⟨argument, hargument, houter⟩ := Option.map_eq_some_iff.1 houter
              obtain ⟨outermost, houtermost⟩ := List.head?_eq_some_iff.1 hargument
              have hindex : c.index = 0 := by
                rw [Cursor.index, habove]
                exact hindex
              have hargument : (⟨frame.node, frame.start, outer⟩ : Cursor).parent? =
                  some ⟨argument.node, argument.start, outermost⟩ := by
                rw [Cursor.parent?, houtermost]
              exact .receiver hkind hindex hparent haccess hargument houter
          · cases h

namespace Shortenable

variable {c parent : Cursor} {asAttribute : Bool}

theorem isPair (h : Shortenable c asAttribute) : c.kind.isPair = true := by
  cases h with
  | baseType hkind _ _ => rw [hkind]; rfl
  | attributeName hkind _ _ => rw [hkind]; rfl
  | receiver hkind _ _ _ _ _ => rw [hkind]; rfl

/-- Nothing that stands in a name may be shortened, unless the name is what an attribute's argument
accesses. -/
theorem parent_not_name (h : Shortenable c asAttribute) (hparent : c.parent? = some parent)
    (hk : parent.kind.isName = true) : parent.parentKind? = some .attributeArgument := by
  cases h with
  | baseType _ hparent' hentry =>
      rw [hparent] at hparent'
      cases hparent'
      rw [hentry] at hk
      cases hk
  | attributeName _ hparent' hnamed =>
      rw [hparent] at hparent'
      cases hparent'
      rw [hnamed] at hk
      cases hk
  | receiver _ _ hparent' _ hargument houter =>
      rw [hparent] at hparent'
      cases hparent'
      rw [Cursor.parentKind?, hargument, Option.map_some, houter]

/-- A name that may be shortened is no argument itself. -/
theorem parentKind_ne (h : Shortenable c asAttribute) :
    c.parentKind? ≠ some .attributeArgument := by
  unfold Cursor.parentKind?
  cases h with
  | baseType _ hparent hentry => rw [hparent, Option.map_some, hentry]; simp
  | attributeName _ hparent hnamed => rw [hparent, Option.map_some, hnamed]; simp
  | receiver _ _ hparent haccess _ _ => rw [hparent, Option.map_some, haccess]; simp

end Shortenable

/-! ## What a note says -/

/-- A node is noted if it is a candidate, has a dotted name, and the name has a shorter form. -/
theorem abbreviation?_eq_some_iff {table : SymbolTable} {c : Cursor} {a : Abbreviation} :
    abbreviation? table c = some a ↔ ∃ asAttribute dotted,
      candidate? c = some asAttribute ∧ c.node.dotted? = some dotted ∧
        shorter? table dotted c.scope asAttribute = some a.shorter ∧
          a.kind = c.kind ∧ a.span = c.fullSpan := by
  unfold abbreviation?
  constructor
  · intro h
    split at h
    · next asAttribute dotted hcandidate hdotted =>
        split at h
        · next shorter hshorter =>
            cases h
            exact ⟨asAttribute, dotted, hcandidate, hdotted, hshorter, rfl, rfl⟩
        · cases h
    · cases h
  · rintro ⟨asAttribute, dotted, hcandidate, hdotted, hshorter, hkind, hspan⟩
    rw [hcandidate, hdotted]
    simp only [hshorter, ← hkind, ← hspan]

/-- What is known of a node that is to be shortened. -/
theorem abbreviation?_eq_some {table : SymbolTable} {c : Cursor} {a : Abbreviation}
    (h : abbreviation? table c = some a) :
    a.kind = c.kind ∧ a.span = c.fullSpan ∧ ∃ asAttribute dotted type,
      Shortenable c asAttribute ∧ c.node.dotted? = some dotted ∧
        a.shorter ∈ Dotted.properSuffixes dotted ∧
          table.resolve? dotted c.scope asAttribute = some type ∧
            table.resolve? a.shorter c.scope asAttribute = some type := by
  obtain ⟨asAttribute, dotted, hcandidate, hdotted, hshorter, hkind, hspan⟩ :=
    abbreviation?_eq_some_iff.1 h
  refine ⟨hkind, hspan, asAttribute, dotted, ?_⟩
  unfold shorter? at hshorter
  split at hshorter
  · cases hshorter
  · next type hresolve =>
      have hsame := List.find?_some hshorter
      rw [beq_iff_eq] at hsame
      exact ⟨type, shortenable_of_candidate? hcandidate, hdotted,
        List.mem_of_find?_eq_some hshorter, hresolve, hsame⟩

/-- Nothing under a name may be shortened. -/
theorem not_shortenable_of_namesOnly {c d : Cursor} {index start : Nat} {trees : List Tree}
    {asAttribute : Bool} (hk : c.kind.isName = true)
    (hparent : c.parentKind? ≠ some .attributeArgument) (hnames : Tree.namesOnlyAll trees = true)
    (hd : d ∈ c.nodesFrom index start trees) : ¬Shortenable d asAttribute := by
  match trees with
  | [] => simp at hd
  | .token t :: rest =>
      rw [Cursor.nodesFrom_token] at hd
      rw [Tree.namesOnlyAll, Bool.and_eq_true] at hnames
      exact not_shortenable_of_namesOnly hk hparent hnames.2 hd
  | .node k children :: rest =>
      rw [Cursor.nodesFrom_node, List.mem_append, Cursor.descendants_eq, List.mem_cons] at hd
      rw [Tree.namesOnlyAll, Tree.namesOnly, Bool.and_eq_true, Bool.and_eq_true] at hnames
      rcases hd with (rfl | hd) | hd
      · intro hshortenable
        exact hparent (hshortenable.parent_not_name rfl hk)
      · have hd : d ∈ (c.child index start k children).nodesFrom 0 start children := hd
        have hchild : (c.child index start k children).kind.isName = true := hnames.1.1
        refine not_shortenable_of_namesOnly hchild (fun h => ?_) hnames.1.2 hd
        have hargument : c.kind = .attributeArgument := Option.some.inj h
        rw [hargument] at hk
        cases hk
      · exact not_shortenable_of_namesOnly hk hparent hnames.2 hd

/-- Nothing under a name is noted. -/
theorem abbreviation?_eq_none {table : SymbolTable} {c d : Cursor} {index start : Nat}
    {trees : List Tree} (hk : c.kind.isName = true)
    (hparent : c.parentKind? ≠ some .attributeArgument) (hnames : Tree.namesOnlyAll trees = true)
    (hd : d ∈ c.nodesFrom index start trees) : abbreviation? table d = none := by
  refine Option.eq_none_iff_forall_ne_some.2 fun a ha => ?_
  obtain ⟨-, -, asAttribute, -, -, hshortenable, -⟩ := abbreviation?_eq_some ha
  exact not_shortenable_of_namesOnly hk hparent hnames hd hshortenable

theorem abbreviations_under {table : SymbolTable} {c : Cursor} {asAttribute : Bool}
    {dotted : String} (hs : c.node.nameShaped = true) (hc : Shortenable c asAttribute)
    (hd : c.node.dotted? = some dotted) :
    (c.nodesFrom 0 c.start c.node.children).filterMap (abbreviation? table) = [] := by
  obtain ⟨hk, hnames⟩ := Node.namesOnly_of_dotted hs hd
  refine List.filterMap_eq_nil_iff.2 fun d hmem => ?_
  exact abbreviation?_eq_none hk hc.parentKind_ne hnames hmem

/-! ## One pass -/

mutual

/-- A child of a node with its names shortened. -/
def shortenOf (table : SymbolTable) (c : Cursor) (index start : Nat) : Tree → Tree
  | .token t => .token t
  | .node k children =>
    match abbreviation? table (c.child index start k children) with
    | some a => (replacement a ⟨k, children⟩).toTree
    | none => .node k (shortenFrom table (c.child index start k children) 0 start children)

/-- Some children of a node with their names shortened. -/
def shortenFrom (table : SymbolTable) (c : Cursor) (index start : Nat) : List Tree → List Tree
  | [] => []
  | t :: rest =>
    shortenOf table c index start t :: shortenFrom table c (index + 1) (start + t.width) rest

end

/-- A tree with its names shortened. A root stands in nothing and stays what it is. -/
def shortenRoot (table : SymbolTable) (root : Node) : Node :=
  ⟨root.kind, shortenFrom table (.ofRoot root) 0 0 root.children⟩

theorem shape_shortenFrom (table : SymbolTable) (c : Cursor) (index start : Nat)
    (trees : List Tree) :
    Tree.shape (shortenFrom table c index start trees) = Tree.shape trees := by
  induction trees generalizing index start with
  | nil => rfl
  | cons t rest ih =>
      cases t with
      | token t => rw [shortenFrom, shortenOf, Tree.shape, Tree.shape, ih]
      | node k children =>
          rw [shortenFrom, shortenOf, Tree.shape]
          split
          · rw [Node.toTree, Tree.shape, ih]
          · rw [Tree.shape, ih]

theorem nameShapedAll_shortenFrom {table : SymbolTable} {c : Cursor} {index start : Nat}
    {trees : List Tree} (hs : nameShapedAll trees = true) :
    nameShapedAll (shortenFrom table c index start trees) = true := by
  match trees with
  | [] => rfl
  | .token t :: rest =>
      rw [nameShapedAll, Bool.and_eq_true] at hs
      rw [shortenFrom, shortenOf, nameShapedAll, Bool.and_eq_true]
      exact ⟨rfl, nameShapedAll_shortenFrom hs.2⟩
  | .node k children :: rest =>
      rw [nameShapedAll, Tree.nameShaped, Bool.and_eq_true, Bool.and_eq_true] at hs
      rw [shortenFrom, shortenOf, nameShapedAll, Bool.and_eq_true]
      refine ⟨?_, nameShapedAll_shortenFrom hs.2⟩
      split
      · exact nameShaped_replacement _ _
      · rw [Tree.nameShaped, shape_shortenFrom, Bool.and_eq_true]
        exact ⟨hs.1.1, nameShapedAll_shortenFrom hs.1.2⟩

theorem applyAbbreviation_fill (p : Place) (n : Node) (a : Abbreviation)
    (hs : (p.fill n).nameShaped = true) (hk : n.kind.isPair = true) (hkind : a.kind = n.kind)
    (hspan : a.span = ⟨p.start, n.width⟩) :
    applyAbbreviation (p.fill n) a = p.fill (replacement a n) := by
  unfold applyAbbreviation
  simp only [hkind, hspan]
  rw [Cursor.find?_place p n hk hs]
  exact p.replaceWith_cursor n _

/-- The tree is name-shaped still when the children behind a node are done. -/
theorem nameShaped_done (table : SymbolTable) (c : Cursor) (index start : Nat) {p : Place}
    {k kind : Kind} {before children rest : List Tree}
    (hs : (p.fill ⟨k, before ++ .node kind children :: rest⟩).nameShaped = true) :
    (Place.fill (⟨k, before, shortenFrom table c index start rest⟩ :: p)
      ⟨kind, children⟩).nameShaped = true := by
  obtain ⟨hnode, hfill⟩ := p.nameShaped_fill _ hs
  refine hfill _ ?_
  rw [Node.nameShaped_iff] at hnode ⊢
  simp only [Gap.fill, Node.toTree, Tree.shape_append, Tree.nameShapedAll_append, Tree.shape,
    nameShapedAll, Bool.and_eq_true, shape_shortenFrom] at hnode ⊢
  exact ⟨hnode.1, hnode.2.1, hnode.2.2.1, nameShapedAll_shortenFrom hnode.2.2.2⟩

/-- The notes on some children of a node at a place, carried out from the last to the first, shorten
their names and change nothing else. -/
theorem foldl_abbreviations (table : SymbolTable) (c : Cursor) (index start : Nat)
    (trees : List Tree) (p : Place) (k : Kind) (before : List Tree)
    (hstart : start = p.start + Tree.widthAll before)
    (hs : (p.fill ⟨k, before ++ trees⟩).nameShaped = true) :
    ((c.nodesFrom index start trees).filterMap (abbreviation? table)).reverse.foldl
      applyAbbreviation (p.fill ⟨k, before ++ trees⟩) =
        p.fill ⟨k, before ++ shortenFrom table c index start trees⟩ := by
  match trees with
  | [] => rfl
  | .token t :: rest =>
      rw [List.append_cons] at hs ⊢
      have hstart' : start + t.width = p.start + Tree.widthAll (before ++ [.token t]) := by
        rw [Tree.widthAll_snoc, Tree.width]
        omega
      have hrest := foldl_abbreviations table c (index + 1) (start + t.width) rest p k
        (before ++ [.token t]) hstart' hs
      rw [Cursor.nodesFrom_token, hrest, shortenFrom, shortenOf, ← List.append_cons]
      rfl
  | .node kind children :: rest =>
      have hstart' : start + Tree.widthAll children =
          p.start + Tree.widthAll (before ++ [.node kind children]) := by
        rw [Tree.widthAll_snoc, Tree.width]
        omega
      have hrest := foldl_abbreviations table c (index + 1) (start + Tree.widthAll children) rest
        p k (before ++ [.node kind children]) hstart' (by rwa [← List.append_cons])
      rw [← List.append_cons, ← List.append_cons] at hrest
      have hq := nameShaped_done table c (index + 1) (start + Tree.widthAll children) hs
      generalize hdone : shortenFrom table c (index + 1) (start + Tree.widthAll children) rest =
        done at hrest hq
      rw [Cursor.nodesFrom_node, List.filterMap_append, List.reverse_append, List.foldl_append,
        hrest, Cursor.descendants_eq, List.filterMap_cons, shortenFrom, shortenOf, Tree.width,
        hdone]
      split
      · next hnone =>
          have hunder := foldl_abbreviations table (c.child index start kind children) 0 start
            children (⟨k, before, done⟩ :: p) kind [] hstart hq
          rw [hnone]
          exact hunder
      · next a hsome =>
          obtain ⟨hkind, hspan, asAttribute, dotted, type, hshortenable, hdotted, -⟩ :=
            abbreviation?_eq_some hsome
          have hchild := (Place.nameShaped_fill _ _ hq).1
          rw [abbreviations_under hchild hshortenable hdotted, hsome]
          refine applyAbbreviation_fill (⟨k, before, done⟩ :: p) ⟨kind, children⟩ a hq
            hshortenable.isPair hkind ?_
          rw [hspan, Place.start, ← hstart]
          rfl

/-- Carrying out the notes one by one is shortening all names in one pass. -/
theorem simplifyRoot_eq (table : SymbolTable) {root : Node} (hs : root.nameShaped = true) :
    simplifyRoot table root = shortenRoot table root := by
  have hroot : abbreviation? table (.ofRoot root) = none := rfl
  have hfold := foldl_abbreviations table (.ofRoot root) 0 0 root.children [] root.kind [] rfl hs
  rw [simplifyRoot, abbreviations, Cursor.descendants_eq, List.filterMap_cons, hroot]
  exact hfold

theorem nameShaped_simplifyRoot (table : SymbolTable) {root : Node} (hs : root.nameShaped = true) :
    (simplifyRoot table root).nameShaped = true := by
  rw [simplifyRoot_eq table hs, shortenRoot]
  rw [Node.nameShaped_iff] at hs ⊢
  rw [shape_shortenFrom]
  exact ⟨hs.1, nameShapedAll_shortenFrom hs.2⟩

end Simplify

end TreeLint
