import TreeLint.Proofs.ShortenedNames

/-!
# Shortening leaves nothing to shorten

A name is cut to the shortest of its ends that stands for its type. The ends of that end are ends of
the whole name, and they were tried before it, so none of them stands for the type.

This is said of the tree as it was. In the new tree names stand in other company: what is around
them has been shortened too. But what opens and imports namespaces has not, and whether a node is a
name that may be shortened is decided by kinds around it and by its index, which a shorter name
keeps. So the nodes of the new tree are gone through beside those of the old one: a name that was
kept had no shorter end and has none now, and a name that was cut has none left.
-/

namespace TreeLint

namespace Dotted

/-! ## The ends of a name -/

/-- The ends of an end are tried before it, and they are all that is. -/
theorem properSuffixes_append (front back : String) : ∃ longer,
    properSuffixes (front ++ "." ++ back) = properSuffixes back ++ back :: longer := by
  obtain ⟨f, hf⟩ : ∃ f, (segments front).length = f + 1 :=
    Nat.exists_eq_succ_of_ne_zero fun h => segments_ne_nil front (List.eq_nil_of_length_eq_zero h)
  have hback := List.length_pos_of_ne_nil (segments_ne_nil back)
  have hcount : (segments front ++ segments back).length - 1 =
      f + 1 + ((segments back).length - 1) := by
    rw [List.length_append, hf]
    omega
  have hself : join ((segments front ++ segments back).drop (f + 1)) = back := by
    rw [List.drop_left' hf, join_segments]
  have hends : ∀ dropped, (segments front ++ segments back).drop (f + 1 + dropped + 1) =
      (segments back).drop (dropped + 1) := by
    intro dropped
    rw [Nat.add_assoc (f + 1), ← List.drop_drop, List.drop_left' hf]
  refine ⟨((List.range f).map fun dropped =>
    join ((segments front ++ segments back).drop (dropped + 1))).reverse, ?_⟩
  simp only [properSuffixes, segments_append, hcount]
  rw [List.range_add, List.map_append, List.map_map, List.reverse_append, List.range_succ,
    List.map_append, List.reverse_append, List.map_singleton, hself]
  simp only [Function.comp_def, hends]
  rfl

/-- The proper suffixes of a name are what is left of it behind its dots. -/
theorem mem_properSuffixes_iff {name suffix : String} :
    suffix ∈ properSuffixes name ↔ ∃ front, name = front ++ "." ++ suffix := by
  refine ⟨front_of_mem_properSuffixes, ?_⟩
  rintro ⟨front, rfl⟩
  obtain ⟨longer, hends⟩ := properSuffixes_append front suffix
  rw [hends]
  exact List.mem_append_right _ List.mem_cons_self

theorem not_mem_properSuffixes (name : String) : name ∉ properSuffixes name := by
  intro h
  obtain ⟨front, heq⟩ := mem_properSuffixes_iff.1 h
  have hlength := congrArg String.length heq
  rw [String.length_append, String.length_append] at hlength
  have hdot : ".".length = 1 := rfl
  omega

end Dotted

namespace Simplify

open TreeLint.Tree (nameShapedAll)

variable {table : SymbolTable}

/-! ## The shortest end -/

/-- A name has no shorter form if none of its ends stands for its type. -/
theorem shorter?_eq_none_iff {dotted : String} {scope : List Node} {asAttribute : Bool} :
    shorter? table dotted scope asAttribute = none ↔
      ∀ front suffix type, dotted = front ++ "." ++ suffix →
        table.resolve? dotted scope asAttribute = some type →
          table.resolve? suffix scope asAttribute ≠ some type := by
  unfold shorter?
  cases hresolve : table.resolve? dotted scope asAttribute with
  | none => simp
  | some type =>
      simp only [List.find?_eq_none, beq_iff_eq, Option.some.injEq]
      constructor
      · rintro h front suffix _ heq rfl
        exact h suffix (Dotted.mem_properSuffixes_iff.2 ⟨front, heq⟩)
      · intro h suffix hmem
        obtain ⟨front, heq⟩ := Dotted.mem_properSuffixes_iff.1 hmem
        exact h front suffix type heq rfl

/-- The shorter form of a name has none itself. -/
theorem shorter?_shorter {dotted shorter : String} {scope : List Node} {asAttribute : Bool}
    (h : shorter? table dotted scope asAttribute = some shorter) :
    shorter? table shorter scope asAttribute = none := by
  unfold shorter? at h
  split at h
  · cases h
  · next type hresolve =>
      have hsame := List.find?_some h
      rw [beq_iff_eq] at hsame
      obtain ⟨front, rfl⟩ := Dotted.front_of_mem_properSuffixes (List.mem_of_find?_eq_some h)
      obtain ⟨longer, hends⟩ := Dotted.properSuffixes_append front shorter
      rw [hends, List.find?_append] at h
      rw [shorter?, hsame]
      simp only
      cases hfound : (Dotted.properSuffixes shorter).find? fun suffix =>
          table.resolve? suffix scope asAttribute == some type with
      | none => rfl
      | some earlier =>
          rw [hfound, Option.some_or, Option.some.injEq] at h
          rw [h] at hfound
          exact absurd (List.mem_of_find?_eq_some hfound) (Dotted.not_mem_properSuffixes shorter)

theorem shorter?_congr {dotted : String} {scope scope' : List Node} {asAttribute : Bool}
    (hscope : List.Forall₂ SameScope scope scope') :
    shorter? table dotted scope asAttribute = shorter? table dotted scope' asAttribute := by
  have hresolve : ∀ name, table.resolve? name scope asAttribute =
      table.resolve? name scope' asAttribute := fun name =>
    SymbolTable.resolve?_congr rfl hscope name asAttribute
  simp only [shorter?, hresolve]

/-! ## Names that are as short as they can be -/

theorem abbreviation?_eq_none_iff {c : Cursor} : abbreviation? table c = none ↔
    ∀ asAttribute dotted, candidate? c = some asAttribute → c.node.dotted? = some dotted →
      shorter? table dotted c.scope asAttribute = none := by
  unfold abbreviation?
  cases candidate? c with
  | none => simp
  | some asAttribute =>
      cases c.node.dotted? with
      | none => simp
      | some dotted =>
          cases hshorter : shorter? table dotted c.scope asAttribute with
          | none => simp [hshorter]
          | some shorter => simp [hshorter]

/-- No name of a tree that may be shortened has an end that stands for the same type in the same
place. -/
def ShortNames (table : SymbolTable) (root : Node) : Prop :=
  ∀ c ∈ (Cursor.ofRoot root).descendants, ∀ asAttribute front suffix type,
    candidate? c = some asAttribute → c.node.dotted? = some (front ++ "." ++ suffix) →
      table.resolve? (front ++ "." ++ suffix) c.scope asAttribute = some type →
        table.resolve? suffix c.scope asAttribute ≠ some type

theorem shortNames_iff {root : Node} :
    ShortNames table root ↔ abbreviations table root = [] := by
  simp only [ShortNames, abbreviations, List.filterMap_eq_nil_iff, abbreviation?_eq_none_iff,
    shorter?_eq_none_iff]
  constructor
  · rintro h c hc asAttribute _ hcandidate hdotted front suffix type rfl
    exact h c hc asAttribute front suffix type hcandidate hdotted
  · intro h c hc asAttribute front suffix type hcandidate hdotted
    exact h c hc asAttribute _ hcandidate hdotted front suffix type rfl

/-- A tree with short names stays what it is. -/
theorem simplifyRoot_of_shortNames {root : Node} (h : ShortNames table root) :
    simplifyRoot table root = root := by
  rw [simplifyRoot, shortNames_iff.1 h]
  rfl

/-! ## The new tree beside the old one -/

/-- A replacement that is of two names is of the kind of the name that it replaces. -/
theorem kind_replacement {a : Abbreviation} {old : Node} (ha : a.kind.isPair = true)
    (h : (replacement a old).kind.isPair = true) : (replacement a old).kind = a.kind := by
  have hnested : ∀ (k : Kind) (segments : List String),
      (Build.nested (Build.pair k) segments).kind.isPair = true →
        (Build.nested (Build.pair k) segments).kind = k := fun k =>
    Build.nested_induction (motive := fun n => n.kind.isPair = true → n.kind = k)
      (fun _ h => by cases h) fun _ _ _ _ => rfl
  by_cases hk : a.kind = .qualifiedName
  · have heq : (replacement a old).kind =
        (Build.nested (Build.pair .qualifiedName) (Dotted.segments a.shorter)).kind := by
      rw [replacement, if_pos hk, Build.name_eq, Node.splice]
    rw [heq] at h ⊢
    rw [hnested _ _ h, hk]
  · have hk' : a.kind = .simpleMemberAccessExpression := by
      simpa [Kind.isPair, hk] using ha
    have heq : (replacement a old).kind = (Build.nested (Build.pair .simpleMemberAccessExpression)
        (Dotted.segments a.shorter)).kind := by
      rw [replacement, if_neg hk, Build.memberAccessChain_eq, Node.splice]
    rw [heq] at h ⊢
    rw [hnested _ _ h, hk']

/-- Nodes at which children stand alike: they have the same kind and so have the nodes around them,
and a name is resolved alike. -/
structure SamePlace (c d : Cursor) : Prop where
  kind : c.kind = d.kind
  parentKind : c.parentKind? = d.parentKind?
  scope : List.Forall₂ SameScope c.scope d.scope

/-- Whether a child is a candidate: its kind, its index, and the kinds of two nodes around it. -/
theorem candidate?_child (c : Cursor) (index start : Nat) (k : Kind) (children : List Tree) :
    candidate? (c.child index start k children) =
      if k = .qualifiedName ∧ c.kind = .simpleBaseType then some false
      else if k = .qualifiedName ∧ c.kind = .attribute then some true
      else if k = .simpleMemberAccessExpression ∧ c.kind = .simpleMemberAccessExpression ∧
          index = 0 ∧ c.parentKind? = some .attributeArgument then some false
      else none := by
  have houter : c.parentKind? = c.above.head?.map fun frame => frame.node.kind := by
    unfold Cursor.parentKind? Cursor.parent?
    cases c.above <;> rfl
  rw [houter]
  rfl

/-- Candidates alike, with one dotted name and resolved alike, are shortened alike. -/
theorem abbreviation?_alike {c d : Cursor} (hkind : c.kind = d.kind)
    (hcandidate : candidate? c = candidate? d)
    (hdotted : c.parentKind? ≠ some .attributeArgument → c.node.dotted? = d.node.dotted?)
    (hscope : List.Forall₂ SameScope c.scope d.scope) :
    (abbreviation? table c).map (fun a => (a.kind, a.shorter)) =
      (abbreviation? table d).map fun a => (a.kind, a.shorter) := by
  unfold abbreviation?
  rw [← hcandidate]
  cases hc : candidate? c with
  | none => rfl
  | some asAttribute =>
      rw [← hdotted (shortenable_of_candidate? hc).parentKind_ne]
      cases c.node.dotted? with
      | none => rfl
      | some dotted =>
          simp only [shorter?_congr hscope]
          cases shorter? table dotted d.scope asAttribute with
          | none => rfl
          | some shorter => simp only [Option.map_some, hkind]

theorem abbreviation?_kept {c d : Cursor} (hkind : c.kind = d.kind)
    (hcandidate : candidate? c = candidate? d)
    (hdotted : c.parentKind? ≠ some .attributeArgument → c.node.dotted? = d.node.dotted?)
    (hscope : List.Forall₂ SameScope c.scope d.scope) (hnone : abbreviation? table c = none) :
    abbreviation? table d = none := by
  have halike : (abbreviation? table c).map (fun a => (a.kind, a.shorter)) = _ :=
    abbreviation?_alike hkind hcandidate hdotted hscope
  rw [hnone] at halike
  exact Option.map_eq_none_iff.1 halike.symm

namespace SamePlace

variable {c d : Cursor} (h : SamePlace c d) {index index' : Nat} (start start' : Nat) (k : Kind)
  (children children' : List Tree)

include h

/-- A child's index matters in the argument of an attribute only. -/
theorem candidate?_eq (hindex : c.kind = .simpleMemberAccessExpression →
      c.parentKind? = some .attributeArgument → (index = 0 ↔ index' = 0)) :
    candidate? (c.child index start k children) =
      candidate? (d.child index' start' k children') := by
  have hreceiver : (c.kind = .simpleMemberAccessExpression ∧ index = 0 ∧
      c.parentKind? = some .attributeArgument) ↔ d.kind = .simpleMemberAccessExpression ∧
        index' = 0 ∧ d.parentKind? = some .attributeArgument := by
    rw [← h.kind, ← h.parentKind]
    constructor
    · rintro ⟨hkind, hzero, hparent⟩
      exact ⟨hkind, (hindex hkind hparent).1 hzero, hparent⟩
    · rintro ⟨hkind, hzero, hparent⟩
      exact ⟨hkind, (hindex hkind hparent).2 hzero, hparent⟩
  simp only [candidate?_child, hreceiver]
  simp only [h.kind]

/-- A name that was cut has no shorter form at the new place. -/
theorem abbreviation?_replacement {a : Abbreviation}
    (ha : abbreviation? table (c.child index start k children) = some a) :
    abbreviation? table (d.child index start' (replacement a ⟨k, children⟩).kind
      (replacement a ⟨k, children⟩).children) = none := by
  obtain ⟨asAttribute, dotted, hcandidate, hdotted, hshorter, hkind, -⟩ :=
    abbreviation?_eq_some_iff.1 ha
  have hshortenable := shortenable_of_candidate? hcandidate
  have hname : (replacement a ⟨k, children⟩).kind.isName = true :=
    (Node.namesOnly_of_dotted (nameShaped_replacement a _) (dotted?_replacement a _)).1
  rw [abbreviation?_eq_none_iff]
  intro asAttribute' shorter hcandidate' hdotted'
  obtain rfl : a.shorter = shorter :=
    Option.some.inj ((dotted?_replacement a ⟨k, children⟩).symm.trans hdotted')
  -- a shorter name that may be shortened is of two names still, so its kind has not changed
  have hpair : (replacement a ⟨k, children⟩).kind.isPair = true :=
    (shortenable_of_candidate? hcandidate').isPair
  have hsame : (replacement a ⟨k, children⟩).kind = k :=
    (kind_replacement (hkind ▸ hshortenable.isPair) hpair).trans hkind
  rw [hsame, ← h.candidate?_eq start start' k children _ fun _ _ => Iff.rfl, hcandidate]
    at hcandidate'
  cases hcandidate'
  have hold : k.isName = true := by
    have hpair : k.isPair = true := hshortenable.isPair
    rw [Kind.isName, hpair, Bool.or_true]
  have hscope : List.Forall₂ SameScope
      (c.child index start k children).scope
      (d.child index start' (replacement a ⟨k, children⟩).kind
        (replacement a ⟨k, children⟩).children).scope :=
    .cons (.of_not_container (Kind.not_container_of_isName hold)
      (Kind.not_container_of_isName hname)) h.scope
  rw [← shorter?_congr hscope]
  exact shorter?_shorter hshorter

end SamePlace

/-- A node that is kept is like it was, apart from the names under it. -/
theorem alike_keptChild (table : SymbolTable) (c d : Cursor) (index start start' : Nat) (k : Kind)
    {children : List Tree} (hs : nameShapedAll children = true) :
    Alike (fun _ => False) (Exchanged table) (c.child index start k children)
      (d.child index start' k
        (shortenFrom table (c.child index start k children) 0 start children)) :=
  ⟨rfl, alike_shortenFrom table _ _ 0 start 0 start' children hs⟩

theorem SamePlace.keptChild {c d : Cursor} (h : SamePlace c d) (table : SymbolTable)
    (index start start' : Nat) (k : Kind) {children : List Tree}
    (hs : nameShapedAll children = true) :
    SamePlace (c.child index start k children) (d.child index start' k
      (shortenFrom table (c.child index start k children) 0 start children)) :=
  have halike := alike_keptChild table c d index start start' k hs
  ⟨rfl, congrArg some h.kind, .cons (halike.sameScope (harmless_exchanged table)) h.scope⟩

/-- Nothing is noted among children whose names have been shortened. -/
theorem abbreviation?_shortenFrom {c d : Cursor} (h : SamePlace c d) (index start start' : Nat)
    {trees : List Tree} (hs : nameShapedAll trees = true) :
    ∀ e ∈ d.nodesFrom index start' (shortenFrom table c index start trees),
      abbreviation? table e = none := by
  match trees with
  | [] => exact fun e he => by simp [shortenFrom] at he
  | .token t :: rest =>
      rw [nameShapedAll, Bool.and_eq_true] at hs
      rw [shortenFrom, shortenOf, Cursor.nodesFrom_token]
      exact abbreviation?_shortenFrom h _ _ _ hs.2
  | .node k children :: rest =>
      rw [nameShapedAll, Bool.and_eq_true] at hs
      have hchildren : nameShapedAll children = true :=
        ((Node.nameShaped_iff ⟨k, children⟩).1 hs.1).2
      rw [shortenFrom, shortenOf]
      split
      · next a ha =>
          obtain ⟨-, -, asAttribute, -, -, hshortenable, -⟩ := abbreviation?_eq_some ha
          obtain ⟨hname, hnames⟩ := Node.namesOnly_of_dotted
            (nameShaped_replacement a ⟨k, children⟩) (dotted?_replacement a ⟨k, children⟩)
          have hparent : (d.child index start' (replacement a ⟨k, children⟩).kind
              (replacement a ⟨k, children⟩).children).parentKind? ≠ some .attributeArgument := by
            have hkind : c.kind ≠ .attributeArgument := fun hk =>
              hshortenable.parentKind_ne (congrArg some hk)
            rw [h.kind] at hkind
            exact fun hk => hkind (Option.some.inj hk)
          rw [Node.toTree, Cursor.nodesFrom_node, Cursor.descendants_eq, List.cons_append,
            List.forall_mem_cons, List.forall_mem_append]
          exact ⟨h.abbreviation?_replacement start start' k children ha,
            fun e he => abbreviation?_eq_none (c := d.child index start' _ _) hname hparent hnames
              he,
            abbreviation?_shortenFrom h _ _ _ hs.2⟩
      · next hnone =>
          have halike := alike_keptChild table c d index start start' k hchildren
          have hplace := h.keptChild table index start start' k hchildren
          rw [Cursor.nodesFrom_node, Cursor.descendants_eq, List.cons_append,
            List.forall_mem_cons, List.forall_mem_append]
          exact ⟨abbreviation?_kept halike.kind
              (h.candidate?_eq start start' k children _ fun _ _ => Iff.rfl)
              (halike.dotted?_eq (harmless_exchanged table)) hplace.scope hnone,
            abbreviation?_shortenFrom hplace 0 start start' hchildren,
            abbreviation?_shortenFrom h _ _ _ hs.2⟩

theorem samePlace_shortenRoot (table : SymbolTable) {root : Node} (hs : root.nameShaped = true) :
    SamePlace (.ofRoot root) (.ofRoot (shortenRoot table root)) := by
  have hchildren : nameShapedAll root.children = true := ((Node.nameShaped_iff root).1 hs).2
  have halike : Alike (fun _ => False) (Exchanged table) (.ofRoot root)
      (.ofRoot (shortenRoot table root)) :=
    ⟨rfl, alike_shortenFrom table (.ofRoot root) (.ofRoot (shortenRoot table root)) 0 0 0 0
      root.children hchildren⟩
  exact ⟨rfl, rfl, .cons (halike.sameScope (harmless_exchanged table)) .nil⟩

/-- Shortening a name-shaped tree leaves it with short names. -/
theorem shortNames_simplifyRoot (table : SymbolTable) {root : Node}
    (hs : root.nameShaped = true) : ShortNames table (simplifyRoot table root) := by
  have hchildren : nameShapedAll root.children = true := ((Node.nameShaped_iff root).1 hs).2
  rw [shortNames_iff, abbreviations, List.filterMap_eq_nil_iff, simplifyRoot_eq table hs,
    Cursor.descendants_eq, List.forall_mem_cons]
  exact ⟨rfl, abbreviation?_shortenFrom (samePlace_shortenRoot table hs) 0 0 0 hchildren⟩

end Simplify

namespace Document

/-- In a document whose names are shortened no name that may be shortened has an end that stands
for the same type, and shortening them again gives the same document. -/
theorem shortNames_simplify (d : Document) (hs : d.root.nameShaped = true) :
    Simplify.ShortNames d.compilation.table d.simplify.root ∧ d.simplify.simplify = d.simplify := by
  have hshort := Simplify.shortNames_simplifyRoot d.compilation.table hs
  refine ⟨hshort, ?_⟩
  have hroot : Simplify.simplifyRoot d.compilation.table d.simplify.root = d.simplify.root :=
    Simplify.simplifyRoot_of_shortNames hshort
  exact congrArg d.withRoot hroot

/-- A base type that keeps one of its namespaces, because its last segment alone is another type. -/
theorem shortNames_simplify_homonym :
    let homonym := Build.typeDeclaration .classDeclaration { name := "T" }
    let space := Build.namespaceDeclaration "A.B"
      [Build.typeDeclaration .classDeclaration { name := "T" }]
    let derived := Build.typeDeclaration .classDeclaration
      { name := "D", attributes := [AttributeTarget.classes.annotation], bases := ["A.B.T"] }
    let root := Build.compilationUnit [Build.usingDirective "A", Build.usingDirective "System"]
      [homonym, space, derived]
    let d : Document := ⟨0, "D.cs", root, .ofTrees .core [root]⟩
    d.root.nameShaped = true ∧
      d.simplify.text = "using A;\nusing System;\nclass T \x7b\x7d\nnamespace A.B " ++
        "\x7b class T \x7b\x7d \x7d\n[AttributeUsage(AttributeTargets.Class)] class D : B.T " ++
        "\x7b\x7d\n" ∧
      Simplify.ShortNames d.compilation.table d.simplify.root ∧
        d.simplify.simplify = d.simplify := by
  intro homonym space derived root d
  have hs : d.root.nameShaped = true := by decide +kernel
  exact ⟨hs, by decide +kernel, shortNames_simplify d hs⟩

end Document

end TreeLint
