import TreeLint.Proofs.DocumentOrder
import TreeLint.Proofs.Replacement
import TreeLint.Proofs.ShortestNames

/-!
# The types of shortened receivers

What an argument of an attribute accesses is an expression, and its type is that of a local declared
under its name, or else the type of that name. Shortening looks only at the latter: the shorter name
is chosen among those that stand for the same type, whatever locals there are.

So a shortened receiver has its type still unless one of its two names, the old or the new one, is
that of a local; if one is, the types are what the locals make of them. Receivers whose names are
kept have their types in any case.

The receivers of the new tree are found by their paths. A name is shortened where it stands, so no
index on the way to another one changes, and what is under a shortened name is no receiver.
-/

namespace TreeLint

/-! ## The type of a name -/

namespace Compilation

variable (compilation : Compilation) {c d : Cursor}

/-- The type of a name is that of the local, and where there is none, what it resolves to. -/
theorem typeOf?_of_resolve? {dotted : String} {type : TypeId}
    (hk : c.kind = .identifierName ∨ c.kind = .simpleMemberAccessExpression)
    (hdotted : c.node.dotted? = some dotted)
    (hresolve : compilation.table.resolve? dotted c.scope false = some type) :
    compilation.typeOf? c = some ((compilation.local? dotted).getD type) := by
  unfold typeOf?
  rcases hk with hk | hk
  · simp only [hk, hdotted, hresolve]
    cases compilation.local? dotted <;> rfl
  · simp only [hk, hdotted, hresolve]
    cases compilation.local? dotted <;> rfl

/-- Names that are equal and resolved alike have the same type. -/
theorem typeOf?_congr (hkind : c.kind = d.kind) (hdotted : c.node.dotted? = d.node.dotted?)
    (hscope : List.Forall₂ SameScope c.scope d.scope) :
    compilation.typeOf? c = compilation.typeOf? d := by
  have hresolve : ∀ dotted, compilation.table.resolve? dotted c.scope false =
      compilation.table.resolve? dotted d.scope false := fun dotted =>
    SymbolTable.resolve?_congr rfl hscope dotted false
  simp only [typeOf?, hkind, hdotted, hresolve]

end Compilation

namespace Simplify

open TreeLint.Tree (nameShapedAll)

variable {table : SymbolTable}

/-! ## Where a name was -/

/-- What stands in the place of a name once names are shortened: the same name, or the shorter one
that it was exchanged for. -/
inductive Shortened (table : SymbolTable) (old new : Cursor) : Prop where
  | kept (hkind : old.kind = new.kind) (hdotted : old.node.dotted? = new.node.dotted?)
      (hscope : List.Forall₂ SameScope old.scope new.scope) : Shortened table old new
  | cut (hexchanged : Exchanged table old new)
      (habove : List.Forall₂ SameScope (old.above.map (·.node)) (new.above.map (·.node))) :
      Shortened table old new

/-- Each name among some children that may be shortened stands, shortened or not, at the same path
among the children with their names shortened. -/
theorem shortened_of_mem_nodesFrom {c d e : Cursor} {asAttribute : Bool} (h : SamePlace c d)
    (hpath : c.path = d.path) (index start start' : Nat) {trees : List Tree}
    (hs : nameShapedAll trees = true) (hshortenable : Shortenable e asAttribute)
    (he : e ∈ c.nodesFrom index start trees) :
    ∃ new ∈ d.nodesFrom index start' (shortenFrom table c index start trees),
      new.path = e.path ∧ Shortened table e new := by
  match trees with
  | [] => cases he
  | .token t :: rest =>
      rw [nameShapedAll, Bool.and_eq_true] at hs
      rw [shortenFrom, shortenOf, Cursor.nodesFrom_token]
      exact shortened_of_mem_nodesFrom h hpath _ _ _ hs.2 hshortenable he
  | .node k children :: rest =>
      rw [nameShapedAll, Bool.and_eq_true] at hs
      have hchildren : nameShapedAll children = true :=
        ((Node.nameShaped_iff ⟨k, children⟩).1 hs.1).2
      have hpathChild : ∀ k' children', (d.child index start' k' children').path =
          (c.child index start k children).path := by
        intro k' children'
        rw [Cursor.path_child, Cursor.path_child, hpath]
      rw [Cursor.nodesFrom_node, List.mem_append, Cursor.descendants_eq, List.mem_cons] at he
      rw [shortenFrom, shortenOf]
      split
      · next a ha =>
          rw [Node.toTree, Cursor.nodesFrom_node]
          rcases he with (rfl | he) | he
          · exact ⟨_, List.mem_append_left _ List.mem_cons_self, hpathChild _ _,
              .cut ⟨hs.1, a, ha, rfl⟩ h.scope⟩
          · obtain ⟨-, -, _, dotted, -, hname, hdotted, -⟩ := abbreviation?_eq_some ha
            obtain ⟨hk, hnames⟩ :=
              @Node.namesOnly_of_dotted (c.child index start k children).node dotted hs.1 hdotted
            -- under a name there is nothing that may be shortened
            have hnot : ¬Shortenable e asAttribute :=
              not_shortenable_of_namesOnly hk hname.parentKind_ne hnames he
            exact absurd hshortenable hnot
          · obtain ⟨new, hnew, hshortened⟩ :=
              shortened_of_mem_nodesFrom h hpath _ _ _ hs.2 hshortenable he
            exact ⟨new, List.mem_append_right _ hnew, hshortened⟩
      · next hnone =>
          have halike := alike_keptChild table c d index start start' k hchildren
          have hplace := h.keptChild table index start start' k hchildren
          rw [Cursor.nodesFrom_node]
          rcases he with (rfl | he) | he
          · exact ⟨_, List.mem_append_left _ List.mem_cons_self, hpathChild _ _,
              .kept rfl (halike.dotted?_eq (harmless_exchanged table) hshortenable.parentKind_ne)
                hplace.scope⟩
          · obtain ⟨new, hnew, hshortened⟩ := shortened_of_mem_nodesFrom hplace
              (hpathChild _ _).symm 0 start start' hchildren hshortenable he
            exact ⟨new, List.mem_append_left _ (List.mem_cons_of_mem _ hnew), hshortened⟩
          · obtain ⟨new, hnew, hshortened⟩ :=
              shortened_of_mem_nodesFrom h hpath _ _ _ hs.2 hshortenable he
            exact ⟨new, List.mem_append_right _ hnew, hshortened⟩

/-- Each name of a tree that may be shortened stands, shortened or not, at the same path of the tree
with its names shortened. -/
theorem shortened_of_mem_descendants (table : SymbolTable) {root : Node}
    (hs : root.nameShaped = true) {c : Cursor} {asAttribute : Bool}
    (hc : c ∈ (Cursor.ofRoot root).descendants) (hshortenable : Shortenable c asAttribute) :
    ∃ new, (Cursor.ofRoot (simplifyRoot table root)).descend? c.path = some (.node new) ∧
      Shortened table c new := by
  have hchildren : nameShapedAll root.children = true := ((Node.nameShaped_iff root).1 hs).2
  rw [Cursor.descendants_eq] at hc
  rcases List.mem_cons.1 hc with rfl | hc
  · -- a root stands in nothing, so it may not be shortened
    cases hshortenable with
    | baseType _ hparent _ => cases hparent
    | attributeName _ hparent _ => cases hparent
    | receiver _ _ hparent _ _ _ => cases hparent
  · obtain ⟨new, hnew, hpath, hshortened⟩ := shortened_of_mem_nodesFrom
      (samePlace_shortenRoot table hs) rfl 0 0 0 hchildren hshortenable hc
    refine ⟨new, ?_, hshortened⟩
    rw [simplifyRoot_eq table hs, ← hpath]
    exact (stands_of_mem_descendants (List.mem_cons_of_mem _ hnew)).descend?_path

/-! ## The type of a receiver -/

theorem Shortenable.asAttribute_of_receiver {c : Cursor} {asAttribute : Bool}
    (h : Shortenable c asAttribute) (hk : c.kind = .simpleMemberAccessExpression) :
    asAttribute = false := by
  cases h with
  | baseType _ _ _ => rfl
  | attributeName hkind _ _ =>
      rw [hk] at hkind
      cases hkind
  | receiver _ _ _ _ _ _ => rfl

/-- The replacement of a receiver is an identifier or a receiver again. -/
theorem kind_of_exchanged {old new : Cursor} (h : Exchanged table old new)
    (hk : old.kind = .simpleMemberAccessExpression) :
    new.kind = .identifierName ∨ new.kind = .simpleMemberAccessExpression := by
  obtain ⟨-, a, ha, hnode⟩ := h
  obtain ⟨hkind, -, asAttribute, -, -, hshortenable, -⟩ := abbreviation?_eq_some ha
  have hname : new.node.kind.isName = true := by
    rw [hnode]
    exact (Node.namesOnly_of_dotted (nameShaped_replacement a old.node)
      (dotted?_replacement a old.node)).1
  rw [Kind.isName, Bool.or_eq_true, beq_iff_eq] at hname
  refine hname.imp id fun hpair => ?_
  rw [hnode] at hpair
  rw [Cursor.kind, hnode, kind_replacement (hkind ▸ hshortenable.isPair) hpair, hkind, hk]

end Simplify

namespace Document

/-- The receiver of an argument of an attribute before and after names are shortened. A name that is
kept keeps its type. If the name is shortened, both names stand for one type, but each has the type
of the local with its name, where there is one. So the receiver has the type that it had if neither
name is that of a local, or the locals make no difference. -/
theorem typeOf?_simplify (d : Document) (hs : d.root.nameShaped = true) {c : Cursor}
    (hc : c ∈ d.cursor.descendants) (hk : c.kind = .simpleMemberAccessExpression)
    (hreceiver : Simplify.Shortenable c false) :
    ∃ new, d.simplify.cursor.descend? c.path = some (.node new) ∧
      ((new.node.dotted? = c.node.dotted? ∧
          d.simplify.compilation.typeOf? new = d.compilation.typeOf? c) ∨
        ∃ front shorter type, c.node.dotted? = some (front ++ "." ++ shorter) ∧
          new.node.dotted? = some shorter ∧
          d.compilation.table.resolve? (front ++ "." ++ shorter) c.scope false = some type ∧
          d.compilation.table.resolve? shorter new.scope false = some type ∧
          d.compilation.typeOf? c =
            some ((d.compilation.local? (front ++ "." ++ shorter)).getD type) ∧
          d.simplify.compilation.typeOf? new =
            some ((d.compilation.local? shorter).getD type)) := by
  obtain ⟨new, hnew, hshortened⟩ := Simplify.shortened_of_mem_descendants
    d.compilation.table hs hc hreceiver
  refine ⟨new, hnew, ?_⟩
  cases hshortened with
  | kept hkind hdotted hscope =>
      exact .inl ⟨hdotted.symm, (d.compilation.typeOf?_congr hkind hdotted hscope).symm⟩
  | cut hexchanged habove =>
      obtain ⟨asAttribute, front, shorter, type, hshortenable, hold, hshorter, -, -, -, hresolve,
        hresolve'⟩ := Simplify.abbreviated_of_exchanged hexchanged habove
      obtain rfl := hshortenable.asAttribute_of_receiver hk
      exact .inr ⟨front, shorter, type, hold, hshorter, hresolve, hresolve',
        d.compilation.typeOf?_of_resolve? (.inr hk) hold hresolve,
        d.compilation.typeOf?_of_resolve? (Simplify.kind_of_exchanged hexchanged hk) hshorter
          hresolve'⟩

/-- Without locals the receiver of an annotation's argument has the type that it had. -/
theorem typeOf?_simplify_annotation :
    let root := Build.compilationUnit [Build.usingDirective "System"]
      [Build.typeDeclaration .classDeclaration
        { name := "A", attributes := [AttributeTarget.classes.annotation] }]
    let d : Document := ⟨0, "A.cs", root, .ofTrees .core [root]⟩
    d.root.nameShaped = true ∧ ∃ c ∈ d.cursor.descendants,
      c.kind = .simpleMemberAccessExpression ∧ Simplify.Shortenable c false ∧
        ∃ new, d.simplify.cursor.descend? c.path = some (.node new) ∧
          d.simplify.compilation.typeOf? new = d.compilation.typeOf? c := by
  intro root d
  have hs : d.root.nameShaped = true := by decide +kernel
  let isReceiver : Cursor → Bool := fun c =>
    c.kind = .simpleMemberAccessExpression ∧ Simplify.candidate? c = some false
  have hsome : (d.cursor.descendants.find? isReceiver).isSome = true := by decide +kernel
  obtain ⟨c, hfound⟩ := Option.isSome_iff_exists.1 hsome
  have hc := List.mem_of_find?_eq_some hfound
  have hholds : isReceiver c = true := List.find?_some hfound
  have hboth : c.kind = .simpleMemberAccessExpression ∧ Simplify.candidate? c = some false :=
    of_decide_eq_true hholds
  obtain ⟨hk, hcandidate⟩ := hboth
  have hreceiver := Simplify.shortenable_of_candidate? hcandidate
  refine ⟨hs, c, hc, hk, hreceiver, ?_⟩
  obtain ⟨new, hnew, ⟨-, hsame⟩ | ⟨_, _, type, -, -, -, -, hold, hshorter⟩⟩ :=
    typeOf?_simplify d hs hc hk hreceiver
  · exact ⟨new, hnew, hsame⟩
  · exact ⟨new, hnew, hshorter.trans hold.symm⟩

/-- A local that has the shorter name and another type: the receiver of the annotation's argument
is shortened and has the type of the local from then on. -/
theorem typeOf?_simplify_ne_of_local :
    let root := Build.compilationUnit [Build.usingDirective "System"]
      [Build.typeDeclaration .classDeclaration
        { name := "A", attributes := [AttributeTarget.classes.annotation] }]
    let bound : Compilation := .ofTrees .core [root]
    let d : Document := ⟨0, "A.cs", root, bound.declareLocal "AttributeTargets" 7⟩
    let receiver (d : Document) : Option Cursor :=
      (d.cursor.descend? [2, 0, 1, 1, 1, 0, 0]).bind Element.node?
    d.root.nameShaped = true ∧
      (receiver d).bind Simplify.candidate? = some false ∧
      ((receiver d).bind fun c => c.node.dotted?) = some "System.AttributeTargets" ∧
      ((receiver d.simplify).bind fun c => c.node.dotted?) = some "AttributeTargets" ∧
      (receiver d).bind d.compilation.typeOf? =
        d.compilation.table.find? "System.AttributeTargets" ∧
      (receiver d.simplify).bind d.simplify.compilation.typeOf? =
        d.compilation.table.find? SymbolTable.stringName ∧
      (receiver d.simplify).bind d.simplify.compilation.typeOf? ≠
        (receiver d).bind d.compilation.typeOf? := by
  intro root bound d receiver
  have htarget : (receiver d).bind d.compilation.typeOf? =
      d.compilation.table.find? "System.AttributeTargets" := by decide +kernel
  have hlocal : (receiver d.simplify).bind d.simplify.compilation.typeOf? =
      d.compilation.table.find? SymbolTable.stringName := by decide +kernel
  refine ⟨by decide +kernel, by decide +kernel, by decide +kernel, by decide +kernel, htarget,
    hlocal, ?_⟩
  rw [htarget, hlocal]
  decide +kernel

end Document

end TreeLint
