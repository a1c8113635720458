import TreeLint.Annotation.Target
import TreeLint.Proofs.Likeness

/-!
# What shortening changes

Shortening changes names and nothing else, and it changes only names that stand where a type is
named: base types, attributes, and what the argument of an attribute accesses. What is left of such
a name is its end behind one of its dots, and it stands for the type that the whole name stood for.

A shorter name is chosen by looking it up where the old one stood, in the old tree. That it means
the same in the new tree needs more: other names have been shortened by then, and namespaces and
using directives have names too. None of theirs is ever shortened, so the scopes of the new tree are
those of the old one.
-/

namespace TreeLint

/-- A name that was shortened: what it was, what it is now, both well-shaped, and the type that both
stand for, each in its own tree. -/
def Abbreviated (table : SymbolTable) (old new : Cursor) : Prop :=
  ∃ (asAttribute : Bool) (front shorter : String) (type : TypeId),
    Simplify.Shortenable old asAttribute ∧ old.node.dotted? = some (front ++ "." ++ shorter) ∧
      new.node.dotted? = some shorter ∧ old.node.nameShaped = true ∧
        new.node.nameShaped = true ∧
          Simplify.leadingTokens new.node = Simplify.leadingTokens old.node ∧
          table.resolve? (front ++ "." ++ shorter) old.scope asAttribute = some type ∧
            table.resolve? shorter new.scope asAttribute = some type

namespace Simplify

/-- A well-shaped node and what its abbreviation puts in its place. -/
def Exchanged (table : SymbolTable) (old new : Cursor) : Prop :=
  old.node.nameShaped = true ∧
    ∃ a, abbreviation? table old = some a ∧ new.node = replacement a old.node

theorem alike_shortenFrom (table : SymbolTable) (c d : Cursor) (index start index' start' : Nat)
    (trees : List Tree) (hs : Tree.nameShapedAll trees = true) :
    AlikeAll (fun _ => False) (Exchanged table) (c.elementsFrom index start trees)
      (d.elementsFrom index' start' (shortenFrom table c index start trees)) := by
  match trees with
  | [] => exact .nil
  | .token t :: rest =>
      rw [Tree.nameShapedAll, Bool.and_eq_true] at hs
      rw [shortenFrom, shortenOf]
      exact .token rfl (alike_shortenFrom table c d _ _ _ _ rest hs.2)
  | .node k children :: rest =>
      rw [Tree.nameShapedAll, Bool.and_eq_true] at hs
      have hchildren : Tree.nameShapedAll children = true :=
        ((Node.nameShaped_iff ⟨k, children⟩).1 hs.1).2
      rw [shortenFrom, shortenOf]
      split
      · next a ha =>
          exact .swapped ⟨hs.1, a, ha, rfl⟩ (alike_shortenFrom table c d _ _ _ _ rest hs.2)
      · exact .kept rfl (alike_shortenFrom table (c.child index start k children) _ 0 start 0 start'
          children hchildren) (alike_shortenFrom table c d _ _ _ _ rest hs.2)

theorem harmless_exchanged (table : SymbolTable) :
    Harmless (fun _ => False) (Exchanged table) where
  trivia := fun _ h => h.elim
  attributeList := fun _ h => h.elim
  shortenable := fun c d h => by
    obtain ⟨-, a, ha, -⟩ := h
    obtain ⟨-, -, asAttribute, -, -, hshortenable, -⟩ := abbreviation?_eq_some ha
    exact ⟨asAttribute, hshortenable⟩

/-- A replacement in a scope that is as it was is a shorter name for the same type. -/
theorem abbreviated_of_exchanged {table : SymbolTable} {c d : Cursor} (h : Exchanged table c d)
    (habove : List.Forall₂ SameScope (c.above.map (·.node)) (d.above.map (·.node))) :
    Abbreviated table c d := by
  obtain ⟨hs, a, ha, hnode⟩ := h
  obtain ⟨-, -, asAttribute, dotted, type, hshortenable, hdotted, hsuffix, hold, hnew⟩ :=
    abbreviation?_eq_some ha
  obtain ⟨front, rfl⟩ := Dotted.front_of_mem_properSuffixes hsuffix
  have hname : d.node.kind.isName = true := by
    rw [hnode]
    exact (Node.namesOnly_of_dotted (nameShaped_replacement a c.node)
      (dotted?_replacement a c.node)).1
  have hpair : c.node.kind.isName = true := by
    have hk : c.node.kind.isPair = true := hshortenable.isPair
    rw [Kind.isName, hk, Bool.or_true]
  have hscope : List.Forall₂ SameScope c.scope d.scope :=
    .cons (.of_not_container (Kind.not_container_of_isName hpair)
      (Kind.not_container_of_isName hname)) habove
  refine ⟨asAttribute, front, a.shorter, type, hshortenable, hdotted, ?_, hs, ?_, ?_, hold, ?_⟩
  · rw [hnode, dotted?_replacement]
  · rw [hnode, nameShaped_replacement]
  · rw [hnode, leadingTokens_replacement]
  · rw [← SymbolTable.resolve?_congr rfl hscope, hnew]

/-- Shortening changes a tree at abbreviated names only. -/
theorem alike_simplifyRoot (table : SymbolTable) {root : Node} (hs : root.nameShaped = true) :
    Alike (fun _ => False) (Abbreviated table) (.ofRoot root)
      (.ofRoot (simplifyRoot table root)) := by
  have hchildren : Tree.nameShapedAll root.children = true := ((Node.nameShaped_iff root).1 hs).2
  have halike := alike_shortenFrom table (.ofRoot root) (.ofRoot (shortenRoot table root)) 0 0 0 0
    root.children hchildren
  have hroot : Alike (fun _ => False) (Exchanged table) (.ofRoot root)
      (.ofRoot (shortenRoot table root)) := ⟨rfl, halike⟩
  have hscope : List.Forall₂ SameScope (Cursor.ofRoot root).scope
      (Cursor.ofRoot (shortenRoot table root)).scope :=
    .cons (hroot.sameScope (harmless_exchanged table)) .nil
  have hplaced := hroot.under.inPlace (harmless_exchanged table)
    (Cursor.ofRoot root).parent?_of_mem_elements
    (Cursor.ofRoot (shortenRoot table root)).parent?_of_mem_elements hscope
  rw [simplifyRoot_eq table hs]
  exact ⟨rfl, hplaced.imp (fun _ h => h) fun _ _ h => abbreviated_of_exchanged h.1 h.2⟩

end Simplify

namespace Document

/-- A document whose names are shortened has the tree it had but for abbreviated names, and is the
same document otherwise. -/
theorem alike_simplify (d : Document) (hs : d.root.nameShaped = true) :
    Alike (fun _ => False) (Abbreviated d.compilation.table) d.cursor d.simplify.cursor ∧
      d.simplify.id = d.id ∧ d.simplify.name = d.name ∧
        d.simplify.compilation = d.compilation :=
  ⟨Simplify.alike_simplifyRoot d.compilation.table hs, rfl, rfl, rfl⟩

/-- An annotated attribute class below a using directive: its base type, its attribute and what the
argument of the attribute accesses all lose their namespace. -/
theorem alike_simplify_annotated :
    let parts : Build.TypeParts :=
      { name := "A", attributes := [AttributeTarget.classes.annotation],
        bases := ["System.Attribute"] }
    let root := Build.compilationUnit [Build.usingDirective "System"]
      [Build.namespaceDeclaration "N" [Build.typeDeclaration .classDeclaration parts]]
    let d : Document := ⟨0, "A.cs", root, .ofTrees .core [root]⟩
    d.root.nameShaped = true ∧
      d.simplify.text = "using System;\nnamespace N \x7b [AttributeUsage(" ++
        "AttributeTargets.Class)] class A : Attribute \x7b\x7d \x7d\n" ∧
      Alike (fun _ => False) (Abbreviated d.compilation.table) d.cursor d.simplify.cursor ∧
        d.simplify.id = d.id ∧ d.simplify.name = d.name ∧
          d.simplify.compilation = d.compilation := by
  intro parts root d
  have hs : d.root.nameShaped = true := by decide +kernel
  have htext : d.simplify.text = "using System;\nnamespace N \x7b [AttributeUsage(" ++
      "AttributeTargets.Class)] class A : Attribute \x7b\x7d \x7d\n" := by decide +kernel
  exact ⟨hs, htext, alike_simplify d hs⟩

end Document

end TreeLint
