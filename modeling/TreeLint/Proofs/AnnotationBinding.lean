import TreeLint.Proofs.AnnotatedClass
import TreeLint.Proofs.KeptDeclarations
import TreeLint.Proofs.ShortenedNames

/-!
# Annotated documents bind as before

A document that is annotated is never bound again, so the compilation it keeps had better be the one
that binding would give. It is: adding an attribute list to a class, laying out the tree and
shortening its names each give a tree that is alike up to changes which keep all declarations, and
declarations that are kept bind to the same table.

The last step is the one that could go wrong, because it changes base names. They are shortened by
the table of the compilation, and all that resolving reads of it is its index, which is complete
before the first base is bound.
-/

namespace TreeLint

/-! ## The three steps -/

/-- An element is the annotation for a target, in a class. -/
def Annotating (target : AttributeTarget) (e : Element) : Prop :=
  ∃ c p, e = .node c ∧ c.node = target.annotation ∧ c.parent? = some p ∧
    p.kind = .classDeclaration

theorem AttributeTarget.declaresNone_annotation (target : AttributeTarget) :
    target.annotation.toTree.declaresNone = true := by
  rw [annotation_eq]
  rfl

theorem AttributeTarget.nameShaped_annotation (target : AttributeTarget) :
    target.annotation.nameShaped = true := by
  rw [annotation_eq]
  rfl

theorem keepsDeclarations_annotating (table : SymbolTable) (target : AttributeTarget) :
    KeepsDeclarations table (Annotating target) (fun _ _ => False) where
  trivia := fun t h => by
    obtain ⟨c, p, hc, -⟩ := h
    cases hc
  attributeList := fun c h => by
    obtain ⟨d, p, hd, hnode, hp, hk⟩ := h
    cases hd
    refine ⟨?_, p, hp, by rw [hk]; rfl⟩
    rw [Cursor.kind, hnode]
    rfl
  shortenable := fun _ _ h => h.elim
  extra_declares := fun c h => by
    obtain ⟨d, p, hd, hnode, -⟩ := h
    cases hd
    rw [hnode, target.declaresNone_annotation]
  old_declares := fun _ _ h => h.elim
  new_declares := fun _ _ h => h.elim
  resolves := fun _ _ _ h => h.elim

theorem keepsDeclarations_trivia (table : SymbolTable) :
    KeepsDeclarations table (fun e => e.isTrivia = true) (fun _ _ => False) where
  toHarmless := harmless_trivia
  extra_declares := fun _ h => by cases h
  old_declares := fun _ _ h => h.elim
  new_declares := fun _ _ h => h.elim
  resolves := fun _ _ _ h => h.elim

/-- A name in a base list that is shortened stands for the same type. -/
theorem Abbreviated.resolveName?_eq {table : SymbolTable} {c d p : Cursor}
    (h : Abbreviated table c d) (hp : c.parent? = some p) (hk : p.kind = .simpleBaseType) :
    table.resolveName? c = table.resolveName? d := by
  obtain ⟨asAttribute, front, shorter, type, hshortenable, hc, hd, -, -, -, hold, hnew⟩ := h
  have hflag : asAttribute = false := by
    cases hshortenable with
    | baseType _ _ _ => rfl
    | attributeName _ hparent hnamed =>
        rw [hp] at hparent
        cases hparent
        rw [hk] at hnamed
        cases hnamed
    | receiver _ _ _ _ _ _ => rfl
  rw [hflag] at hold hnew
  simp only [SymbolTable.resolveName?, hc, hd, hold, hnew]

theorem keepsDeclarations_abbreviated (table : SymbolTable) :
    KeepsDeclarations table (fun _ => False) (Abbreviated table) where
  trivia := fun _ h => h.elim
  attributeList := fun _ h => h.elim
  shortenable := fun c d h => by
    obtain ⟨asAttribute, front, shorter, type, hshortenable, -⟩ := h
    exact ⟨asAttribute, hshortenable⟩
  extra_declares := fun _ h => h.elim
  old_declares := fun c d h => by
    obtain ⟨asAttribute, front, shorter, type, -, hc, -, hs, -⟩ := h
    exact Node.declaresNone_of_dotted hs hc
  new_declares := fun c d h => by
    obtain ⟨asAttribute, front, shorter, type, -, -, hd, -, hs, -⟩ := h
    exact Node.declaresNone_of_dotted hs hd
  resolves := fun c d p h hp hk => h.resolveName?_eq hp hk

theorem Place.alike_annotated (around : Place) (target : AttributeTarget)
    (before after : List Tree) :
    Alike (Annotating target) (fun _ _ => False)
      (.ofRoot (around.fill ⟨.classDeclaration, before ++ after⟩))
      (.ofRoot (around.fill ⟨.classDeclaration, before ++ target.annotation.toTree :: after⟩)) := by
  refine around.alike_fill rfl ?_
  rw [Cursor.elements, Cursor.elements]
  simp only [cursor, Cursor.elementsFrom_append]
  exact (AlikeAll.same _ _ _ _ _ _ before).append
    (.added ⟨_, _, rfl, rfl, rfl, rfl⟩ (AlikeAll.same _ _ _ _ _ _ after))

/-! ## Putting them together -/

namespace Eligible

theorem root_outcome (e : Eligible) (options : AnalyzerOptions) : (e.outcome options).root =
    if options.simplify = true then
      Simplify.simplifyRoot e.document.compilation.table
        (options.formatting.format (e.annotatedRoot options.attributeUsage.target))
    else options.formatting.format (e.annotatedRoot options.attributeUsage.target) := by
  rw [outcome]
  split <;> rfl

theorem sameDeclarations_annotatedRoot {e : Eligible} (table : SymbolTable)
    (target : AttributeTarget) (hs : e.document.root.nameShaped = true)
    (hstands : e.declaration.Stands e.document.root)
    (hk : e.declaration.kind = .classDeclaration) :
    List.Forall₂ (SameDeclaration table) (SymbolTable.declarationsIn e.document.root)
        (SymbolTable.declarationsIn (e.annotatedRoot target)) ∧
      (e.annotatedRoot target).nameShaped = true := by
  obtain ⟨around, before, after, -, hroot, -, hannotated⟩ :=
    exists_annotatedRoot target hstands hk
  rw [hroot] at hs
  rw [hroot, hannotated]
  constructor
  · exact (around.alike_annotated target before after).declarationsIn
      (keepsDeclarations_annotating table target)
  · obtain ⟨hclass, hfill⟩ := around.nameShaped_fill _ hs
    refine hfill _ ?_
    rw [Node.nameShaped_iff, Tree.nameShapedAll_append, Bool.and_eq_true] at hclass ⊢
    rw [Tree.nameShapedAll, Bool.and_eq_true]
    exact ⟨rfl, hclass.2.1, target.nameShaped_annotation, hclass.2.2⟩

theorem nameShaped_laidOut {e : Eligible} (options : AnalyzerOptions)
    (hs : e.document.root.nameShaped = true) (hstands : e.declaration.Stands e.document.root)
    (hk : e.declaration.kind = .classDeclaration) :
    (options.formatting.format (e.annotatedRoot options.attributeUsage.target)).nameShaped =
      true := by
  rw [options.formatting.nameShaped_format]
  exact (sameDeclarations_annotatedRoot e.document.compilation.table
    options.attributeUsage.target hs hstands hk).2

theorem nameShaped_outcome {e : Eligible} (options : AnalyzerOptions)
    (hs : e.document.root.nameShaped = true) (hstands : e.declaration.Stands e.document.root)
    (hk : e.declaration.kind = .classDeclaration) :
    (e.outcome options).root.nameShaped = true := by
  have hlaidOut := nameShaped_laidOut options hs hstands hk
  rw [root_outcome]
  split
  · exact Simplify.nameShaped_simplifyRoot _ hlaidOut
  · exact hlaidOut

/-- Annotating a class keeps all declarations of its document. -/
theorem sameDeclarations_outcome {e : Eligible} (options : AnalyzerOptions)
    (hs : e.document.root.nameShaped = true) (hstands : e.declaration.Stands e.document.root)
    (hk : e.declaration.kind = .classDeclaration) :
    List.Forall₂ (SameDeclaration e.document.compilation.table)
      (SymbolTable.declarationsIn e.document.root)
      (SymbolTable.declarationsIn (e.outcome options).root) := by
  have hannotated := (sameDeclarations_annotatedRoot e.document.compilation.table
    options.attributeUsage.target hs hstands hk).1
  have hlaidOut := (options.formatting.alike_format
    (e.annotatedRoot options.attributeUsage.target)).declarationsIn
      (keepsDeclarations_trivia e.document.compilation.table)
  have hsame := SameDeclaration.forall₂_trans hannotated hlaidOut
  rw [root_outcome]
  split
  · have hshortened := (Simplify.alike_simplifyRoot e.document.compilation.table
      (nameShaped_laidOut options hs hstands hk)).declarationsIn
        (keepsDeclarations_abbreviated e.document.compilation.table)
    exact SameDeclaration.forall₂_trans hsame hshortened
  · exact hsame

end Eligible

/-- The document that a run of the pipeline gives declares what the old one did. -/
theorem AnnotationPipeline.sameDeclarations_outcome {options : AnalyzerOptions} {d new : Document}
    (hs : d.root.nameShaped = true) (h : outcome options d = some new) :
    List.Forall₂ (SameDeclaration d.compilation.table) (SymbolTable.declarationsIn d.root)
      (SymbolTable.declarationsIn new.root) := by
  obtain ⟨e, rfl, hstands, hkind, -, rfl⟩ := Eligible.of_outcome h
  exact e.sameDeclarations_outcome options hs hstands hkind

/-- Exchanging one of some trees for one that declares the same does not change the table. -/
theorem SymbolTable.bind_set {table : SymbolTable} {trees : List Node} {id : Nat} {old new : Node}
    (hold : trees[id]? = some old)
    (h : List.Forall₂ (SameDeclaration (table.bind trees)) (declarationsIn old)
      (declarationsIn new)) : table.bind (trees.set id new) = table.bind trees := by
  have hsame : ∀ cursors : List Cursor,
      List.Forall₂ (SameDeclaration (table.bind trees)) cursors cursors := fun cursors =>
    List.forall₂_same.2 fun c _ => .refl _ c
  refine bind_congr ?_
  generalize table.bind trees = final at h hsame
  obtain ⟨hid, rfl⟩ := List.getElem?_eq_some_iff.1 hold
  have hsplit : trees = trees.take id ++ trees[id] :: trees.drop (id + 1) := by simp
  have hset : trees.set id new = trees.take id ++ new :: trees.drop (id + 1) := by
    rw [List.set_eq_take_append_cons_drop, if_pos hid]
  rw [hset]
  conv => arg 2; rw [hsplit]
  rw [List.flatMap_append, List.flatMap_append, List.flatMap_cons, List.flatMap_cons]
  exact List.rel_append (hsame _) (List.rel_append h (hsame _))

/-- Binding the trees of a workspace again after one document was annotated gives the table that
they were bound to. -/
theorem AnnotationPipeline.table_eq_of_run {σ : Type} {table : SymbolTable} {trees : List Node}
    (hs : ∀ tree ∈ trees, tree.nameShaped = true) (kind : WorkspaceKind) (names : List String)
    {d : Document}
    (hd : d ∈ (Workspace.ofCompilation kind (.ofTrees table trees) names).documents)
    (options : AnalyzerOptions) (token : CancelToken σ) (state : σ) {new : Document}
    (hrun : (run ⟨options, .standard⟩ token d state).1 = .ok (some new)) :
    (Compilation.ofTrees table (trees.set d.id new.root)).table =
      (Compilation.ofTrees table trees).table := by
  obtain ⟨id, hid, rfl⟩ := List.mem_mapIdx.1 hd
  rw [run_eq] at hrun
  have houtcome := CancelToken.eq_of_checked hrun
  have hsame := sameDeclarations_outcome (hs _ (List.getElem_mem hid)) houtcome.symm
  exact SymbolTable.bind_set (List.getElem?_eq_getElem hid) hsame

/-- A class that derives from an attribute class of another tree, by a name that is shortened: the
second tree is annotated. -/
theorem AnnotationPipeline.table_eq_of_run_across_trees :
    let first := Build.compilationUnit [] [Build.namespaceDeclaration "N"
      [Build.typeDeclaration .classDeclaration { name := "A", bases := ["System.Attribute"] }]]
    let second := Build.compilationUnit [Build.usingDirective "N"]
      [Build.typeDeclaration .classDeclaration { name := "B", bases := ["N.A"] }]
    let trees := [first, second]
    let d : Document := ⟨1, "B.cs", second, .ofTrees .core trees⟩
    (∀ tree ∈ trees, tree.nameShaped = true) ∧
      d ∈ (Workspace.ofCompilation .host (.ofTrees .core trees) ["A.cs", "B.cs"]).documents ∧
      ∃ new, (run ⟨{}, .standard⟩ (.never : CancelToken Unit) d ()).1 = .ok (some new) ∧
        (Compilation.ofTrees .core (trees.set d.id new.root)).table =
          (Compilation.ofTrees .core trees).table := by
  intro first second trees d
  have hs : ∀ tree ∈ trees, tree.nameShaped = true := by decide +kernel
  have hd : d ∈ (Workspace.ofCompilation .host (.ofTrees .core trees)
      ["A.cs", "B.cs"]).documents := List.mem_cons_of_mem _ List.mem_cons_self
  have hsome : (outcome {} d).isSome = true := by decide +kernel
  obtain ⟨new, hnew⟩ := Option.isSome_iff_exists.1 hsome
  have hrun : (run ⟨{}, .standard⟩ (.never : CancelToken Unit) d ()).1 = .ok (some new) := by
    rw [run_eq, hnew]
    exact CancelToken.checked_of_quiet (fun poll _ => CancelToken.answer_never poll ()) _
  exact ⟨hs, hd, new, hrun, table_eq_of_run hs .host ["A.cs", "B.cs"] hd {} .never () hrun⟩

end TreeLint
