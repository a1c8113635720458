import TreeLint.Proofs.FirstClass
import TreeLint.Proofs.LayoutTrivia

/-!
# Where an annotation goes

Whichever way a class was found, going up from a selected token or walking down through containers,
it stands at a place of the tree. Adding an attribute list to it fills the same place with a class
that has one child more, and layout changes nothing but trivia, so the annotated tree is known
exactly, up to its blanks and line breaks.

The new list stands directly behind the attribute lists that the class has, or in front of
everything if it has none.
-/

namespace TreeLint

/-! ## Behind the attribute lists -/

/-- A split of some children directly behind the last attribute list among them, or in front of all
of them if there is none. -/
structure BehindLists (before after : List Tree) : Prop where
  none_after : ∀ t ∈ after, t.kind ≠ .attributeList
  last : before = [] ∨ ∃ front list, before = front ++ [list] ∧ list.kind = .attributeList

theorem exists_split_of_findIdx? {xs : List Tree} {p : Tree → Bool} {i : Nat}
    (h : xs.findIdx? p = some i) :
    ∃ front x back, xs = front ++ x :: back ∧ front.length = i ∧ p x = true ∧
      ∀ y ∈ front, p y = false := by
  induction xs generalizing i with
  | nil => cases h
  | cons x rest ih =>
      rw [List.findIdx?_cons] at h
      split at h
      · next hx =>
          cases h
          exact ⟨[], x, rest, rfl, rfl, hx, fun _ hy => absurd hy List.not_mem_nil⟩
      · next hx =>
          obtain ⟨j, hj, rfl⟩ := Option.map_eq_some_iff.1 h
          obtain ⟨front, y, back, rfl, rfl, hy, hfront⟩ := ih hj
          refine ⟨x :: front, y, back, rfl, rfl, hy, fun z hz => ?_⟩
          rcases List.mem_cons.1 hz with rfl | hz
          · exact Bool.eq_false_iff.2 hx
          · exact hfront z hz

theorem Node.exists_behindLists (n : Node) : ∃ before after, n.children = before ++ after ∧
    n.attributeListEnd = before.length ∧ BehindLists before after := by
  unfold attributeListEnd
  split
  · next behind hbehind =>
      obtain ⟨front, list, back, hsplit, rfl, hlist, hfront⟩ := exists_split_of_findIdx? hbehind
      have hchildren : n.children = back.reverse ++ [list] ++ front.reverse := by
        rw [← n.children.reverse_reverse, hsplit, List.reverse_append, List.reverse_cons]
      refine ⟨back.reverse ++ [list], front.reverse, hchildren, ?_, fun t ht => ?_,
        .inr ⟨back.reverse, list, rfl, beq_iff_eq.1 hlist⟩⟩
      · rw [hchildren]
        simp only [List.length_append, List.length_reverse, List.length_singleton]
        omega
      · exact beq_eq_false_iff_ne.1 (hfront t (List.mem_reverse.1 ht))
  · next hnone =>
      refine ⟨[], n.children, rfl, rfl, fun t ht => ?_, .inl rfl⟩
      rw [List.findIdx?_eq_none_iff] at hnone
      exact beq_eq_false_iff_ne.1 (hnone t (List.mem_reverse.2 ht))

theorem Node.addAttributeLists_eq {n : Node} {before after : List Tree} (lists : List Node)
    (hn : n.children = before ++ after) (hend : n.attributeListEnd = before.length) :
    n.addAttributeLists lists = ⟨n.kind, before ++ lists.map Node.toTree ++ after⟩ := by
  rw [addAttributeLists, splice, hend, hn, List.take_left, List.drop_left]

/-- The place at which new lists go is one that every node has. -/
theorem Node.splice?_attributeListEnd (n : Node) (lists : List Node) :
    n.splice? n.attributeListEnd n.attributeListEnd (lists.map Node.toTree) =
      some (n.addAttributeLists lists) := by
  obtain ⟨before, after, hn, hend, -⟩ := n.exists_behindLists
  have hle : n.attributeListEnd ≤ n.children.length := by
    rw [hn, hend, List.length_append]
    omega
  rw [splice?, if_pos ⟨Nat.le_refl _, hle⟩, addAttributeLists]

/-! ## The class stands in its document -/

theorem Document.stands_of_firstClass? {d : Document} {c : Cursor}
    (h : d.firstClass? = some c) : c.Stands d.root ∧ c.kind = .classDeclaration := by
  have hkind := List.find?_some h
  rw [beq_iff_eq] at hkind
  have hvisited := List.mem_of_find?_eq_some h
  rw [Document.cursor, Cursor.visited_eq] at hvisited
  exact ⟨stands_of_mem_descendants (List.mem_filter.1 hvisited).1, hkind⟩

/-- What a span selects: the token at its start, which holds all of it, and the innermost class
around that token. -/
theorem Located.atSpan?_eq_some {d : Document} {s : Span} {l : Located}
    (h : atSpan? d s = some l) : l.document = d ∧ ∃ t,
      d.cursor.significantTokenAt? s.start = some t ∧ t.span.containsSpan s = true ∧
        t.ancestors.find? (fun c => c.kind == .classDeclaration) = some l.declaration := by
  obtain ⟨c, hc, rfl⟩ := Option.map_eq_some_iff.1 h
  refine ⟨rfl, ?_⟩
  unfold Cursor.findForSpan? at hc
  obtain ⟨-, hc⟩ := Option.ite_none_right_eq_some.1 hc
  split at hc
  · next t ht =>
      obtain ⟨hspan, hclass⟩ := Option.ite_none_right_eq_some.1 hc
      exact ⟨t, ht, hspan, hclass⟩
  · cases hc

theorem Located.stands_of_atSpan? {d : Document} {s : Span} {l : Located}
    (h : atSpan? d s = some l) :
    l.declaration.Stands d.root ∧ l.declaration.kind = .classDeclaration := by
  obtain ⟨-, t, ht, -, hclass⟩ := atSpan?_eq_some h
  have hkind := List.find?_some hclass
  rw [beq_iff_eq] at hkind
  have hmem := List.mem_of_find?_eq_some hclass
  exact ⟨(stands_of_significantTokenAt? ht).of_mem_ancestors hmem, hkind⟩

/-! ## The annotated document -/

theorem AttributeTarget.annotation_eq (target : AttributeTarget) : target.annotation =
    Build.attributeList [Build.attributeOf
      (Build.qualifiedName (Build.identifierName "System") (Build.identifierName "AttributeUsage"))
      (some (Build.attributeArgumentList [Build.attributeArgument
        (Build.memberAccess (Build.memberAccess (Build.identifierName "System") "AttributeTargets")
          target.name)]))] := by
  have husage : Build.name usageName = Build.qualifiedName (Build.identifierName "System")
      (Build.identifierName "AttributeUsage") := by decide +kernel
  have henumeration : Build.memberAccessChain enumerationName =
      Build.memberAccess (Build.identifierName "System") "AttributeTargets" := by decide +kernel
  unfold annotation
  rw [husage, henumeration]

theorem AttributeTarget.text_annotation (target : AttributeTarget) : target.annotation.text =
    "[System.AttributeUsage(System.AttributeTargets." ++ target.name ++ ")]" := by
  rw [annotation_eq]
  apply String.toList_injective
  simp [Node.text, Tree.textAll, Tree.text, Node.toTree, Build.attributeList, Build.separated,
    Build.attributeOf, Build.attributeArgumentList, Build.attributeArgument, Build.memberAccess,
    Build.qualifiedName, Build.identifierName, Build.identifierToken, Build.fixed, Token.fixed,
    Kind.fixedText?]

/-- A document with a class annotated: the class stands where it stood, with the annotation for a
target behind its attribute lists, and nothing else of the tree has changed but trivia. -/
structure Annotated (target : AttributeTarget) (old : Document) (c : Cursor) (new : Document) :
    Prop where
  id : new.id = old.id
  name : new.name = old.name
  compilation : new.compilation = old.compilation
  root : ∃ (around : Place) (before after : List Tree),
    c = around.cursor ⟨.classDeclaration, before ++ after⟩ ∧
      old.root = around.fill ⟨.classDeclaration, before ++ after⟩ ∧ BehindLists before after ∧
        new.root.withoutTrivia =
          (around.fill ⟨.classDeclaration,
            before ++ target.annotation.toTree :: after⟩).withoutTrivia

namespace Eligible

/-- The tree in which a class is annotated is the old one with another class in the same place. -/
theorem exists_annotatedRoot {e : Eligible} (target : AttributeTarget)
    (hs : e.declaration.Stands e.document.root)
    (hk : e.declaration.kind = .classDeclaration) :
    ∃ (around : Place) (before after : List Tree),
      e.declaration = around.cursor ⟨.classDeclaration, before ++ after⟩ ∧
        e.document.root = around.fill ⟨.classDeclaration, before ++ after⟩ ∧
          BehindLists before after ∧
            e.annotatedRoot target = around.fill ⟨.classDeclaration,
              before ++ target.annotation.toTree :: after⟩ := by
  obtain ⟨around, hcursor, hfill⟩ := hs
  obtain ⟨before, after, hchildren, hend, hbehind⟩ := e.declaration.node.exists_behindLists
  have hnode : e.declaration.node = ⟨.classDeclaration, before ++ after⟩ := by
    rw [← hchildren, ← hk]
    rfl
  have hannotated : e.declaration.node.addAttributeLists [target.annotation] =
      ⟨.classDeclaration, before ++ target.annotation.toTree :: after⟩ := by
    rw [Node.addAttributeLists_eq _ hchildren hend, ← hk, List.append_assoc]
    rfl
  refine ⟨around, before, after, hnode ▸ hcursor, hnode ▸ hfill.symm, hbehind, ?_⟩
  rw [annotatedRoot, hannotated, hcursor, Place.replaceWith_cursor]

theorem annotated_outcome {e : Eligible} {options : AnalyzerOptions}
    (hsimplify : options.simplify = false) (hs : e.declaration.Stands e.document.root)
    (hk : e.declaration.kind = .classDeclaration) :
    Annotated options.attributeUsage.target e.document e.declaration (e.outcome options) := by
  obtain ⟨around, before, after, hcursor, hroot, hbehind, hannotated⟩ :=
    exists_annotatedRoot options.attributeUsage.target hs hk
  have houtcome : e.outcome options = e.document.withRoot
      (options.formatting.format (e.annotatedRoot options.attributeUsage.target)) := by
    rw [outcome, hsimplify]
    rfl
  rw [houtcome]
  refine ⟨rfl, rfl, rfl, around, before, after, hcursor, hroot, hbehind, ?_⟩
  rw [Document.withRoot, FormattingOptions.withoutTrivia_format, hannotated]

end Eligible

theorem Located.eligible?_eq_some {l : Located} {e : Eligible} (h : l.eligible? = some e) :
    l = ⟨e.document, e.declaration⟩ := by
  obtain ⟨base, -, rfl⟩ := Option.map_eq_some_iff.1 h
  rfl

/-- A class that is eligible at a span stands in the document, around the selected token. -/
theorem Eligible.of_atSpan? {d : Document} {s : Span} {e : Eligible}
    (h : (Located.atSpan? d s).bind Located.eligible? = some e) : e.document = d ∧
      e.declaration.Stands d.root ∧ e.declaration.kind = .classDeclaration ∧ ∃ t,
        d.cursor.significantTokenAt? s.start = some t ∧ t.span.containsSpan s = true ∧
          t.ancestors.find? (fun c => c.kind == .classDeclaration) = some e.declaration := by
  obtain ⟨l, hl, hle⟩ := Option.bind_eq_some_iff.1 h
  rw [Located.eligible?_eq_some hle] at hl
  obtain ⟨hstands, hkind⟩ := Located.stands_of_atSpan? hl
  obtain ⟨hdocument, hselected⟩ := Located.atSpan?_eq_some hl
  exact ⟨hdocument, hstands, hkind, hselected⟩

/-- A class that a run of the pipeline annotates is the first of the document and stands in it. -/
theorem Eligible.of_outcome {options : AnalyzerOptions} {d new : Document}
    (h : AnnotationPipeline.outcome options d = some new) : ∃ e : Eligible, e.document = d ∧
      e.declaration.Stands d.root ∧ e.declaration.kind = .classDeclaration ∧
        d.firstClass? = some e.declaration ∧ e.outcome options = new := by
  obtain ⟨e, he, rfl⟩ := Option.map_eq_some_iff.1 h
  obtain ⟨l, hl, hle⟩ := Option.bind_eq_some_iff.1 he
  rw [Located.eligible?_eq_some hle] at hl
  obtain ⟨c, hc, hlocated⟩ := Option.map_eq_some_iff.1 hl
  obtain ⟨hstands, hkind⟩ := Document.stands_of_firstClass? hc
  injection hlocated with hdocument hdeclaration
  rw [hdeclaration] at hc hstands hkind
  exact ⟨e, hdocument.symm, hstands, hkind, hc, rfl⟩

/-- With simplification off, an offered action annotates the innermost class around the selected
token, unless it is cancelled, and a run of the pipeline annotates the first class of the walk. -/
theorem annotated_of_invoked {σ : Type} (options : AnalyzerOptions)
    (hsimplify : options.simplify = false) (d : Document) :
    options.attributeUsage.target.annotation.text =
      "[System.AttributeUsage(System.AttributeTargets." ++
        options.attributeUsage.target.name ++ ")]" ∧
    (∀ (token : CancelToken σ) (kind : WorkspaceKind) (s : Span) (state : σ)
        (action : CodeAction σ),
      (AttributeUsageRefactoring.compute ⟨options, .standard⟩ token kind d s state).1 =
        .ok (some action) →
      ∃ t c new, d.cursor.significantTokenAt? s.start = some t ∧ t.span.containsSpan s = true ∧
        t.ancestors.find? (fun c => c.kind == .classDeclaration) = some c ∧
        Annotated options.attributeUsage.target d c new ∧
        ∀ (token : CancelToken σ) (state : σ),
          ((∀ poll < 3, token.answer poll state = false) →
            (action.changedDocument token state).1 = .ok new) ∧
          ∀ other, (action.changedDocument token state).1 = .ok other → other = new) ∧
    ∀ (token : CancelToken σ) (state : σ) (new : Document),
      (AnnotationPipeline.run ⟨options, .standard⟩ token d state).1 = .ok (some new) →
      ∃ c, d.cursor.visited.find? (fun c => c.kind == .classDeclaration) = some c ∧
        Annotated options.attributeUsage.target d c new ∧
        ∀ (token : CancelToken σ) (state : σ), (∀ poll, token.answer poll state = false) →
          (AnnotationPipeline.run ⟨options, .standard⟩ token d state).1 = .ok (some new) := by
  refine ⟨?_, fun token kind s state action hcompute => ?_, fun token state new hrun => ?_⟩
  · exact options.attributeUsage.target.text_annotation
  · cases kind with
    | looseFiles => cases hcompute
    | host =>
        rw [AttributeUsageRefactoring.compute_eq] at hcompute
        have hoffered := CancelToken.eq_of_checked hcompute
        obtain ⟨e, he, rfl⟩ := Option.map_eq_some_iff.1 hoffered.symm
        obtain ⟨rfl, hstands, hkind, t, ht, hspan, hclass⟩ := Eligible.of_atSpan? he
        refine ⟨t, e.declaration, e.outcome options, ht, hspan, hclass,
          e.annotated_outcome hsimplify hstands hkind, fun token state => ?_⟩
        rw [AttributeUsageRefactoring.changedDocument_eq]
        exact ⟨fun hquiet => CancelToken.checked_of_quiet hquiet _,
          fun other h => CancelToken.eq_of_checked h⟩
  · rw [AnnotationPipeline.run_eq] at hrun
    have houtcome := CancelToken.eq_of_checked hrun
    obtain ⟨e, rfl, hstands, hkind, hfirst, rfl⟩ := Eligible.of_outcome houtcome.symm
    refine ⟨e.declaration, hfirst, e.annotated_outcome hsimplify hstands hkind,
      fun token state hquiet => ?_⟩
    rw [AnnotationPipeline.run_eq, houtcome]
    exact CancelToken.checked_of_quiet (fun poll _ => hquiet poll) _

/-- A caret in the name of an attribute class: an action is offered, and invoking it annotates the
class. -/
theorem annotated_of_invoked_at_caret :
    let parts : Build.TypeParts := { name := "A", bases := ["System.Attribute"] }
    let root := Build.compilationUnit [] [Build.typeDeclaration .classDeclaration parts]
    let d : Document := ⟨0, "A.cs", root, .ofTrees .core [root]⟩
    let options : AnalyzerOptions := { simplify := false }
    options.simplify = false ∧ ∃ action t c new,
      (AttributeUsageRefactoring.compute ⟨options, .standard⟩ (.never : CancelToken Unit) .host
        d (.caret 6) ()).1 = .ok (some action) ∧
      d.cursor.significantTokenAt? 6 = some t ∧
      t.ancestors.find? (fun c => c.kind == .classDeclaration) = some c ∧
      Annotated options.attributeUsage.target d c new ∧
      (action.changedDocument CancelToken.never ()).1 = .ok new := by
  intro parts root d options
  have heligible : ((Located.atSpan? d (.caret 6)).bind Located.eligible?).isSome = true := by
    decide +kernel
  obtain ⟨e, he⟩ := Option.isSome_iff_exists.1 heligible
  have hcompute : (AttributeUsageRefactoring.compute ⟨options, .standard⟩
      (.never : CancelToken Unit) .host d (.caret 6) ()).1 =
        .ok (some (AttributeUsageRefactoring.action ⟨options, .standard⟩ e)) := by
    rw [AttributeUsageRefactoring.compute_eq, he]
    rfl
  have hsimplify : options.simplify = false := rfl
  obtain ⟨-, hinvoked, -⟩ := @annotated_of_invoked Unit options hsimplify d
  obtain ⟨t, c, new, ht, -, hclass, hannotated, hnew⟩ := hinvoked _ _ _ _ _ hcompute
  refine ⟨hsimplify, _, t, c, new, hcompute, ht, hclass, hannotated, ?_⟩
  exact (hnew CancelToken.never ()).1 fun poll _ => CancelToken.answer_never poll ()

end TreeLint
