import TreeLint.Proofs.AnnotatedClass
import TreeLint.Proofs.Likeness
import TreeLint.Proofs.TextInPlace

/-!
# A caret in the name of a class

A class is found from the top, by a walk through containers, or from a caret, by going down to the
token under the caret and up again. Going down follows offsets alone. The children in front of the
way end where the token starts or before, so none of them covers the caret, not even one without
text that starts right there; this is all that has to be known of them. Going up from a token that
is a child of the class, the first node is the class itself, whatever classes are around it or in
it.

So with the caret in its name the first class of a document is what both ways find, and the request
at the caret and the run over the document go on to do the same.
-/

namespace TreeLint

theorem Span.contains_eq_true {s : Span} {offset : Nat} : s.contains offset = true ↔
    s.start ≤ offset ∧ offset < s.start + s.length ∧ offset < maxOffset := by
  rw [contains, stop, Bool.and_eq_true, decide_eq_true_iff, decide_eq_true_iff, Nat.lt_min]

/-! ## Going down by offset -/

namespace Cursor

/-- The lookup goes past children that end at the offset or in front of it. -/
theorem tokenAtFrom?_append (c : Cursor) {offset : Nat} (index start : Nat)
    (front back : List Tree) (h : start + Tree.widthAll front ≤ offset) :
    c.tokenAtFrom? offset index start (front ++ back) =
      c.tokenAtFrom? offset (index + front.length) (start + Tree.widthAll front) back := by
  induction front generalizing index start with
  | nil => rfl
  | cons t rest ih =>
      rw [Tree.widthAll, ← Nat.add_assoc] at h
      have houtside : ¬ (⟨start, t.width⟩ : Span).contains offset = true := by
        rw [Span.contains_eq_true]
        rintro ⟨-, hstop, -⟩
        have hstop : offset < start + t.width := hstop
        omega
      rw [List.cons_append, tokenAtFrom?, if_neg houtside, ih _ _ h, Tree.widthAll,
        List.length_cons, Nat.add_assoc start, Nat.add_assoc index, Nat.add_comm 1]

/-- A token among the children of a node starts where the children in front of it end. -/
theorem exists_split_of_mem_elementsFrom {c : Cursor} {index start : Nat} {trees : List Tree}
    {t : TokenCursor} (h : Element.token t ∈ c.elementsFrom index start trees) :
    ∃ front back, trees = front ++ .token t.token :: back ∧
      t = ⟨t.token, start + Tree.widthAll front, index + front.length, c⟩ := by
  induction trees generalizing index start with
  | nil => cases h
  | cons first rest ih =>
      have hbehind : Element.token t ∈ c.elementsFrom (index + 1) (start + first.width) rest →
          ∃ front back, first :: rest = front ++ .token t.token :: back ∧
            t = ⟨t.token, start + Tree.widthAll front, index + front.length, c⟩ := by
        intro h
        obtain ⟨front, back, hsplit, ht⟩ := ih h
        refine ⟨first :: front, back, by rw [hsplit]; rfl, ?_⟩
        rw [Tree.widthAll, List.length_cons, ← Nat.add_assoc start, Nat.add_comm front.length,
          ← Nat.add_assoc index]
        exact ht
      cases first with
      | token token =>
          rw [elementsFrom] at h
          rcases List.mem_cons.1 h with hfirst | hrest
          · cases hfirst
            exact ⟨[], rest, rfl, rfl⟩
          · exact hbehind hrest
      | node k children =>
          rw [elementsFrom] at h
          rcases List.mem_cons.1 h with hfirst | hrest
          · cases hfirst
          · exact hbehind hrest

theorem exists_split_of_mem_childTokens {c : Cursor} {t : TokenCursor} (h : t ∈ c.childTokens) :
    ∃ front back, c.node.children = front ++ .token t.token :: back ∧
      t = ⟨t.token, c.start + Tree.widthAll front, front.length, c⟩ := by
  obtain ⟨e, he, htoken⟩ := List.mem_filterMap.1 h
  cases e with
  | node e => cases htoken
  | token e =>
      cases htoken
      obtain ⟨front, back, hsplit, heq⟩ := exists_split_of_mem_elementsFrom he
      rw [Nat.zero_add] at heq
      exact ⟨front, back, hsplit, heq⟩

end Cursor

namespace Place

/-- Inside a node the lookup from the root goes on as one from the node. -/
theorem tokenAtFrom?_fill (p : Place) (n : Node) {offset : Nat} (hstart : p.start ≤ offset)
    (hstop : offset < p.start + n.width) (hmax : offset < maxOffset) :
    (Cursor.ofRoot (p.fill n)).tokenAtFrom? offset 0 0 (p.fill n).children =
      (p.cursor n).tokenAtFrom? offset 0 p.start n.children := by
  induction p generalizing n with
  | nil => rfl
  | cons g outer ih =>
      have hchildren : (g.fill n).children = g.before ++ .node n.kind n.children :: g.behind := rfl
      have hchild := cursor_child outer hchildren
      rw [start] at hstart hstop
      have hwidth : (g.fill n).width =
          Tree.widthAll g.before + (n.width + Tree.widthAll g.behind) :=
        Tree.widthAll_append g.before (n.toTree :: g.behind)
      have hcovers : (⟨start outer + Tree.widthAll g.before, n.width⟩ : Span).contains offset =
          true := Span.contains_eq_true.2 ⟨hstart, hstop, hmax⟩
      rw [fill, ih (g.fill n) (by omega) (by omega), hchildren,
        Cursor.tokenAtFrom?_append _ _ _ _ _ hstart, Cursor.tokenAtFrom?, Nat.zero_add]
      have hcontains : (⟨start outer + Tree.widthAll g.before,
          (Tree.node n.kind n.children).width⟩ : Span).contains offset = true := hcovers
      rw [if_pos hcontains, Cursor.tokenAtOf?, hchild]
      rfl

/-- A child token is found at every offset that its text covers. -/
theorem tokenAt?_of_mem_childTokens {p : Place} {n : Node} {t : TokenCursor} {offset : Nat}
    (ht : t ∈ (p.cursor n).childTokens) (hoffset : t.span.contains offset = true) :
    (Cursor.ofRoot (p.fill n)).tokenAt? offset = some t ∧ offset < (p.fill n).width := by
  obtain ⟨front, back, hsplit, heq⟩ := Cursor.exists_split_of_mem_childTokens ht
  have hchildren : n.children = front ++ .token t.token :: back := hsplit
  have hstart : t.start = p.start + Tree.widthAll front := congrArg TokenCursor.start heq
  obtain ⟨hfrom, hto, hmax⟩ := Span.contains_eq_true.1 hoffset
  have hfrom : t.start ≤ offset := hfrom
  have hto : offset < t.start + t.token.width := hto
  have hwidth : n.width = Tree.widthAll front + (t.token.width + Tree.widthAll back) := by
    rw [Node.width, hchildren, Tree.widthAll_append, Tree.widthAll, Tree.width]
  have hroot : p.start + n.width ≤ (p.fill n).width := by
    rw [(p.fill n).width_eq]
    exact p.start_add_width_le n
  have hinside : offset < (p.fill n).width := by omega
  have hend : offset < 0 + (p.fill n).width := by omega
  have hcovers : (Cursor.ofRoot (p.fill n)).fullSpan.contains offset = true :=
    Span.contains_eq_true.2 ⟨Nat.zero_le _, hend, hmax⟩
  refine ⟨?_, hinside⟩
  rw [Cursor.tokenAt?, if_pos hcovers]
  refine (tokenAtFrom?_fill p n (by omega) (by omega) hmax).trans ?_
  rw [hchildren, Cursor.tokenAtFrom?_append _ _ _ _ _ (by omega), Nat.zero_add,
    Cursor.tokenAtFrom?, ← hstart]
  have htoken : (⟨t.start, (Tree.token t.token).width⟩ : Span).contains offset = true := hoffset
  rw [if_pos htoken, Cursor.tokenAtOf?, hstart]
  exact congrArg some heq.symm

end Place

/-! ## The class around a caret -/

/-- A caret in the name of a class selects the class. -/
theorem Located.atSpan?_caret {d : Document} {c : Cursor} {t : TokenCursor} {offset : Nat}
    (hs : c.Stands d.root) (hc : c.kind = .classDeclaration) (ht : t ∈ c.childTokens)
    (htrivia : t.isTrivia = false) (hoffset : t.span.contains offset = true) :
    atSpan? d (.caret offset) = some ⟨d, c⟩ := by
  obtain ⟨p, hp, hfill⟩ := hs
  rw [hp] at ht
  obtain ⟨hfound, hinside⟩ := Place.tokenAt?_of_mem_childTokens ht hoffset
  rw [hfill] at hfound hinside
  have hsignificant : d.cursor.significantTokenAt? offset = some t := by
    rw [Cursor.significantTokenAt?, Document.cursor, hfound]
    simp only [htrivia]
    rfl
  have hparent : t.parent = c := by
    obtain ⟨_, _, -, heq⟩ := Cursor.exists_split_of_mem_childTokens ht
    rw [heq, ← hp]
  have hclass : t.ancestors.find? (fun c => c.kind == .classDeclaration) = some c := by
    rw [TokenCursor.ancestors, hparent]
    exact List.find?_cons_of_pos (beq_iff_eq.2 hc)
  obtain ⟨hfrom, hto, hmax⟩ := Span.contains_eq_true.1 hoffset
  have hstop : (Span.caret offset).stop ≤ t.span.stop := by
    rw [Span.stop, Span.stop]
    exact Nat.le_min.2 ⟨Nat.le_trans (Nat.min_le_left _ _) (Nat.le_of_lt hto), Nat.min_le_right _ _⟩
  have hholds : t.span.containsSpan (.caret offset) = true :=
    Bool.and_eq_true_iff.2 ⟨decide_eq_true hfrom, decide_eq_true hstop⟩
  have hends : (Span.caret offset).stop? = some offset := if_pos (Nat.le_of_lt hmax)
  have hcaret : (Span.caret offset).start = offset := rfl
  have hinside : offset < d.cursor.fullSpan.length := hinside
  have hfor : d.cursor.findForSpan? (.caret offset) .classDeclaration = some c := by
    unfold Cursor.findForSpan?
    rw [hends, hcaret, hsignificant]
    simp only [hinside, Nat.le_of_lt hinside, hholds, hclass, decide_true, Bool.and_true, if_true]
  rw [atSpan?, hfor]
  rfl

namespace AttributeUsageRefactoring

/-- With a caret in the name of the first class, the request offers an action if and only if the
pipeline annotates the document, and both come to the same document. The answers are the same for
every token that is not raised. -/
theorem invoked_eq_run {σ : Type} (options : AnalyzerOptions) (d : Document) {c : Cursor}
    {t : TokenCursor} {offset : Nat} {walking : CancelToken σ} {start : σ}
    (hfirst : (d.cursor.findFirst walking .classDeclaration start).1 = .ok (some c))
    (ht : t ∈ c.childTokens) (hkind : t.kind = .identifierToken)
    (hoffset : t.span.contains offset = true) :
    ∃ (offered : Option (CodeAction σ)) (result : Option Document),
      (offered.isSome = true ↔ result.isSome = true) ∧
      ∀ (token : CancelToken σ) (state : σ), (∀ poll, token.answer poll state = false) →
        (compute ⟨options, .standard⟩ token .host d (.caret offset) state).1 = .ok offered ∧
        (AnnotationPipeline.run ⟨options, .standard⟩ token d state).1 = .ok result ∧
        ∀ action ∈ offered, ∃ new, result = some new ∧
          (action.changedDocument token state).1 = .ok new := by
  rw [Cursor.findFirst_eq] at hfirst
  have hclass : d.firstClass? = some c := (CancelToken.eq_of_checked hfirst).symm
  obtain ⟨hstands, hc⟩ := Document.stands_of_firstClass? hclass
  have htrivia : t.isTrivia = false := by
    rw [TokenCursor.isTrivia, ← TokenCursor.kind, hkind]
    rfl
  have hselected := Located.atSpan?_caret hstands hc ht htrivia hoffset
  have hrun : AnnotationPipeline.outcome options d =
      ((some (⟨d, c⟩ : Located)).bind Located.eligible?).map (·.outcome options) := by
    rw [AnnotationPipeline.outcome, hclass]
    rfl
  refine ⟨((some (⟨d, c⟩ : Located)).bind Located.eligible?).map (action ⟨options, .standard⟩),
    AnnotationPipeline.outcome options d, ?_, fun token state hquiet => ⟨?_, ?_, ?_⟩⟩
  · rw [hrun, Option.isSome_map, Option.isSome_map]
  · rw [compute_eq, hselected]
    exact CancelToken.checked_of_quiet (fun poll _ => hquiet poll) _
  · rw [AnnotationPipeline.run_eq]
    exact CancelToken.checked_of_quiet (fun poll _ => hquiet poll) _
  · intro offered hoffered
    obtain ⟨e, he, rfl⟩ := Option.map_eq_some_iff.1 hoffered
    refine ⟨e.outcome options, by rw [hrun, he]; rfl, ?_⟩
    rw [changedDocument_eq]
    exact CancelToken.checked_of_quiet (fun poll _ => hquiet poll) _

/-- A caret in front of a name, where an empty token stands as well, in a class that another class
is in: an action is offered, and invoking it gives what the pipeline gives. -/
theorem invoked_eq_run_nested :
    let inner := Build.typeDeclaration .classDeclaration { name := "B" }
    let outer : Node := ⟨.classDeclaration, [Build.fixed .classKeyword, Build.space,
      .token ⟨.whitespace, ""⟩, Build.identifierToken "A", Build.space,
      (Build.baseList ["System.Attribute"]).toTree, Build.space, inner.toTree]⟩
    let root := Build.compilationUnit [] [outer]
    let d : Document := ⟨0, "A.cs", root, .ofTrees .core [root]⟩
    let c : Cursor := ⟨outer, 0, [⟨root, 0, 0⟩]⟩
    let t : TokenCursor := ⟨⟨.identifierToken, "A"⟩, 6, 3, c⟩
    let never : CancelToken Unit := .never
    (d.cursor.findFirst never .classDeclaration ()).1 = .ok (some c) ∧ t ∈ c.childTokens ∧
      t.kind = .identifierToken ∧ t.span.contains 6 = true ∧ ∃ action new,
        (compute ⟨{}, .standard⟩ never .host d (.caret 6) ()).1 = .ok (some action) ∧
        (AnnotationPipeline.run ⟨{}, .standard⟩ never d ()).1 = .ok (some new) ∧
        (action.changedDocument never ()).1 = .ok new := by
  intro inner outer root d c t never
  have hclass : d.firstClass? = some c := by decide +kernel
  have hfirst : (d.cursor.findFirst never .classDeclaration ()).1 = .ok (some c) := by
    rw [Cursor.findFirst_eq]
    exact (CancelToken.checked_of_quiet (fun poll _ => CancelToken.answer_never poll ()) _).trans
      (congrArg Except.ok hclass)
  have ht : t ∈ c.childTokens := by decide +kernel
  have hoffset : t.span.contains 6 = true := by decide +kernel
  obtain ⟨offered, result, hsome, hanswers⟩ := invoked_eq_run {} d hfirst ht rfl hoffset
  obtain ⟨hcompute, hrun, hinvoked⟩ :=
    hanswers never () fun poll => CancelToken.answer_never poll ()
  have hresult : result = AnnotationPipeline.outcome {} d := by
    rw [AnnotationPipeline.run_eq] at hrun
    exact CancelToken.eq_of_checked hrun
  have houtcome : (AnnotationPipeline.outcome {} d).isSome = true := by decide +kernel
  obtain ⟨action, rfl⟩ := Option.isSome_iff_exists.1 (hsome.2 (hresult ▸ houtcome))
  obtain ⟨new, rfl, hnew⟩ := hinvoked action rfl
  exact ⟨hfirst, ht, rfl, hoffset, action, new, hcompute, hrun, hnew⟩

end AttributeUsageRefactoring

end TreeLint
