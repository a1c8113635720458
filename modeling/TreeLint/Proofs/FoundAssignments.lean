import TreeLint.Proofs.DocumentOrder
import TreeLint.Proofs.LaidOutAnalyses

/-!
# What a scan for localisable strings reports

The rule is a chain of lookups that gives up at the first one with no answer. Taken together they
say which assignments break it, `AssignsToView`, and a scan reports just these: it hands each node
of the tree to the rule once, so the reports come one for each such assignment and in document
order, however the assignments are nested. Each has a token, its literal, so the span that is
reported runs from a first significant token to a last.
-/

namespace TreeLint

namespace LocalisableString

/-! ## What breaks the rule -/

/-- A string literal is assigned to a member of something whose static type is a view. -/
structure AssignsToView (options : LocalisableStringOptions) (compilation : Compilation)
    (c : Cursor) : Prop where
  kind : c.kind = .simpleAssignmentExpression
  value : ∃ value token, c.childNodes[1]? = some value ∧
    (value.kind = .stringLiteralExpression ∨ value.kind = .numericLiteralExpression) ∧
    (value.childTokens.filter fun t => !t.isTrivia).head? = some token ∧
    token.kind = .stringLiteralToken
  receiver : ∃ access receiver type view, c.childNodes[0]? = some access ∧
    access.kind = .simpleMemberAccessExpression ∧ access.childNodes[0]? = some receiver ∧
    compilation.typeOf? receiver = some type ∧
    compilation.table.find? options.viewType = some view ∧
    compilation.table.derivesFrom type view = true

variable {options : LocalisableStringOptions} {compilation : Compilation} {c : Cursor}

theorem isStringLiteral_iff {value : Cursor} : value.isStringLiteral = true ↔
    ∃ token, (value.childTokens.filter fun t => !t.isTrivia).head? = some token ∧
      token.kind = .stringLiteralToken := by
  rw [Cursor.isStringLiteral, Cursor.literalToken?, List.head?_filter]
  cases value.childTokens.find? fun t => !t.isTrivia with
  | none => simp
  | some token => simp

theorem assignsString_iff : assignsString c = true ↔
    ∃ value token, c.childNodes[1]? = some value ∧
      (value.kind = .stringLiteralExpression ∨ value.kind = .numericLiteralExpression) ∧
      (value.childTokens.filter fun t => !t.isTrivia).head? = some token ∧
      token.kind = .stringLiteralToken := by
  rw [assignsString, Cursor.right?]
  cases c.childNodes[1]? with
  | none => simp
  | some value =>
      simp only [Bool.and_eq_true, isStringLiteral_iff, Cursor.isLiteral, Bool.or_eq_true,
        beq_iff_eq, Option.some.injEq]
      constructor
      · rintro ⟨hliteral, token, hfirst, hstring⟩
        exact ⟨value, token, rfl, hliteral, hfirst, hstring⟩
      · rintro ⟨_, token, rfl, hliteral, hfirst, hstring⟩
        exact ⟨hliteral, token, hfirst, hstring⟩

theorem receiver?_eq_some_iff {receiver : Cursor} : receiver? c = some receiver ↔
    ∃ access, c.childNodes[0]? = some access ∧ access.kind = .simpleMemberAccessExpression ∧
      access.childNodes[0]? = some receiver := by
  rw [receiver?, Cursor.left?]
  cases c.childNodes[0]? with
  | none => simp
  | some access => simp [Cursor.left?]

/-- The rule is broken by what it is about and by nothing else. -/
theorem isLocalisable_iff :
    isLocalisable options compilation c = true ↔ AssignsToView options compilation c := by
  have hmatch : isLocalisable options compilation c = true ↔
      (c.kind = .simpleAssignmentExpression ∧ assignsString c = true) ∧
        ∃ receiver type view, receiver? c = some receiver ∧
          compilation.typeOf? receiver = some type ∧
          compilation.table.find? options.viewType = some view ∧
          compilation.table.derivesFrom type view = true := by
    rw [isLocalisable, Bool.and_eq_true, Bool.and_eq_true, beq_iff_eq]
    refine and_congr_right fun _ => ?_
    cases receiver? c with
    | none => simp
    | some receiver =>
        dsimp only
        split
        · next type view htype hview => simp [htype, hview]
        · next hnone =>
            refine ⟨fun h => (Bool.false_ne_true h).elim, ?_⟩
            rintro ⟨_, type, view, hsame, htype, hview, -⟩
            cases hsame
            exact (hnone type view htype hview).elim
  rw [hmatch, assignsString_iff]
  constructor
  · rintro ⟨⟨hkind, hvalue⟩, receiver, type, view, hreceiver, htype, hview, hderives⟩
    obtain ⟨access, hleft, haccess, hinner⟩ := receiver?_eq_some_iff.1 hreceiver
    exact ⟨hkind, hvalue, access, receiver, type, view, hleft, haccess, hinner, htype, hview,
      hderives⟩
  · rintro ⟨hkind, hvalue, access, receiver, type, view, hleft, haccess, hinner, htype, hview,
      hderives⟩
    exact ⟨⟨hkind, hvalue⟩, receiver, type, view,
      receiver?_eq_some_iff.2 ⟨access, hleft, haccess, hinner⟩, htype, hview, hderives⟩

/-- What is reported of an assignment. -/
def report (options : LocalisableStringOptions) (d : Document) (c : Cursor) : Diagnostic where
  id := "IR001"
  title := "Potentially Localisable String"
  message := "This could be potentially localised. Consider using a resource lookup instead."
  severity := options.severity
  location := ⟨d.name, c.span⟩

theorem diagnose_eq (options : LocalisableStringOptions) (d : Document) (c : Cursor) :
    diagnose options d c =
      if isLocalisable options d.compilation c then [report options d c] else [] := rfl

/-! ## A scan -/

/-- The assignments of a document that break the rule, in document order. -/
def localisable (options : LocalisableStringOptions) (d : Document) : List Cursor :=
  d.cursor.descendants.filter (isLocalisable options d.compilation)

theorem flatMap_diagnose (options : LocalisableStringOptions) (d : Document)
    (cursors : List Cursor) : cursors.flatMap (diagnose options d) =
      (cursors.filter (isLocalisable options d.compilation)).map (report options d) := by
  induction cursors with
  | nil => rfl
  | cons c rest ih =>
      rw [List.flatMap_cons, ih, diagnose_eq, List.filter_cons]
      split <;> rfl

theorem findings_enabled {options : AnalyzerOptions} (h : options.localisableString.enabled = true)
    (d : Document) :
    AnalyzerRegistry.findings options d = diagnose options.localisableString d := by
  funext c
  rw [AnalyzerRegistry.findings, if_pos h]

/-- The spans of assignments that break the rule start in document order. -/
theorem pairwise_start_localisable (options : LocalisableStringOptions) (d : Document) :
    (localisable options d).Pairwise fun a b => a.span.start ≤ b.span.start := by
  have hordered : (localisable options d).Pairwise Cursor.StartsBefore :=
    d.cursor.pairwise_startsBefore_descendants.filter _
  refine hordered.imp_of_mem fun ha hb hbefore => ?_
  obtain ⟨first, -, hfirst, -, hstart, -⟩ :=
    Cursor.span_of_significant (significant_ne_nil (List.mem_filter.1 ha).2)
  obtain ⟨first', -, hfirst', -, hstart', -⟩ :=
    Cursor.span_of_significant (significant_ne_nil (List.mem_filter.1 hb).2)
  rw [hstart, hstart']
  exact hbefore first hfirst first' hfirst'

/-- A scan whose token is not raised reports each assignment of a string to a member of a view once,
in document order, and nothing else. The spans it reports never start further in front than the one
before, and run from the first to the last significant token of their assignments. -/
theorem scan_reports_assignments {options : AnalyzerOptions}
    (henabled : options.localisableString.enabled = true) (d : Document) :
    ∃ assignments : List Cursor,
      assignments.Sublist d.cursor.descendants ∧
      (∀ c, c ∈ assignments ↔ c ∈ d.cursor.descendants ∧
        AssignsToView options.localisableString d.compilation c) ∧
      assignments.Pairwise (fun a b => a.path < b.path) ∧
      assignments.Pairwise (fun a b => a.span.start ≤ b.span.start) ∧
      (∀ c ∈ assignments, ∃ first last, c.significant.head? = some first ∧
        c.significant.getLast? = some last ∧ c.span.start = first.start ∧
        c.span.stop = last.span.stop) ∧
      ∀ {σ : Type} (token : CancelToken σ) (state : σ),
        (∀ poll, token.answer poll state = false) →
          ((AnalyzerRegistry.builtIn σ options).scan token d state).1 =
            .ok (assignments.map (report options.localisableString d)) := by
  refine ⟨localisable options.localisableString d, List.filter_sublist, fun c => ?_,
    d.cursor.pairwise_path_descendants.filter _, pairwise_start_localisable _ d, fun c hc => ?_,
    fun token state hquiet => ?_⟩
  · rw [localisable, List.mem_filter, isLocalisable_iff]
  · exact Cursor.span_of_significant (significant_ne_nil (List.mem_filter.1 hc).2)
  · rw [AnalyzerRegistry.scan_builtIn, findings_enabled henabled, flatMap_diagnose]
    exact CancelToken.checked_of_quiet (fun poll _ => hquiet poll) _

/-- Three assignments of strings: to a member of a view, through a chain of assignments whose inner
one is the only one with a literal, and to a plain name. -/
theorem scan_reports_assignments_in_chain :
    let access := Build.memberAccess (Build.identifierName "label")
    let statements :=
      [Build.assignment (access "Text") (Build.stringLiteral "One"),
        Build.assignment (access "Hint")
          (Build.assignment (access "Title") (Build.stringLiteral "Two")),
        Build.assignment (Build.identifierName "title") (Build.stringLiteral "Three")]
    let view := Build.namespaceDeclaration "Xamarin.Forms"
      [Build.typeDeclaration .classDeclaration { name := "View" }]
    let page := Build.typeDeclaration .classDeclaration
      { name := "Page", bases := ["Xamarin.Forms.View"],
        members := [Build.method "Show" (statements.map Build.expressionStatement)] }
    let root := Build.compilationUnit [] [view, page]
    let bound : Compilation := .ofTrees .core [root]
    let d : Document := ⟨0, "Page.cs", root,
      bound.declareLocal "label" ((bound.table.find? "Page").getD 0)⟩
    ∃ assignments : List Cursor,
      (∀ c ∈ assignments, AssignsToView {} d.compilation c) ∧
      ((AnalyzerRegistry.builtIn Unit {}).scan .never d ()).1 =
        .ok (assignments.map (report {} d)) ∧
      assignments.map (·.span) = [⟨97, 18⟩, ⟨130, 19⟩] := by
  intro access statements view page root bound d
  obtain ⟨assignments, -, hmem, -, -, -, hrun⟩ :=
    scan_reports_assignments (rfl : ({} : AnalyzerOptions).localisableString.enabled = true) d
  have hscan := hrun (.never : CancelToken Unit) () fun poll => CancelToken.answer_never poll ()
  have hspans : (d.cursor.descendants.flatMap (AnalyzerRegistry.findings {} d)).map
      (·.location.span) = [⟨97, 18⟩, ⟨130, 19⟩] := by decide +kernel
  have hreports : d.cursor.descendants.flatMap (AnalyzerRegistry.findings {} d) =
      assignments.map (report {} d) := by
    rw [AnalyzerRegistry.scan_builtIn,
      CancelToken.checked_of_quiet fun poll _ => CancelToken.answer_never poll ()] at hscan
    exact Except.ok.inj hscan
  rw [hreports, List.map_map] at hspans
  exact ⟨assignments, fun c hc => ((hmem c).1 hc).2, hscan, hspans⟩

end LocalisableString

end TreeLint
