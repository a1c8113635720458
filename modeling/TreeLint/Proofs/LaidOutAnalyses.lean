import TreeLint.Analysis.LocalisableString
import TreeLint.Proofs.AnnotationBinding
import TreeLint.Proofs.Counterparts

/-!
# Analyses do not see layout

An analysis asks a node for its kind, for children by number or kind, for the first token that is no
trivia, for a dotted name and for the scope it stands in. Of two counterparts all this is the same:
blanks and line breaks move the indices and offsets of children, but children are numbered among the
nodes alone, and nothing is asked of a token before its kind was looked at.

So the rule on localisable strings gives one answer for a node and its counterpart, and a class may
be annotated if its counterpart may. A scan goes over the nodes in order and does the same at each
of them; what it finds in a document and in its layout differs in offsets alone.
-/

namespace TreeLint

/-! ## What is asked of a node -/

theorem AlikeAll.literal_eq {old new : List Element} (h : AlikeButTrivia old new) :
    ((old.filterMap Element.token?).find? fun t => !t.isTrivia).map (·.token) =
      ((new.filterMap Element.token?).find? fun t => !t.isTrivia).map (·.token) := by
  have hextra : ∀ (e : Element) (es : List Element), e.isTrivia = true →
      ((e :: es).filterMap Element.token?).find? (fun t => !t.isTrivia) =
        (es.filterMap Element.token?).find? fun t => !t.isTrivia := by
    intro e es he
    cases e with
    | node c => cases he
    | token t =>
        have ht : t.isTrivia = true := he
        rw [List.filterMap_cons_some (by rfl), List.find?_cons, ht]
        rfl
  induction h with
  | nil => rfl
  | @token t u _ _ h _ ih =>
      have hsame : t.isTrivia = u.isTrivia := by rw [TokenCursor.isTrivia, TokenCursor.isTrivia, h]
      rw [List.filterMap_cons_some (by rfl), List.filterMap_cons_some (by rfl), List.find?_cons,
        List.find?_cons, hsame]
      cases u.isTrivia with
      | true => exact ih
      | false => exact congrArg some h
  | kept _ _ _ _ ih => exact ih
  | swapped h _ _ => exact h.elim
  | dropped h _ ih => rw [hextra _ _ h, ih]
  | added h _ ih => rw [hextra _ _ h, ih]

/-- Related lists hold related values at each index. -/
theorem forall₂_getElem? {α β : Type} {r : α → β → Prop} {as : List α} {bs : List β}
    (h : List.Forall₂ r as bs) (i : Nat) : Option.Rel r as[i]? bs[i]? := by
  induction h generalizing i with
  | nil => exact .none
  | cons hab _ ih =>
      cases i with
      | zero => exact .some hab
      | succ i =>
          rw [List.getElem?_cons_succ, List.getElem?_cons_succ]
          exact ih i

namespace DifferInTrivia

variable {c d : Cursor}

theorem isStringLiteral_eq (h : DifferInTrivia c d) : c.isStringLiteral = d.isStringLiteral := by
  have hliteral : c.literalToken?.map (·.token) = d.literalToken?.map (·.token) :=
    h.under.literal_eq
  have hkind : ∀ e : Cursor, e.isStringLiteral =
      match e.literalToken?.map (·.token) with
      | some t => t.kind == .stringLiteralToken
      | none => false := by
    intro e
    rw [Cursor.isStringLiteral]
    cases e.literalToken? <;> rfl
  rw [hkind, hkind, hliteral]

theorem child (h : DifferInTrivia c d) (hk : c.kind.isTypeDeclaration = false) (i : Nat) :
    Option.Rel (Paired DifferInTrivia c d) c.childNodes[i]? d.childNodes[i]? :=
  forall₂_getElem? (h.childNodes hk) i

end DifferInTrivia

/-- An expression and its counterpart have the same static type. -/
theorem Paired.typeOf?_eq {p q c d : Cursor} (h : Paired DifferInTrivia p q c d)
    (hp : p.kind ≠ .attributeArgument) (hscope : List.Forall₂ SameScope p.scope q.scope)
    (compilation : Compilation) : compilation.typeOf? c = compilation.typeOf? d := by
  have hdotted := h.related.dotted?_eq harmless_trivia (h.parentKind_ne hp)
  have hresolve := fun dotted => SymbolTable.resolve?_congr
    (rfl : compilation.table.places = compilation.table.places)
    (h.scope harmless_trivia hscope) dotted false
  unfold Compilation.typeOf?
  simp only [h.related.kind, hdotted, hresolve]

namespace LocalisableString

variable {c d : Cursor}

theorem assignsString_eq (h : DifferInTrivia c d) (hk : c.kind = .simpleAssignmentExpression) :
    assignsString c = assignsString d := by
  have hright : Option.Rel (Paired DifferInTrivia c d) c.right? d.right? :=
    h.child (by rw [hk]; rfl) 1
  unfold assignsString
  generalize c.right? = right at hright
  generalize d.right? = right' at hright
  cases hright with
  | none => rfl
  | some hpair =>
      simp only [Cursor.isLiteral, hpair.related.kind, hpair.related.isStringLiteral_eq]

/-- The receiver of an assignment has the type of that of the counterpart. -/
theorem receiver?_rel (h : DifferInTrivia c d) (hk : c.kind = .simpleAssignmentExpression)
    (hscope : List.Forall₂ SameScope c.scope d.scope) (compilation : Compilation) :
    Option.Rel (fun a b => compilation.typeOf? a = compilation.typeOf? b) (receiver? c)
      (receiver? d) := by
  have hleft : Option.Rel (Paired DifferInTrivia c d) c.left? d.left? :=
    h.child (by rw [hk]; rfl) 0
  unfold receiver?
  generalize c.left? = left at hleft
  generalize d.left? = left' at hleft
  cases hleft with
  | none => exact .none
  | @some a b hpair =>
      simp only [← hpair.related.kind]
      by_cases haccess : a.kind = .simpleMemberAccessExpression
      · rw [if_pos haccess, if_pos haccess]
        have hreceiver : Option.Rel (Paired DifferInTrivia a b) a.left? b.left? :=
          hpair.related.child (by rw [haccess]; rfl) 0
        have hinner := hpair.scope harmless_trivia hscope
        generalize a.left? = receiver at hreceiver ⊢
        generalize b.left? = receiver' at hreceiver ⊢
        cases hreceiver with
        | none => exact .none
        | some hinside => exact .some (hinside.typeOf?_eq (by rw [haccess]; simp) hinner _)
      · rw [if_neg haccess, if_neg haccess]
        exact .none

theorem isLocalisable_eq (options : LocalisableStringOptions) (compilation : Compilation)
    (h : DifferInTrivia c d) (hscope : List.Forall₂ SameScope c.scope d.scope) :
    isLocalisable options compilation c = isLocalisable options compilation d := by
  by_cases hk : c.kind = .simpleAssignmentExpression
  · have hreceiver := receiver?_rel h hk hscope compilation
    unfold isLocalisable
    rw [← h.kind, assignsString_eq h hk]
    generalize receiver? c = receiver at hreceiver
    generalize receiver? d = receiver' at hreceiver
    cases hreceiver with
    | none => rfl
    | some htype => simp only [htype]
  · have hk' : (c.kind == .simpleAssignmentExpression) = false := beq_eq_false_iff_ne.2 hk
    unfold isLocalisable
    rw [← h.kind, hk']
    rfl

/-- What breaks the rule has a token, the literal. -/
theorem significant_ne_nil {options : LocalisableStringOptions} {compilation : Compilation}
    (h : isLocalisable options compilation c = true) : c.significant ≠ [] := by
  unfold isLocalisable at h
  rw [Bool.and_eq_true, Bool.and_eq_true] at h
  have hassigns := h.1.2
  unfold assignsString at hassigns
  split at hassigns
  · next right hright =>
      rw [Bool.and_eq_true] at hassigns
      have hliteral := hassigns.2
      unfold Cursor.isStringLiteral at hliteral
      split at hliteral
      · next t ht =>
          have htoken : t ∈ right.childTokens := List.mem_of_find?_eq_some ht
          have hsignificant : t.isTrivia = false := by
            have hfits := List.find?_some ht
            rwa [Bool.not_eq_true'] at hfits
          have hchild : right ∈ c.childNodes := List.mem_of_getElem? hright
          exact List.ne_nil_of_mem (Cursor.mem_significant_of_childNode hchild
            (Cursor.mem_significant_of_childToken htoken hsignificant))
      · cases hliteral
  · cases hassigns

end LocalisableString

/-! ## What is found -/

/-- Two observations of one rule, made in two trees at the same range of significant tokens. -/
structure SameFinding (root root' : Cursor) (a b : Diagnostic) : Prop where
  id : a.id = b.id
  title : a.title = b.title
  message : a.message = b.message
  severity : a.severity = b.severity
  file : a.location.file = b.location.file
  range : ∃ first last, root.Covers first last a.location.span ∧
    root'.Covers first last b.location.span

namespace Counterpart

variable {root root' c d : Cursor}

theorem scope (h : Counterpart root root' c d) : List.Forall₂ SameScope c.scope d.scope :=
  .cons (h.differ.sameScope harmless_trivia) h.around

theorem diagnose (options : LocalisableStringOptions) (doc : Document) (n : Node)
    (h : Counterpart root root' c d) :
    List.Forall₂ (SameFinding root root') (LocalisableString.diagnose options doc c)
      (LocalisableString.diagnose options (doc.withRoot n) d) := by
  have hsame : LocalisableString.isLocalisable options doc.compilation c =
      LocalisableString.isLocalisable options (doc.withRoot n).compilation d :=
    LocalisableString.isLocalisable_eq options doc.compilation h.differ h.scope
  unfold LocalisableString.diagnose
  rw [← hsame]
  split
  · next hbreaks =>
      have hcovers := h.covers (LocalisableString.significant_ne_nil hbreaks)
      exact .cons ⟨rfl, rfl, rfl, rfl, rfl, hcovers⟩ .nil
  · exact .nil

end Counterpart

/-! ## Scanning -/

namespace AnalyzerRegistry

variable {σ : Type}

/-- What the built-in analyzers find at a node. -/
def findings (options : AnalyzerOptions) (d : Document) (c : Cursor) : List Diagnostic :=
  if options.localisableString.enabled then
    LocalisableString.diagnose options.localisableString d c
  else []

theorem analyzeNode_builtIn (options : AnalyzerOptions) (d : Document) (c : Cursor) :
    (analyzeNode d c ((builtIn σ options).forKind c.kind) : StateM σ (List Diagnostic)) =
      pure (findings options d c) := by
  unfold builtIn findings
  split
  · by_cases hk : c.kind = .simpleAssignmentExpression
    · rw [hk]
      show _ = (pure (LocalisableString.diagnose _ d c) : StateM σ _)
      rw [← List.append_nil (LocalisableString.diagnose _ d c)]
      rfl
    · have hnone : LocalisableString.diagnose options.localisableString d c = [] := by
        have hk' : (c.kind == .simpleAssignmentExpression) = false := beq_eq_false_iff_ne.2 hk
        simp [LocalisableString.diagnose, LocalisableString.isLocalisable, hk']
      have hunlisted :
          (register {} (LocalisableString.analyzer σ options.localisableString)).forKind c.kind =
            [] := by
        show KindTable.lookUp [(Kind.simpleAssignmentExpression, _)] c.kind = []
        rw [KindTable.lookUp, List.find?_cons_of_neg (by simpa using Ne.symm hk), List.find?_nil]
      rw [hnone, hunlisted]
      rfl
  · rfl

/-- A scan polls once for each node, and finds what there is at each of them. -/
theorem scanNodes_eq {r : AnalyzerRegistry σ} {d : Document} {f : Cursor → List Diagnostic}
    (hf : ∀ c, analyzeNode d c (r.forKind c.kind) = pure (f c)) (token : CancelToken σ)
    (found : List Diagnostic) (cursors : List Cursor) :
    r.scanNodes token d found cursors =
      token.checked cursors.length (found ++ cursors.flatMap f) := by
  induction cursors generalizing found with
  | nil =>
      rw [List.flatMap_nil, List.append_nil]
      rfl
  | cons c rest ih =>
      rw [scanNodes, CancelToken.check_eq, List.flatMap_cons, ← List.append_assoc,
        List.length_cons, Nat.add_comm]
      refine CancelToken.checked_bind ?_
      rw [hf]
      exact ih (found ++ f c)

theorem scan_builtIn (options : AnalyzerOptions) (token : CancelToken σ) (d : Document) :
    (builtIn σ options).scan token d =
      token.checked d.cursor.descendants.length
        (d.cursor.descendants.flatMap (findings options d)) :=
  scanNodes_eq (analyzeNode_builtIn options d) token [] d.cursor.descendants

end AnalyzerRegistry

/-! ## Classes -/

/-- The class declarations of a document, in document order. -/
def Document.classes (d : Document) : List Cursor :=
  d.cursor.descendants.filter fun c => c.kind == .classDeclaration

theorem Document.classes_eq (d : Document) : d.classes =
    (SymbolTable.declarationsIn d.root).filter fun c => c.kind == .classDeclaration := by
  have hdeclares : ∀ k : Kind, (k == .classDeclaration) =
      (k == .classDeclaration && k.isTypeDeclaration) := by
    intro k
    cases k <;> rfl
  rw [SymbolTable.declarationsIn, List.filter_filter]
  exact List.filter_congr fun c _ => hdeclares c.kind

theorem SameDeclaration.attributeBase?_eq {table : SymbolTable} {c d : Cursor}
    (h : SameDeclaration table c d) :
    Located.attributeBase? table c = Located.attributeBase? table d := by
  unfold Located.attributeBase?
  rw [h.bases]

theorem map_attributeBase?_eq {table : SymbolTable} {cs ds : List Cursor}
    (h : List.Forall₂ (SameDeclaration table) cs ds) :
    (cs.filter fun c => c.kind == .classDeclaration).map (Located.attributeBase? table) =
      (ds.filter fun c => c.kind == .classDeclaration).map (Located.attributeBase? table) := by
  induction h with
  | nil => rfl
  | cons hsame _ ih =>
      rw [List.filter_cons, List.filter_cons, hsame.kind]
      split
      · rw [List.map_cons, List.map_cons, hsame.attributeBase?_eq, ih]
      · exact ih

theorem Located.map_attributeBase_eligible? (d : Document) (c : Cursor) :
    (Located.eligible? ⟨d, c⟩).map (·.attributeBase) = attributeBase? d.compilation.table c := by
  rw [eligible?, Option.map_map]
  exact congrFun Option.map_id _

namespace FormattingOptions

theorem map_attributeBase_classes (layout : FormattingOptions) (d : Document) :
    d.classes.map (Located.attributeBase? d.compilation.table) =
      (d.withRoot (layout.format d.root)).classes.map
        (Located.attributeBase? d.compilation.table) := by
  rw [Document.classes_eq, Document.classes_eq]
  exact map_attributeBase?_eq ((layout.alike_format d.root).declarationsIn
    (keepsDeclarations_trivia d.compilation.table))

theorem findings_format (layout : FormattingOptions) (options : AnalyzerOptions) (d : Document) :
    List.Forall₂ (SameFinding d.cursor (d.withRoot (layout.format d.root)).cursor)
      (d.cursor.descendants.flatMap (AnalyzerRegistry.findings options d))
      ((d.withRoot (layout.format d.root)).cursor.descendants.flatMap
        (AnalyzerRegistry.findings options (d.withRoot (layout.format d.root)))) := by
  have hcounterparts := DifferInTrivia.counterparts (layout.alike_format d.root)
  refine List.rel_flatMap hcounterparts fun c e hce => ?_
  unfold AnalyzerRegistry.findings
  split
  · exact hce.diagnose options.localisableString d _
  · exact .nil

/-- Layout does not change what analyses see. A scan of the original polls once for each node, one
of the document that was laid out polls as often, and both find the same in the same order, each at
the same range of significant tokens; and their classes may be annotated for the same base types,
one by one. -/
theorem analyses_format {σ : Type} (layout : FormattingOptions) (options : AnalyzerOptions)
    (d : Document) :
    let laidOut := d.withRoot (layout.format d.root)
    let polls := d.cursor.descendants.length
    (∃ found found', List.Forall₂ (SameFinding d.cursor laidOut.cursor) found found' ∧
      ∀ token : CancelToken σ,
        (AnalyzerRegistry.builtIn σ options).scan token d = token.checked polls found ∧
          (AnalyzerRegistry.builtIn σ options).scan token laidOut = token.checked polls found') ∧
      d.classes.map (fun c => (Located.eligible? ⟨d, c⟩).map (·.attributeBase)) =
        laidOut.classes.map fun c => (Located.eligible? ⟨laidOut, c⟩).map (·.attributeBase) := by
  intro laidOut polls
  constructor
  · have hfound := layout.findings_format options d
    have hnodes := (DifferInTrivia.counterparts (layout.alike_format d.root)).length_eq
    refine ⟨_, _, hfound, fun token => ⟨AnalyzerRegistry.scan_builtIn options token d, ?_⟩⟩
    rw [AnalyzerRegistry.scan_builtIn]
    exact congrArg (token.checked · _) hnodes.symm
  · simp only [Located.map_attributeBase_eligible?]
    exact layout.map_attributeBase_classes d

end FormattingOptions

end TreeLint
