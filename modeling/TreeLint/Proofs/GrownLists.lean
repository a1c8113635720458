import Mathlib.Logic.Relation
import TreeLint.Proofs.AnnotationBinding
import TreeLint.Proofs.FirstClass
import TreeLint.Proofs.LaidOutAnalyses

/-!
# Attribute lists that are added

Annotating a class, laying out the tree and shortening its names keep all declarations of a tree, in
their order. Each is recognised by its kind, its name and the kinds of the nodes around it, and has
the bases it had. Its attribute lists are those it had, perhaps laid out and shortened, and one more
behind them if it is the class that was annotated.

The changes are followed by the number that a declaration has in the list of all of them. Layout and
shortening are one case here: nothing they put in or leave out is a node, and nothing they exchange
is a child of a declaration, so its attribute lists correspond one to one.
-/

namespace TreeLint

/-! ## Lists that grow -/

/-- Two nodes that differ in trivia and abbreviated names alone. -/
abbrev DifferInStyle (table : SymbolTable) (c d : Cursor) : Prop :=
  Alike (fun e => e.isTrivia = true) (Abbreviated table) c d

/-- A node after some rounds of layout and shortening. -/
def Restyled (table : SymbolTable) : Cursor → Cursor → Prop :=
  Relation.ReflTransGen (DifferInStyle table)

theorem Restyled.of_node_eq {table : SymbolTable} {c d : Cursor} (h : c.node = d.node) :
    Restyled table c d := by
  refine .single ⟨congrArg Node.kind h, ?_⟩
  rw [Cursor.elements, Cursor.elements, h]
  exact .same _ _ _ _ _ _ _

/-- Some attribute lists with some annotations for a target behind them, all of them perhaps laid
out and shortened since. -/
def Grown (table : SymbolTable) (target : AttributeTarget) (added : Nat)
    (old new : List Cursor) : Prop :=
  ∃ annotations : List Cursor, annotations.length = added ∧
    (∀ c ∈ annotations, c.node = target.annotation) ∧
      List.Forall₂ (Restyled table) (old ++ annotations) new

namespace Grown

variable {table : SymbolTable} {target : AttributeTarget} {old mid new : List Cursor}

theorem of_restyled (h : List.Forall₂ (Restyled table) old new) : Grown table target 0 old new :=
  ⟨[], rfl, fun _ hc => absurd hc List.not_mem_nil, by rwa [List.append_nil]⟩

theorem trans {m n : Nat} (h : Grown table target m old mid) (h' : Grown table target n mid new) :
    Grown table target (m + n) old new := by
  obtain ⟨first, hfirst, hannotations, hmid⟩ := h
  obtain ⟨second, hsecond, hannotations', hnew⟩ := h'
  refine ⟨first ++ second, ?_, fun c hc => ?_, ?_⟩
  · rw [List.length_append, hfirst, hsecond]
  · rcases List.mem_append.1 hc with hc | hc
    · exact hannotations c hc
    · exact hannotations' c hc
  · have hsame : List.Forall₂ (Restyled table) second second :=
      List.forall₂_same.2 fun _ _ => .refl
    rw [← List.append_assoc]
    exact forall₂_trans .trans (List.rel_append hmid hsame) hnew

/-- Lists of the same nodes but for annotations behind them. -/
theorem of_nodes {added : Nat} (h : new.map (·.node) =
    old.map (·.node) ++ List.replicate added target.annotation) :
    Grown table target added old new := by
  obtain ⟨kept, fresh, rfl, hkept, hfresh⟩ := List.map_eq_append_iff.1 h
  refine ⟨fresh, ?_, fun c hc => ?_, List.rel_append ?_ (List.forall₂_same.2 fun _ _ => .refl)⟩
  · have hlength := congrArg List.length hfresh
    rwa [List.length_map, List.length_replicate] at hlength
  · exact List.eq_of_mem_replicate (hfresh ▸ List.mem_map_of_mem hc)
  · have hnodes : List.Forall₂ (· = ·) (old.map (·.node)) (kept.map (·.node)) := by
      rw [hkept]
      exact List.forall₂_same.2 fun _ _ => rfl
    rw [List.forall₂_map_left_iff, List.forall₂_map_right_iff] at hnodes
    exact hnodes.imp fun _ _ => .of_node_eq

theorem length_eq {added : Nat} (h : Grown table target added old new) :
    new.length = old.length + added := by
  obtain ⟨annotations, rfl, -, hnew⟩ := h
  rw [← hnew.length_eq, List.length_append]

end Grown

/-! ## Declarations that are recognised -/

/-- A declaration and the one that it is in another tree. -/
structure Recognised (table : SymbolTable) (c d : Cursor) : Prop where
  kind : c.kind = d.kind
  name : c.identifier?.map (·.token) = d.identifier?.map (·.token)
  space : c.containingNamespace? = d.containingNamespace?
  around : c.above.map (·.node.kind) = d.above.map (·.node.kind)
  bases : c.kind.isTypeDeclaration = true →
    c.baseNames.filterMap table.resolveName? = d.baseNames.filterMap table.resolveName?

namespace Recognised

variable {table : SymbolTable} {c d e : Cursor}

theorem trans (h : Recognised table c d) (h' : Recognised table d e) : Recognised table c e where
  kind := h.kind.trans h'.kind
  name := h.name.trans h'.name
  space := h.space.trans h'.space
  around := h.around.trans h'.around
  bases := fun hc => (h.bases hc).trans (h'.bases (h.kind ▸ hc))

theorem isOuterClass_eq (h : Recognised table c d) : c.isOuterClass = d.isOuterClass := by
  have hinside : ∀ e : Cursor,
      e.inContainers = (e.above.map (·.node.kind)).all Kind.isContainer := by
    intro e
    rw [List.all_map]
    rfl
  rw [Cursor.isOuterClass, Cursor.isOuterClass, hinside, hinside, h.kind, h.around]

end Recognised

/-- A declaration that is recognised and has some annotations for a target more. -/
structure Continued (table : SymbolTable) (target : AttributeTarget) (added : Nat)
    (c d : Cursor) : Prop extends Recognised table c d where
  lists : Grown table target added c.attributeLists d.attributeLists

theorem Continued.trans {table : SymbolTable} {target : AttributeTarget} {m n : Nat}
    {c d e : Cursor} (h : Continued table target m c d) (h' : Continued table target n d e) :
    Continued table target (m + n) c e :=
  ⟨h.toRecognised.trans h'.toRecognised, h.lists.trans h'.lists⟩

/-- All declarations are recognised by their numbers, the one with a given number has some
annotations more, and all others have as many attribute lists as before. -/
def ContinuedAt (table : SymbolTable) (target : AttributeTarget) (place added : Nat)
    (old new : List Cursor) : Prop :=
  ∀ number, Option.Rel (Continued table target (if number = place then added else 0))
    old[number]? new[number]?

namespace ContinuedAt

variable {table : SymbolTable} {target : AttributeTarget} {place : Nat} {old mid new : List Cursor}

theorem refl (table : SymbolTable) (target : AttributeTarget) (place : Nat) (old : List Cursor) :
    ContinuedAt table target place 0 old old := by
  intro number
  rw [ite_self]
  cases old[number]? with
  | none => exact .none
  | some c =>
      exact .some ⟨⟨rfl, rfl, rfl, rfl, fun _ => rfl⟩,
        .of_restyled (List.forall₂_same.2 fun _ _ => .refl)⟩

theorem trans {m n : Nat} (h : ContinuedAt table target place m old mid)
    (h' : ContinuedAt table target place n mid new) :
    ContinuedAt table target place (m + n) old new := by
  intro number
  have hadded : (if number = place then m + n else 0) =
      (if number = place then m else 0) + if number = place then n else 0 := by
    split <;> rfl
  have hfirst := h number
  have hsecond := h' number
  rw [hadded]
  generalize old[number]? = a at hfirst
  generalize mid[number]? = b at hfirst hsecond
  generalize new[number]? = c at hsecond
  cases hfirst with
  | none =>
      cases hsecond
      exact .none
  | some hab =>
      cases hsecond with
      | some hbc => exact .some (hab.trans hbc)

/-- The first class keeps its number. -/
theorem firstClassNumber_eq {added : Nat} {root root' : Node}
    (h : ContinuedAt table target place added root.declarations root'.declarations) :
    root'.firstClassNumber = root.firstClassNumber := by
  have hsame : root'.declarations.map Cursor.isOuterClass =
      root.declarations.map Cursor.isOuterClass := by
    refine List.ext_getElem? fun number => ?_
    rw [List.getElem?_map, List.getElem?_map]
    have hnumber := h number
    generalize root.declarations[number]? = c at hnumber
    generalize root'.declarations[number]? = d at hnumber
    cases hnumber with
    | none => rfl
    | some hcd => exact congrArg some hcd.isOuterClass_eq.symm
  have hfind : ∀ root : Node, root.firstClassNumber =
      (root.declarations.map Cursor.isOuterClass).findIdx id := fun root =>
    (List.findIdx_map root.declarations Cursor.isOuterClass id).symm
  rw [hfind, hfind, hsame]

end ContinuedAt

/-! ## What is kept -/

/-- Two nodes of one kind that open and import the same. -/
structure SameAround (n m : Node) : Prop where
  scope : SameScope n m
  kind : n.kind = m.kind

section

variable {table : SymbolTable} {extra : Element → Prop} {swap : Cursor → Cursor → Prop}

/-- Declarations that are kept are recognised if all nodes around them are kept. -/
theorem KeptAs.recognised (hk : KeepsDeclarations table extra swap) {c d : Cursor}
    (h : KeptAs Kind.declares SameAround extra swap c d) :
    Recognised table c d where
  kind := h.alike.kind
  name := h.alike.identifier?_eq hk.toHarmless
  space := containingNamespace?_congr (h.above.imp fun _ _ hnm => hnm.scope)
  around := by
    have hkinds : List.Forall₂ (· = ·) ((c.above.map (·.node)).map Node.kind)
        ((d.above.map (·.node)).map Node.kind) := by
      rw [List.forall₂_map_left_iff, List.forall₂_map_right_iff]
      exact h.above.imp fun _ _ hnm => hnm.kind
    rw [List.forall₂_eq_eq_eq, List.map_map, List.map_map] at hkinds
    exact hkinds
  bases := fun hdeclares =>
    (h.alike.sameDeclaration hk hdeclares (h.above.imp fun _ _ hnm => hnm.scope)).bases

theorem Alike.declarations (hk : KeepsDeclarations table extra swap)
    (hspares : Spares Kind.declares extra swap) {root root' : Node}
    (h : Alike extra swap (.ofRoot root) (.ofRoot root')) :
    List.Forall₂ (KeptAs Kind.declares SameAround extra swap) root.declarations
      root'.declarations :=
  h.keptAs hspares fun _ _ halike => ⟨halike.sameScope hk.toHarmless, halike.kind⟩

end

/-! ## Layout and shortening -/

theorem Kind.not_declares_of_isName {k : Kind} (h : k.isName = true) :
    k.declares = false := by
  cases k <;> first | rfl | cases h

theorem Kind.not_holdsShortenable_of_declares {k : Kind} (h : k.declares = true) :
    k.holdsShortenable = false := by
  cases k <;> first | rfl | cases h

theorem Cursor.isName_of_mem_nodesFrom {c e : Cursor} {index start : Nat} {trees : List Tree}
    (h : Tree.namesOnlyAll trees = true) (he : e ∈ c.nodesFrom index start trees) :
    e.kind.isName = true := by
  match trees with
  | [] => cases he
  | .token t :: rest =>
      rw [Tree.namesOnlyAll, Bool.and_eq_true] at h
      rw [nodesFrom_token] at he
      exact isName_of_mem_nodesFrom h.2 he
  | .node k children :: rest =>
      rw [Tree.namesOnlyAll, Tree.namesOnly, Bool.and_eq_true, Bool.and_eq_true] at h
      rw [nodesFrom_node, descendants_eq, List.mem_append, List.mem_cons] at he
      rcases he with (rfl | he) | he
      · exact h.1.1
      · have he : e ∈ (c.child index start k children).nodesFrom 0 start children := he
        exact isName_of_mem_nodesFrom h.1.2 he
      · exact isName_of_mem_nodesFrom h.2 he

/-- The nodes of a name are names. -/
theorem Cursor.isName_of_dotted {c : Cursor} {dotted : String}
    (hs : c.node.nameShaped = true) (hd : c.node.dotted? = some dotted) :
    ∀ e ∈ c.descendants, e.kind.isName = true := by
  obtain ⟨hk, hnames⟩ := Node.namesOnly_of_dotted hs hd
  intro e he
  rw [descendants_eq, List.mem_cons] at he
  rcases he with rfl | he
  · exact hk
  · exact isName_of_mem_nodesFrom hnames he

theorem keepsDeclarations_restyling (table : SymbolTable) :
    KeepsDeclarations table (fun e => e.isTrivia = true) (Abbreviated table) where
  trivia := harmless_trivia.trivia
  attributeList := harmless_trivia.attributeList
  shortenable := (keepsDeclarations_abbreviated table).shortenable
  extra_declares := (keepsDeclarations_trivia table).extra_declares
  old_declares := (keepsDeclarations_abbreviated table).old_declares
  new_declares := (keepsDeclarations_abbreviated table).new_declares
  resolves := (keepsDeclarations_abbreviated table).resolves

/-- Layout and shortening exchange nothing but names. -/
theorem spares_restyling (table : SymbolTable) {p : Kind → Bool}
    (hp : ∀ k : Kind, k.isName = true → p k = false) :
    Spares p (fun e => e.isTrivia = true) (Abbreviated table) where
  extra := fun _ h => by cases h
  old := fun c d h => by
    obtain ⟨asAttribute, front, shorter, type, -, hc, -, hs, -⟩ := h
    exact fun e he => hp _ (c.isName_of_dotted hs hc e he)
  new := fun c d h => by
    obtain ⟨asAttribute, front, shorter, type, -, -, hd, -, hs, -⟩ := h
    exact fun e he => hp _ (d.isName_of_dotted hs hd e he)

theorem FormattingOptions.differInStyle_format (layout : FormattingOptions) (table : SymbolTable)
    (n : Node) : DifferInStyle table (.ofRoot n) (.ofRoot (layout.format n)) :=
  ⟨rfl, (layout.alike_format n).under.imp (fun _ h => h) fun _ _ h => h.elim⟩

theorem Simplify.differInStyle_simplifyRoot (table : SymbolTable) {root : Node}
    (hs : root.nameShaped = true) :
    DifferInStyle table (.ofRoot root) (.ofRoot (simplifyRoot table root)) :=
  have h := alike_simplifyRoot table hs
  ⟨h.kind, h.under.imp (fun _ h => h.elim) fun _ _ h => h⟩

/-- Layout and shortening neither add nor drop attribute lists of a declaration. -/
theorem DifferInStyle.attributeLists {table : SymbolTable} {c d : Cursor}
    (h : DifferInStyle table c d) (hk : c.kind.declares = true) :
    List.Forall₂ (Restyled table) c.attributeLists d.attributeLists := by
  have hnode : ∀ e : Element, e.isTrivia = true → e.node? = none := by
    intro e he
    cases e with
    | token t => rfl
    | node c => cases he
  have hpairs := h.under.pairs c.parent?_of_mem_elements d.parent?_of_mem_elements
    (fun e he _ => hnode e he) fun e he _ => hnode e he
  have hkept : List.Forall₂ (DifferInStyle table) c.childNodes d.childNodes := by
    refine hpairs.imp fun a b hab => hab.related.resolve_right fun hswap => ?_
    obtain ⟨asAttribute, hshortenable⟩ :=
      (keepsDeclarations_abbreviated table).shortenable a b hswap
    have hholds := hshortenable.holds hab.old
    rw [Kind.not_holdsShortenable_of_declares hk] at hholds
    cases hholds
  refine (List.rel_filter (fun a b hab => ?_) hkept).imp fun _ _ => .single
  show (a.kind == .attributeList) = true ↔ (b.kind == .attributeList) = true
  rw [hab.kind]

theorem DifferInStyle.continuedAt {table : SymbolTable} {root root' : Node}
    (h : DifferInStyle table (.ofRoot root) (.ofRoot root'))
    (target : AttributeTarget) (place : Nat) :
    ContinuedAt table target place 0 root.declarations root'.declarations := by
  have hkept : List.Forall₂ (Continued table target 0) root.declarations root'.declarations := by
    have hspares := spares_restyling table fun _ => Kind.not_declares_of_isName
    refine (h.declarations (keepsDeclarations_restyling table) hspares).imp
      fun c d hcd => ⟨hcd.recognised (keepsDeclarations_restyling table), ?_⟩
    exact .of_restyled (DifferInStyle.attributeLists hcd.alike hcd.fits)
  intro number
  rw [ite_self]
  exact forall₂_getElem? hkept number

end TreeLint
