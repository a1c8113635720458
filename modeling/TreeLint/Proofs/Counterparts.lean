import TreeLint.Proofs.KeptDeclarations
import TreeLint.Proofs.LayoutTrivia
import TreeLint.Proofs.TokensInPlace

/-!
# Nodes that differ in trivia

If two trees differ in trivia alone, their nodes correspond one by one in document order. A node and
its counterpart have the same kind and the same significant tokens, their children correspond as
well, the nodes around them open and import the same, and as many significant tokens stand in front
of one as of the other.

The last is what makes spans comparable. Offsets move with every blank, but the span of a node goes
from its first significant token to its last, and these have the same numbers in both trees.
-/

namespace TreeLint

/-- Two nodes that differ in trivia alone. -/
abbrev DifferInTrivia (c d : Cursor) : Prop :=
  Alike (fun e => e.isTrivia = true) (fun _ _ => False) c d

namespace Element

theorem significant_trivia {e : Element} (h : e.isTrivia = true) : e.significant = [] := by
  cases e with
  | node c => cases h
  | token t =>
      have ht : t.isTrivia = true := h
      simp [significant, tokens, ht]

theorem nodes_trivia {e : Element} (h : e.isTrivia = true) : e.nodes = [] := by
  cases e with
  | node c => cases h
  | token t => rfl

end Element

theorem AlikeAll.significant_eq {old new : List Element} (h : AlikeButTrivia old new) :
    (old.flatMap Element.significant).map (·.token) =
      (new.flatMap Element.significant).map (·.token) := by
  induction h with
  | nil => rfl
  | @token t u _ _ h _ ih =>
      have hsame : (Element.token t).significant.map (·.token) =
          (Element.token u).significant.map (·.token) := by
        simp only [Element.significant, Element.tokens, TokenCursor.isTrivia, List.filter_cons,
          List.filter_nil, h]
        split
        · rw [List.map_singleton, List.map_singleton, h]
        · rfl
      rw [List.flatMap_cons, List.flatMap_cons, List.map_append, List.map_append, hsame, ih]
  | @kept c d _ _ _ _ _ hunder ih =>
      have hsame : (Element.node c).significant.map (·.token) =
          (Element.node d).significant.map (·.token) := by
        rw [← c.significant_eq_elements, ← d.significant_eq_elements] at hunder
        exact hunder
      rw [List.flatMap_cons, List.flatMap_cons, List.map_append, List.map_append, hsame, ih]
  | swapped h _ _ => exact h.elim
  | dropped h _ ih => rw [List.flatMap_cons, Element.significant_trivia h, List.nil_append, ih]
  | added h _ ih => rw [List.flatMap_cons, Element.significant_trivia h, List.nil_append, ih]

theorem AlikeAll.length_significant {old new : List Element} (h : AlikeButTrivia old new) :
    (old.flatMap Element.significant).length = (new.flatMap Element.significant).length := by
  have hlength := congrArg List.length h.significant_eq
  rwa [List.length_map, List.length_map] at hlength

namespace DifferInTrivia

variable {c d : Cursor}

theorem length_significant (h : DifferInTrivia c d) :
    c.significant.length = d.significant.length := by
  rw [c.significant_eq_elements, d.significant_eq_elements]
  exact h.under.length_significant

/-- The child nodes of two such nodes correspond. -/
theorem childNodes (h : DifferInTrivia c d) (hk : c.kind.isTypeDeclaration = false) :
    List.Forall₂ (Paired DifferInTrivia c d) c.childNodes d.childNodes := by
  have hpairs := h.under.nodes harmless_trivia c.parent?_of_mem_elements
    d.parent?_of_mem_elements hk (by rw [← h.kind, hk])
  exact hpairs.imp fun a b hab => ⟨hab.old, hab.new, hab.related.resolve_right id⟩

end DifferInTrivia

/-! ## Counterparts -/

/-- A node of a tree and the node of another tree that stands where it does, trivia aside. -/
structure Counterpart (root root' c d : Cursor) : Prop where
  differ : DifferInTrivia c d
  around : List.Forall₂ SameScope (c.above.map (·.node)) (d.above.map (·.node))
  tokens : ∃ front back front' back', root.significant = front ++ c.significant ++ back ∧
    root'.significant = front' ++ d.significant ++ back' ∧ front.length = front'.length

variable {root root' : Cursor}

/-- The spans of counterparts with significant tokens cover the same range of these. -/
theorem Counterpart.covers {c d : Cursor} (h : Counterpart root root' c d)
    (hne : c.significant ≠ []) :
    ∃ first last, root.Covers first last c.span ∧ root'.Covers first last d.span := by
  obtain ⟨front, back, front', back', hroot, hroot', hlength⟩ := h.tokens
  have hsame := h.differ.length_significant
  have hne' : d.significant ≠ [] := by
    rw [← List.length_pos_iff] at hne ⊢
    omega
  have hcovers := Cursor.covers_span hroot hne
  have hcovers' := Cursor.covers_span hroot' hne'
  rw [← hsame, ← hlength] at hcovers'
  exact ⟨_, _, hcovers, hcovers'⟩

/-- The nodes of a node: itself, in front of those under it. -/
theorem Counterpart.descendants {c d : Cursor} (h : Counterpart root root' c d)
    (hunder : List.Forall₂ (Counterpart root root') (c.elements.flatMap Element.nodes)
      (d.elements.flatMap Element.nodes)) :
    List.Forall₂ (Counterpart root root') c.descendants d.descendants := by
  rw [c.descendants_eq_elements, d.descendants_eq_elements]
  exact .cons h hunder

theorem AlikeAll.counterparts {old new : List Element} {p q : Cursor}
    (h : AlikeButTrivia old new) (hold : ∀ e ∈ old, e.parent? = some p)
    (hnew : ∀ e ∈ new, e.parent? = some q) (hscope : List.Forall₂ SameScope p.scope q.scope)
    {front back front' back' : List TokenCursor}
    (hroot : root.significant = front ++ old.flatMap Element.significant ++ back)
    (hroot' : root'.significant = front' ++ new.flatMap Element.significant ++ back')
    (hlength : front.length = front'.length) :
    List.Forall₂ (Counterpart root root') (old.flatMap Element.nodes)
      (new.flatMap Element.nodes) := by
  induction h generalizing p q front back front' back' with
  | nil => exact .nil
  | @token t u _ _ h _ ih =>
      rw [List.forall_mem_cons] at hold hnew
      rw [List.flatMap_cons, ← List.append_assoc] at hroot hroot'
      refine ih hold.2 hnew.2 hscope hroot hroot' ?_
      have hsingle : AlikeButTrivia [.token t] [.token u] := .token h .nil
      have hsame := hsingle.length_significant
      rw [List.flatMap_singleton, List.flatMap_singleton] at hsame
      rw [List.length_append, List.length_append, hlength, hsame]
  | @kept c d old new hkind under _ hunder ih =>
      rw [List.forall_mem_cons] at hold hnew
      have hdiffer : DifferInTrivia c d := ⟨hkind, under⟩
      have hpaired : Paired DifferInTrivia p q c d := ⟨hold.1, hnew.1, hdiffer⟩
      have haround : List.Forall₂ SameScope (c.above.map (·.node)) (d.above.map (·.node)) := by
        rw [Cursor.map_node_above hold.1, Cursor.map_node_above hnew.1]
        exact hscope
      rw [List.flatMap_cons, ← List.append_assoc] at hroot hroot'
      -- The tokens of the later elements stand behind those of the node.
      have hhere : root.significant =
          front ++ c.significant ++ (old.flatMap Element.significant ++ back) := by
        rw [hroot, List.append_assoc]
        rfl
      have hhere' : root'.significant =
          front' ++ d.significant ++ (new.flatMap Element.significant ++ back') := by
        rw [hroot', List.append_assoc]
        rfl
      have hcounterpart : Counterpart root root' c d :=
        ⟨hdiffer, haround, front, _, front', _, hhere, hhere', hlength⟩
      rw [c.significant_eq_elements] at hhere
      rw [d.significant_eq_elements] at hhere'
      have hinner := hunder c.parent?_of_mem_elements d.parent?_of_mem_elements
        (hpaired.scope harmless_trivia hscope) hhere hhere' hlength
      rw [List.flatMap_cons, List.flatMap_cons]
      refine List.rel_append (hcounterpart.descendants hinner)
        (ih hold.2 hnew.2 hscope hroot hroot' ?_)
      have hsame : (Element.node c).significant.length = (Element.node d).significant.length :=
        hdiffer.length_significant
      rw [List.length_append, List.length_append, hlength, hsame]
  | swapped h _ _ => exact h.elim
  | dropped h _ ih =>
      rw [List.forall_mem_cons] at hold
      rw [List.flatMap_cons, Element.significant_trivia h, List.nil_append] at hroot
      rw [List.flatMap_cons, Element.nodes_trivia h, List.nil_append]
      exact ih hold.2 hnew hscope hroot hroot' hlength
  | added h _ ih =>
      rw [List.forall_mem_cons] at hnew
      rw [List.flatMap_cons, Element.significant_trivia h, List.nil_append] at hroot'
      rw [List.flatMap_cons, Element.nodes_trivia h, List.nil_append]
      exact ih hold hnew.2 hscope hroot hroot' hlength

/-- The nodes of two trees that differ in trivia are counterparts, in document order. -/
theorem DifferInTrivia.counterparts {n m : Node} (h : DifferInTrivia (.ofRoot n) (.ofRoot m)) :
    List.Forall₂ (Counterpart (.ofRoot n) (.ofRoot m)) (Cursor.ofRoot n).descendants
      (Cursor.ofRoot m).descendants := by
  have hscope : List.Forall₂ SameScope (Cursor.ofRoot n).scope (Cursor.ofRoot m).scope :=
    .cons (h.sameScope harmless_trivia) .nil
  have hroot : ∀ root : Cursor,
      root.significant = [] ++ root.elements.flatMap Element.significant ++ [] := by
    intro root
    rw [← root.significant_eq_elements, List.nil_append, List.append_nil]
  have htokens : ∀ root : Cursor, root.significant = [] ++ root.significant ++ [] := by
    intro root
    rw [List.nil_append, List.append_nil]
  have hcounterpart : Counterpart (.ofRoot n) (.ofRoot m) (.ofRoot n) (.ofRoot m) :=
    ⟨h, .nil, [], [], [], [], htokens _, htokens _, rfl⟩
  exact hcounterpart.descendants (h.under.counterparts (Cursor.ofRoot n).parent?_of_mem_elements
    (Cursor.ofRoot m).parent?_of_mem_elements hscope (hroot _) (hroot _) rfl)

end TreeLint
