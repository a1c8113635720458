import TreeLint.Proofs.Place
import TreeLint.Proofs.TokenTiling

/-!
# The token that a selection is in

The declaration that a selection means is found from one token: that at the start of the selection,
or the one in front of it if the selection starts right behind a token, where trivia begins. In any
other trivia the search goes on to the next token, but that one starts behind the selection and so
holds none of it.

Which token that is can be said without a lookup. It is significant and not empty, it covers the
start of the selection or ends there while trivia covers the start, and the selection ends in it. No
more than one token is like that, since the tokens of a tree lie side by side: what covers an offset
is found by going down to it, and what ends there covers the offset in front of it.
-/

namespace TreeLint

/-- A token covers an offset. -/
def TokenCursor.Covers (t : TokenCursor) (offset : Nat) : Prop :=
  t.start ≤ offset ∧ offset < t.start + t.token.width

theorem TokenCursor.Covers.width_pos {t : TokenCursor} {offset : Nat} (h : t.Covers offset) :
    0 < t.token.width := by
  obtain ⟨hfrom, hto⟩ := h
  omega

/-- A token that an offset refers to: one that covers it, or that ends there in front of trivia. -/
structure Touches (root : Node) (offset : Nat) (t : TokenCursor) : Prop where
  token : t ∈ (Cursor.ofRoot root).tokens
  significant : t.isTrivia = false
  nonempty : 0 < t.token.width
  place : t.Covers offset ∨ t.start + t.token.width = offset ∧
    ∃ u ∈ (Cursor.ofRoot root).tokens, u.isTrivia = true ∧ u.Covers offset

theorem Touches.start_le {root : Node} {offset : Nat} {t : TokenCursor}
    (h : Touches root offset t) : t.start ≤ offset := by
  rcases h.place with hcovers | ⟨hend, -⟩
  · exact hcovers.1
  · omega

/-- A node is the innermost of a kind around a token. -/
def TokenCursor.Innermost (t : TokenCursor) (k : Kind) (c : Cursor) : Prop :=
  ∃ inside outside, t.ancestors = inside ++ c :: outside ∧ c.kind = k ∧ ∀ d ∈ inside, d.kind ≠ k

theorem TokenCursor.find?_ancestors_iff {t : TokenCursor} {k : Kind} {c : Cursor} :
    (t.ancestors.find? fun d => d.kind == k) = some c ↔ t.Innermost k c := by
  rw [List.find?_eq_some_iff_append, Innermost]
  simp only [beq_iff_eq, Bool.not_eq_true', beq_eq_false_iff_ne]
  constructor
  · rintro ⟨hkind, inside, outside, hancestors, hinside⟩
    exact ⟨inside, outside, hancestors, hkind, hinside⟩
  · rintro ⟨inside, outside, hancestors, hkind, hinside⟩
    exact ⟨hkind, inside, outside, hancestors, hinside⟩

namespace Cursor

/-! ## The lookup -/

theorem tiles_tokens_ofRoot (root : Node) :
    Tiles 0 root.text.utf8ByteSize ((ofRoot root).tokens.map (·.span)) := by
  have htiles := (ofRoot root).tiles_tokensFrom 0 0 root.children
  rw [Nat.zero_add, Tree.widthAll_eq] at htiles
  exact htiles

theorem stop_le_of_mem_tokens {root : Node} {t : TokenCursor} (ht : t ∈ (ofRoot root).tokens) :
    t.start + t.token.width ≤ root.text.utf8ByteSize :=
  ((tiles_tokens_ofRoot root).bounds (List.mem_map_of_mem (f := (·.span)) ht)).2

/-- Where a token with some text ends, the token that covers the offset starts. -/
theorem start_eq_of_ends {root : Node} {offset : Nat} {t u : TokenCursor}
    (ht : t ∈ (ofRoot root).tokens) (hu : u ∈ (ofRoot root).tokens) (hpos : 0 < t.token.width)
    (hend : t.start + t.token.width = offset) (hcovers : u.Covers offset) : u.start = offset := by
  obtain ⟨hfrom, hto⟩ := hcovers
  rcases (tiles_tokens_ofRoot root).apart ht hu with rfl | hfront | hbehind
  · omega
  · omega
  · omega

/-- The token that covers the offset in front of a token ends where that one starts. -/
theorem ends_of_covers_pred {root : Node} {t u : TokenCursor}
    (ht : t ∈ (ofRoot root).tokens) (hu : u ∈ (ofRoot root).tokens) (hpos : 0 < u.start)
    (hcovers : t.Covers (u.start - 1)) :
    t.start + t.token.width = u.start := by
  obtain ⟨hfrom, hto⟩ := hcovers
  rcases (tiles_tokens_ofRoot root).apart ht hu with rfl | hfront | hbehind
  · omega
  · omega
  · omega

section Lookup

variable {root : Node} (h : root.text.utf8ByteSize ≤ maxOffset)

include h

theorem contains_iff_covers {offset : Nat} {t : TokenCursor} (ht : t ∈ (ofRoot root).tokens) :
    t.span.contains offset = true ↔ t.Covers offset :=
  Span.contains_iff (Nat.le_trans (stop_le_of_mem_tokens ht) h)

theorem containsSpan_iff {t : TokenCursor} (ht : t ∈ (ofRoot root).tokens) {s : Span}
    (hinside : s.start + s.length ≤ root.text.utf8ByteSize) : t.span.containsSpan s = true ↔
      t.start ≤ s.start ∧ s.start + s.length ≤ t.start + t.token.width :=
  Span.containsSpan_iff (Nat.le_trans (stop_le_of_mem_tokens ht) h) (Nat.le_trans hinside h)

/-- The token that covers an offset is the one that a lookup finds there. -/
theorem tokenAt?_eq_some_iff {offset : Nat} {t : TokenCursor} :
    (ofRoot root).tokenAt? offset = some t ↔ t ∈ (ofRoot root).tokens ∧ t.Covers offset := by
  have hroot : (ofRoot root).fullSpan.contains offset = true ↔
      0 ≤ offset ∧ offset < 0 + root.width :=
    Span.contains_iff (Nat.le_trans (Nat.le_of_eq ((Nat.zero_add _).trans root.width_eq)) h)
  constructor
  · intro hfound
    have hoffset : (ofRoot root).fullSpan.contains offset = true := by
      by_contra hout
      rw [tokenAt?, if_neg hout] at hfound
      cases hfound
    obtain ⟨u, hu, hfound', hcovers⟩ := Place.tokenAt?_covers (p := []) (n := root) h hoffset
    obtain rfl : u = t := Option.some.inj (hfound'.symm.trans hfound)
    exact ⟨hu, (contains_iff_covers h hu).1 hcovers⟩
  · rintro ⟨ht, hcovers⟩
    have hstop := stop_le_of_mem_tokens ht
    have hoffset : (ofRoot root).fullSpan.contains offset = true := by
      have hbehind := hcovers.2
      rw [hroot, root.width_eq]
      omega
    obtain ⟨u, hu, hfound, hcovers'⟩ := Place.tokenAt?_covers (p := []) (n := root) h hoffset
    have hsame : u = t := (tiles_tokens_ofRoot root).eq_of_contains h hu ht hcovers'
      ((contains_iff_covers h ht).2 hcovers)
    exact hsame ▸ hfound

/-- The next token that trivia refers to starts behind all that the trivia covers. -/
theorem lt_start_of_nextSignificant? {offset : Nat} {t u : TokenCursor}
    (hu : u ∈ (ofRoot root).tokens) (hcovers : u.Covers offset)
    (hnext : u.nextSignificant? = some t) : offset < t.start := by
  have hstop : u.span.stop = u.start + u.token.width :=
    Nat.min_eq_left (Nat.le_trans (stop_le_of_mem_tokens hu) h)
  have hfits := List.find?_some hnext
  rw [Bool.and_eq_true, Bool.and_eq_true, decide_eq_true_iff, hstop] at hfits
  exact Nat.lt_of_lt_of_le hcovers.2 hfits.1.1

/-- The token in front of trivia is looked for where the trivia starts, and it ends there. -/
theorem touches_of_before {offset : Nat} {t u : TokenCursor} (hu : u ∈ (ofRoot root).tokens)
    (htrivia : u.isTrivia = true) (hcovers : u.Covers offset)
    (hbefore : (if offset = u.start ∧ 0 < offset then (ofRoot root).tokenAt? (offset - 1)
      else none) = some t) (hsignificant : t.isTrivia = false) : Touches root offset t := by
  split at hbefore
  · next hplace =>
      obtain ⟨rfl, hpos⟩ := hplace
      obtain ⟨ht, hcovers'⟩ := (tokenAt?_eq_some_iff h).1 hbefore
      exact ⟨ht, hsignificant, hcovers'.width_pos,
        .inr ⟨ends_of_covers_pred ht hu hpos hcovers', u, hu, htrivia, hcovers⟩⟩
  · cases hbefore

/-- What an offset refers to, unless it is a token that starts behind the offset. -/
theorem significantTokenAt?_eq_some_iff {offset : Nat} {t : TokenCursor}
    (hstart : t.start ≤ offset) :
    (ofRoot root).significantTokenAt? offset = some t ↔ Touches root offset t := by
  unfold significantTokenAt?
  constructor
  · intro hfound
    cases hcovering : (ofRoot root).tokenAt? offset with
    | none =>
        rw [hcovering] at hfound
        cases hfound
    | some u =>
        obtain ⟨hu, hcovers⟩ := (tokenAt?_eq_some_iff h).1 hcovering
        have hnext : u.nextSignificant? ≠ some t := fun hnext =>
          absurd hstart (Nat.not_le.2 (lt_start_of_nextSignificant? h hu hcovers hnext))
        rw [hcovering] at hfound
        simp only [Bool.not_eq_true'] at hfound
        split at hfound
        · next hsignificant =>
            cases hfound
            exact ⟨hu, hsignificant, hcovers.width_pos, .inl hcovers⟩
        · next htrivia =>
            rw [Bool.not_eq_false] at htrivia
            split at hfound
            · next previous hprevious =>
                split at hfound
                · next hsignificant =>
                    cases hfound
                    exact touches_of_before h hu htrivia hcovers hprevious hsignificant
                · exact absurd hfound hnext
            · exact absurd hfound hnext
  · rintro ⟨ht, hsignificant, hnonempty, hcovers | ⟨hend, u, hu, htrivia, hcovers⟩⟩
    · rw [(tokenAt?_eq_some_iff h).2 ⟨ht, hcovers⟩]
      simp only [hsignificant, Bool.not_false, if_true]
    · have hplace := start_eq_of_ends ht hu hnonempty hend hcovers
      have hpos : 0 < offset := by omega
      have hprevious : (ofRoot root).tokenAt? (offset - 1) = some t :=
        (tokenAt?_eq_some_iff h).2 ⟨ht, by rw [TokenCursor.Covers]; omega⟩
      rw [(tokenAt?_eq_some_iff h).2 ⟨hu, hcovers⟩]
      simp only [htrivia, hplace, hpos, and_self, hprevious, hsignificant, Bool.not_true,
        Bool.not_false, if_true, Bool.false_eq_true, if_false]

end Lookup

/-! ## Around a token -/

/-- A token lies in the node that it is a child of. -/
theorem bounds_of_mem_tokensFrom {c : Cursor} {index start : Nat} (trees : List Tree)
    {t : TokenCursor} (hstart : c.start ≤ start)
    (hstop : start + Tree.widthAll trees ≤ c.start + c.node.width)
    (ht : t ∈ c.tokensFrom index start trees) :
    t.parent.start ≤ t.start ∧ t.start + t.token.width ≤ t.parent.start + t.parent.node.width := by
  match trees with
  | [] => cases ht
  | .token token :: rest =>
      rw [Tree.widthAll, Tree.width] at hstop
      rw [tokensFrom_token] at ht
      rcases List.mem_cons.1 ht with rfl | ht
      · dsimp only
        omega
      · exact bounds_of_mem_tokensFrom rest (by omega) (by omega) ht
  | .node k children :: rest =>
      rw [Tree.widthAll, Tree.width] at hstop
      rw [tokensFrom_node] at ht
      rcases List.mem_append.1 ht with ht | ht
      · have ht : t ∈ (c.child index start k children).tokensFrom 0 start children := ht
        exact bounds_of_mem_tokensFrom children (Nat.le_refl _) (Nat.le_refl _) ht
      · exact bounds_of_mem_tokensFrom rest (by omega) (by omega) ht

end Cursor

/-- A node lies in each of the nodes around it. -/
theorem Place.bounds_of_mem_ancestors {c : Cursor} (p : Place) (n : Node)
    (h : c ∈ (p.cursor n).ancestors) :
    c.start ≤ p.start ∧ p.start + n.width ≤ c.start + c.node.width := by
  induction p generalizing n with
  | nil =>
      rw [List.mem_singleton.1 h]
      exact ⟨Nat.le_refl _, Nat.le_refl _⟩
  | cons g outer ih =>
      rw [ancestors_cons] at h
      rcases List.mem_cons.1 h with rfl | h
      · exact ⟨Nat.le_refl _, Nat.le_refl _⟩
      · have houter := ih (g.fill n) h
        have hwidth : (g.fill n).width =
            Tree.widthAll g.before + (n.width + Tree.widthAll g.behind) :=
          Tree.widthAll_append g.before (n.toTree :: g.behind)
        rw [start]
        omega

theorem TokenCursor.bounds_of_mem_ancestors {root : Node} {t : TokenCursor} {c : Cursor}
    (ht : t ∈ (Cursor.ofRoot root).tokens) (hc : c ∈ t.ancestors) :
    c.start ≤ t.start ∧ t.start + t.token.width ≤ c.start + c.node.width := by
  obtain ⟨p, hp, -⟩ := stands_of_mem_tokens ht
  have hparent := Cursor.bounds_of_mem_tokensFrom (c := .ofRoot root) root.children
    (Nat.le_refl _) (Nat.le_refl _) ht
  rw [TokenCursor.ancestors, hp] at hc
  have hancestor := p.bounds_of_mem_ancestors t.parent.node hc
  rw [hp] at hparent
  have hstart : (p.cursor t.parent.node).start = p.start := rfl
  have hnode : (p.cursor t.parent.node).node = t.parent.node := rfl
  rw [hstart, hnode] at hparent
  omega

namespace Cursor

/-! ## The declaration around a selection -/

/-- The search from a selection comes down to the token that its start refers to. -/
theorem findForSpan?_eq_some {root : Node} (h : root.text.utf8ByteSize ≤ maxOffset) {s : Span}
    {k : Kind} {c : Cursor} : (ofRoot root).findForSpan? s k = some c ↔
      s.start < root.text.utf8ByteSize ∧ s.start + s.length ≤ root.text.utf8ByteSize ∧
        ∃ t, (ofRoot root).significantTokenAt? s.start = some t ∧
          t.span.containsSpan s = true ∧ t.Innermost k c := by
  have hwidth : (ofRoot root).fullSpan.length = root.text.utf8ByteSize := root.width_eq
  unfold findForSpan?
  simp only [hwidth]
  by_cases hinside : s.start < root.text.utf8ByteSize ∧
      s.start + s.length ≤ root.text.utf8ByteSize
  · have hstop : s.stop? = some (s.start + s.length) := if_pos (Nat.le_trans hinside.2 h)
    simp only [hstop, hinside, decide_true, Bool.and_self, if_true, true_and]
    cases (ofRoot root).significantTokenAt? s.start with
    | none => simp
    | some t =>
        simp only [Option.some.injEq, exists_eq_left', ← TokenCursor.find?_ancestors_iff]
        split
        · next hholds => simp only [hholds, true_and]
        · next hholds => simp only [hholds, Bool.false_eq_true, false_and, reduceCtorEq]
  · rw [if_neg]
    · exact ⟨fun hfound => (by cases hfound), fun hfound =>
        absurd ⟨hfound.1, hfound.2.1⟩ hinside⟩
    · rw [Bool.and_eq_true, decide_eq_true_eq]
      rintro ⟨hstart, hends⟩
      refine hinside ⟨hstart, ?_⟩
      split at hends
      · next stop hstop =>
          rw [Span.stop?] at hstop
          split at hstop
          · cases hstop
            exact of_decide_eq_true hends
          · cases hstop
      · cases hends

/-- A declaration is found for a selection if the selection starts and ends in the text and in a
token that its start refers to, and it is the innermost one around that token. So it is around the
selection as well, and at a caret it is what the search from the offset finds. -/
theorem findForSpan?_iff {root : Node} (h : root.text.utf8ByteSize ≤ maxOffset) (s : Span)
    (k : Kind) (c : Cursor) :
    ((ofRoot root).findForSpan? s k = some c ↔
      s.start < root.text.utf8ByteSize ∧ s.start + s.length ≤ root.text.utf8ByteSize ∧
        ∃ t, Touches root s.start t ∧ s.start + s.length ≤ t.start + t.token.width ∧
          t.Innermost k c) ∧
    ((ofRoot root).findForSpan? s k = some c → c.fullSpan.containsSpan s = true) ∧
    ∀ offset, (ofRoot root).findForSpan? (.caret offset) k = some c →
      (ofRoot root).findAt? offset k = some c := by
  have hiff : (ofRoot root).findForSpan? s k = some c ↔
      s.start < root.text.utf8ByteSize ∧ s.start + s.length ≤ root.text.utf8ByteSize ∧
        ∃ t, Touches root s.start t ∧ s.start + s.length ≤ t.start + t.token.width ∧
          t.Innermost k c := by
    rw [findForSpan?_eq_some h]
    refine and_congr_right fun _ => and_congr_right fun hinside => ⟨?_, ?_⟩
    · rintro ⟨t, hfound, hholds, hinnermost⟩
      -- A token that holds the selection does not start behind it.
      have hstart : t.start ≤ s.start := of_decide_eq_true (Bool.and_eq_true _ _ ▸ hholds).1
      have htouches := (significantTokenAt?_eq_some_iff h hstart).1 hfound
      exact ⟨t, htouches, ((containsSpan_iff h htouches.token hinside).1 hholds).2, hinnermost⟩
    · rintro ⟨t, htouches, hends, hinnermost⟩
      have hstart := htouches.start_le
      exact ⟨t, (significantTokenAt?_eq_some_iff h hstart).2 htouches,
        (containsSpan_iff h htouches.token hinside).2 ⟨hstart, hends⟩, hinnermost⟩
  refine ⟨hiff, fun hfound => ?_, fun offset hfound => ?_⟩
  · obtain ⟨-, hinside, t, htouches, hends, inside, outside, hancestors, -⟩ := hiff.1 hfound
    have haround := TokenCursor.bounds_of_mem_ancestors htouches.token
      (hancestors ▸ List.mem_append_right _ (List.mem_cons_self ..))
    rw [Span.containsSpan, Bool.and_eq_true, decide_eq_true_iff, decide_eq_true_iff]
    have hstop : s.stop ≤ c.start + c.node.width :=
      Nat.le_trans (Nat.min_le_left ..) (Nat.le_trans hends haround.2)
    exact ⟨Nat.le_trans haround.1 htouches.start_le,
      Nat.le_min_of_le_of_le hstop (Nat.min_le_right ..)⟩
  · obtain ⟨-, -, t, hsignificant, -, hinnermost⟩ := (findForSpan?_eq_some h).1 hfound
    have hsignificant : (ofRoot root).significantTokenAt? offset = some t := hsignificant
    rw [findAt?, hsignificant]
    exact TokenCursor.find?_ancestors_iff.2 hinnermost

/-- A caret right behind the name of a class, in front of a blank: the class is found, although the
token at the caret is the blank. -/
theorem findForSpan?_iff_behind_name :
    let root := Build.compilationUnit [] [Build.typeDeclaration .classDeclaration { name := "A" }]
    let c : Cursor := ⟨Build.typeDeclaration .classDeclaration { name := "A" }, 0, [⟨root, 0, 0⟩]⟩
    root.text.utf8ByteSize ≤ maxOffset ∧
      (ofRoot root).findForSpan? (.caret 7) .classDeclaration = some c ∧
      c.fullSpan.containsSpan (.caret 7) = true ∧
      (ofRoot root).findAt? 7 .classDeclaration = some c := by
  intro root c
  have hsize : root.text.utf8ByteSize ≤ maxOffset := by decide +kernel
  obtain ⟨hiff, hcontains, hcaret⟩ := findForSpan?_iff hsize (.caret 7) .classDeclaration c
  let name : TokenCursor := ⟨⟨.identifierToken, "A"⟩, 6, 2, c⟩
  let blank : TokenCursor := ⟨⟨.whitespace, " "⟩, 7, 3, c⟩
  have htouches : Touches root 7 name :=
    ⟨by decide +kernel, rfl, by decide, .inr ⟨rfl, blank, by decide +kernel, rfl,
      by decide, by decide⟩⟩
  have hfound : (ofRoot root).findForSpan? (.caret 7) .classDeclaration = some c :=
    hiff.2 ⟨by decide +kernel, by decide +kernel, name, htouches, by decide,
      [], [⟨root, 0, []⟩], rfl, rfl, fun d hd => absurd hd List.not_mem_nil⟩
  exact ⟨hsize, hfound, hcontains hfound, hcaret 7 hfound⟩

end Cursor

end TreeLint
