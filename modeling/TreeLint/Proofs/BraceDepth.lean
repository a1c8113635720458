import Mathlib.Data.List.Infix
import TreeLint.Proofs.LayoutGaps

/-!
# Lines are indented by the braces around them

Layout counts an opening brace late, at the token behind it, so as not to count it at all for an
empty body; and it does not count below zero. So its counter alone is not the number of braces that
are open. With the brace that is still to be counted it is: behind any tokens it is the number of
those that open less the number of those that close, as long as no brace is closed that was not
open.

A line break in front of a token goes by this number, less one if the token is itself a closing
brace. The one line break that does not is that in front of the end of the file.
-/

namespace TreeLint

/-- How many tokens of a kind there are among some tokens. -/
def numberOf (k : Kind) (tokens : List Token) : Nat := tokens.countP fun t => t.kind == k

theorem numberOf_snoc (k : Kind) (tokens : List Token) (t : Token) :
    numberOf k (tokens ++ [t]) = numberOf k tokens + if t.kind = k then 1 else 0 := by
  rw [numberOf, List.countP_append, List.countP_singleton]
  simp only [beq_iff_eq]
  rfl

theorem numberOf_significant {k : Kind} (hk : k.isTrivia = false) (tokens : List Token) :
    numberOf k (significant tokens) = numberOf k tokens := by
  rw [numberOf, significant, List.countP_filter]
  refine List.countP_congr fun t _ => ?_
  rw [Bool.and_eq_true, beq_iff_eq]
  refine ⟨And.left, fun heq => ⟨heq, ?_⟩⟩
  rw [heq, hk]
  rfl

/-- Tokens none of which closes a brace that was not open. -/
def ClosesOpen (tokens : List Token) : Prop :=
  ∀ front, front <+: tokens →
    numberOf .closeBraceToken front ≤ numberOf .openBraceToken front

instance : DecidablePred ClosesOpen := fun tokens =>
  decidable_of_iff (∀ front ∈ tokens.inits,
    numberOf .closeBraceToken front ≤ numberOf .openBraceToken front)
    (by simp only [List.mem_inits, ClosesOpen])

/-- How many braces are open behind the tokens that layout remembers. -/
def LayoutState.inside (state : LayoutState) : Nat :=
  state.depth + if state.previous = some .openBraceToken then 1 else 0

namespace FormattingOptions

variable {options : FormattingOptions}

/-- The depth behind a token is the number of braces that are open there, but for one that the
token opens itself. -/
theorem depth_separate {state : LayoutState} {previous : Kind}
    (hprevious : state.previous = some previous) (k : Kind) :
    (options.separate state k).2 =
      if k = .closeBraceToken then state.inside - 1 else state.inside := by
  rw [separate, LayoutState.inside, hprevious]
  by_cases hclose : k = .closeBraceToken
  · by_cases hopen : previous = .openBraceToken
    · simp [hclose, hopen]
    · simp [hclose, hopen]
  · by_cases hopen : previous = .openBraceToken
    · simp [hclose, hopen]
    · simp only [hclose, hopen, Option.some.injEq, if_false, Nat.add_zero]
      split <;> rfl

theorem depth_of_between {previous current : Kind} {depth lineDepth : Nat}
    (h : options.between previous current depth = .line lineDepth) : lineDepth = depth := by
  unfold between at h
  split_ifs at h with hends hlist
  · exact (Separator.line.inj h).symm
  · exact (Separator.line.inj h).symm

/-- Of all line breaks only that in front of the end of the file is not as deep as what follows. -/
theorem depth_of_line {state : LayoutState} {k : Kind} {depth : Nat} (hend : k ≠ .endOfFileToken)
    (h : (options.separate state k).1 = .line depth) : depth = (options.separate state k).2 := by
  unfold separate at h ⊢
  cases hprevious : state.previous with
  | none =>
      rw [hprevious] at h
      cases h
  | some previous =>
      rw [hprevious] at h
      simp only [if_neg hend] at h ⊢
      split at h
      · next hclose =>
          rw [if_pos hclose]
          split at h
          · cases h
          · next hopen =>
              rw [if_neg hopen]
              exact (Separator.line.inj h).symm
      · next hclose =>
          rw [if_neg hclose]
          split at h
          · next hopen =>
              rw [if_pos hopen]
              exact (Separator.line.inj h).symm
          · next hopen =>
              rw [if_neg hopen]
              exact depth_of_between h

theorem inside_behind (state : LayoutState) (k : Kind) : (options.behind state k).inside =
    (options.separate state k).2 + if k = .openBraceToken then 1 else 0 := by
  rw [LayoutState.inside, behind]
  simp only [Option.some.injEq]

/-- Behind tokens that close no brace but an open one, layout knows how many are open. -/
theorem inside_remember (options : FormattingOptions) {tokens : List Token}
    (h : ClosesOpen tokens) :
    (options.remember {} tokens).inside + numberOf .closeBraceToken tokens =
      numberOf .openBraceToken tokens := by
  induction tokens using List.reverseRecOn with
  | nil => rfl
  | append_singleton front t ih =>
      have hfront := ih fun first hfirst => h first (hfirst.trans (List.prefix_append front [t]))
      have hcloses := h (front ++ [t]) (List.prefix_refl _)
      rw [numberOf_snoc, numberOf_snoc] at hcloses
      rw [remember_snoc, inside_behind, numberOf_snoc, numberOf_snoc]
      rcases List.eq_nil_or_concat' front with rfl | ⟨front, u, rfl⟩
      · -- nothing is counted at the first token, and it closes no brace
        have hclose : t.kind ≠ .closeBraceToken := fun hclose => by
          simp [hclose, numberOf] at hcloses
        simp [remember, separate, numberOf, hclose]
      · rw [depth_separate (previous_remember {} front u)]
        by_cases hclose : t.kind = .closeBraceToken
        · simp only [hclose, if_true] at hcloses ⊢
          simp only [reduceCtorEq, if_false, Nat.add_zero] at hcloses ⊢
          omega
        · simp only [hclose, if_false]
          omega

theorem exists_line_of_break {separator : Separator}
    (h : ∃ u ∈ options.separatorTokens separator, u.kind = .endOfLine) :
    ∃ depth, separator = .line depth := by
  obtain ⟨u, hu, hkind⟩ := h
  cases separator with
  | nothing => cases hu
  | space =>
      rw [List.mem_singleton.1 hu] at hkind
      cases hkind
  | line depth => exact ⟨depth, rfl⟩

/-- In the layout of a tree that closes no brace but an open one, a line break in front of a token
is one line end and the indentation of a depth, and the depth is the number of braces that are open
there: those opened in front of the token less those closed up to it. The token at the end of the
file is the exception. -/
theorem lineBreak_of_format (options : FormattingOptions) (n : Node)
    (hcloses : ClosesOpen (significant n.tokens)) {before back : List Token} {t : Token}
    (ht : ¬ t.kind.isTrivia = true) (hend : t.kind ≠ .endOfFileToken)
    (h : (options.format n).tokens = before ++ t :: back)
    (hbreak : ∃ u ∈ spacing before, u.kind = .endOfLine) :
    ∃ depth, numberOf .openBraceToken before =
        depth + numberOf .closeBraceToken (before ++ [t]) ∧
      spacing before = options.lineBreak depth := by
  have hspacing := spacing_format n ht h
  have hcut := significant_of_format n ht h
  rw [hspacing] at hbreak
  obtain ⟨depth, hline⟩ := exists_line_of_break hbreak
  refine ⟨depth, ?_, by rw [hspacing, hline]; rfl⟩
  have hfront : ClosesOpen (significant before ++ [t]) := fun front hfront =>
    hcloses front (hfront.trans ⟨significant back, by rw [hcut, List.append_assoc]; rfl⟩)
  have hinside := inside_remember options hfront
  rw [remember_snoc, inside_behind, ← depth_of_line hend hline, numberOf_snoc, numberOf_snoc,
    numberOf_significant rfl, numberOf_significant rfl] at hinside
  rw [numberOf_snoc]
  omega

/-- The brace that closes a class in a namespace, behind a class and a method with empty bodies. -/
theorem lineBreak_of_format_nested :
    let n := Build.compilationUnit [] [Build.namespaceDeclaration "N"
      [Build.typeDeclaration .classDeclaration { name := "A" },
        Build.typeDeclaration .classDeclaration
          { name := "B", members := [Build.method "Run" []] }]]
    let tabs : FormattingOptions := { insertSpaces := false, newLine := "\r\n" }
    let before := (tabs.format n).tokens.take 34
    let brace : Token := .fixed .closeBraceToken
    ClosesOpen (significant n.tokens) ∧
      (tabs.format n).tokens = before ++ brace :: (tabs.format n).tokens.drop 35 ∧
      (∃ u ∈ spacing before, u.kind = .endOfLine) ∧
      numberOf .openBraceToken before = 4 ∧
      numberOf .closeBraceToken (before ++ [brace]) = 3 ∧
      spacing before = [⟨.endOfLine, "\r\n"⟩, ⟨.whitespace, "\t"⟩] := by
  intro n tabs before brace
  have hcloses : ClosesOpen (significant n.tokens) := by decide +kernel
  have htokens : (tabs.format n).tokens =
      before ++ brace :: (tabs.format n).tokens.drop 35 := by decide +kernel
  have hbreak : ∃ u ∈ spacing before, u.kind = .endOfLine := by decide +kernel
  have hopened : numberOf .openBraceToken before = 4 := by decide +kernel
  have hclosed : numberOf .closeBraceToken (before ++ [brace]) = 3 := by decide +kernel
  obtain ⟨depth, hdepth, hspacing⟩ :=
    lineBreak_of_format tabs n hcloses (by decide) (by decide) htokens hbreak
  obtain rfl : depth = 1 := by omega
  exact ⟨hcloses, htokens, hbreak, hopened, hclosed, hspacing.trans (by decide +kernel)⟩

end FormattingOptions

end TreeLint
