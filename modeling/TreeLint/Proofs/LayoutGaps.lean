import Mathlib.Data.List.DropRight
import TreeLint.Proofs.LayoutTokens
import TreeLint.Proofs.TokenTiling

/-!
# What stands between two tokens of a layout

In a layout all trivia in front of a token comes from one separator, and the tokens further in front
decide which one it is. Where nodes begin and end has no part in it, so what is said of two kinds
that follow one another holds wherever the two tokens stand in the tree.

Identifiers, keywords and literals are words: two of them with nothing in between would read as one.
No rule of layout but the last applies to two words, and the last rule is the blank. It does not
depend on the options, so an empty line end or an empty indentation never joins two words.
-/

namespace TreeLint

/-- The trivia that some tokens end with. -/
def spacing (tokens : List Token) : List Token := tokens.rtakeWhile fun t => t.kind.isTrivia

theorem spacing_of_trivia {tokens : List Token} (h : ∀ t ∈ tokens, t.kind.isTrivia = true) :
    spacing tokens = tokens :=
  List.rtakeWhile_eq_self_iff.2 h

/-- Nothing in front of a token that is no trivia counts. -/
theorem spacing_append {t : Token} (ht : ¬ t.kind.isTrivia = true) (front back : List Token) :
    spacing (front ++ t :: back) = spacing back := by
  induction back using List.reverseRecOn with
  | nil => exact List.rtakeWhile_concat_neg _ _ t ht
  | append_singleton back u ih =>
      have hsplit : front ++ t :: (back ++ [u]) = front ++ t :: back ++ [u] := by
        rw [List.append_assoc, List.cons_append]
      rw [spacing, spacing] at ih ⊢
      rw [hsplit, List.rtakeWhile_concat, List.rtakeWhile_concat, ih]

theorem significant_eq_nil {tokens : List Token} (h : ∀ t ∈ tokens, t.kind.isTrivia = true) :
    significant tokens = [] :=
  List.filter_eq_nil_iff.2 fun t ht => by simp [h t ht]

theorem significant_cut {t : Token} (ht : ¬ t.kind.isTrivia = true) (front back : List Token) :
    significant (front ++ t :: back) = significant front ++ t :: significant back := by
  rw [significant_append, significant_token ht]

namespace FormattingOptions

variable {options : FormattingOptions}

/-- A line end and the indentation of a depth, which may be empty. -/
def lineBreak (options : FormattingOptions) (depth : Nat) : List Token :=
  ⟨.endOfLine, options.newLine⟩ ::
    (if (options.indentation depth).isEmpty then []
    else [⟨.whitespace, options.indentation depth⟩])

/-- The tokens of a separator. -/
def separatorTokens (options : FormattingOptions) : Separator → List Token
  | .nothing => []
  | .space => [⟨.whitespace, " "⟩]
  | .line depth => options.lineBreak depth

theorem tokensAll_trivia (separator : Separator) :
    Tree.tokensAll (options.trivia separator) = options.separatorTokens separator := by
  cases separator with
  | nothing => rfl
  | space => rfl
  | line depth =>
      rw [trivia, separatorTokens, lineBreak]
      split <;> rfl

theorem trivia_separatorTokens (options : FormattingOptions) (separator : Separator) :
    ∀ t ∈ options.separatorTokens separator, t.kind.isTrivia = true := by
  cases separator with
  | nothing => exact fun t ht => by cases ht
  | space => exact List.forall_mem_singleton.2 rfl
  | line depth =>
      refine List.forall_mem_cons.2 ⟨rfl, ?_⟩
      split
      · exact fun t ht => by cases ht
      · exact List.forall_mem_singleton.2 rfl

/-- The trivia in front of a token is its separator behind the tokens further in front. -/
theorem spacing_of_spaced {state : LayoutState} {tokens before back : List Token} {t : Token}
    (htokens : ∀ u ∈ tokens, ¬ u.kind.isTrivia = true) (ht : ¬ t.kind.isTrivia = true)
    (h : options.spaced state tokens = before ++ t :: back) :
    spacing before = options.separatorTokens
      (options.separate (options.remember state (significant before)) t.kind).1 := by
  induction tokens generalizing state before with
  | nil => simp [spaced] at h
  | cons u rest ih =>
      obtain ⟨hu, hrest⟩ := List.forall_mem_cons.1 htokens
      have htrivia := trivia_separatorTokens options (options.separate state u.kind).1
      have hnone := significant_eq_nil htrivia
      rw [spaced, tokensAll_trivia] at h
      -- the cut is in front of the first token, where its separator ends, or further behind
      rcases List.append_eq_append_iff.1 h with ⟨more, rfl, hback⟩ | ⟨more, hfront, hback⟩
      · cases more with
        | nil =>
            obtain ⟨rfl, -⟩ := List.cons.inj hback
            rw [List.append_nil, hnone, spacing_of_trivia htrivia]
            rfl
        | cons v more =>
            obtain ⟨rfl, hmore⟩ := List.cons.inj hback
            rw [spacing_append hu, ih hrest hmore, significant_cut hu, hnone]
            rfl
      · cases more with
        | nil =>
            obtain ⟨rfl, -⟩ := List.cons.inj hback
            rw [List.append_nil] at hfront
            rw [← hfront, hnone, spacing_of_trivia htrivia]
            rfl
        | cons v more =>
            obtain ⟨rfl, -⟩ := List.cons.inj hback
            exact absurd (htrivia t (hfront ▸ by simp)) ht

theorem spacing_format (n : Node) {before back : List Token} {t : Token}
    (ht : ¬ t.kind.isTrivia = true) (h : (options.format n).tokens = before ++ t :: back) :
    spacing before = options.separatorTokens
      (options.separate (options.remember {} (significant before)) t.kind).1 := by
  have hsignificant : ∀ u ∈ significant n.tokens, ¬ u.kind.isTrivia = true := fun u hu => by
    simpa using (List.mem_filter.1 hu).2
  exact spacing_of_spaced hsignificant ht ((tokens_format n).symm.trans h)

/-- Layout keeps the tokens that are no trivia, so a cut of its tokens cuts those of the tree. -/
theorem significant_of_format (n : Node) {before back : List Token} {t : Token}
    (ht : ¬ t.kind.isTrivia = true) (h : (options.format n).tokens = before ++ t :: back) :
    significant n.tokens = significant before ++ t :: significant back := by
  rw [← significant_cut ht, ← h, ← Node.tokens_withoutTrivia, ← Node.tokens_withoutTrivia,
    withoutTrivia_format]

theorem remember_snoc (state : LayoutState) (front : List Token) (t : Token) :
    options.remember state (front ++ [t]) = options.behind (options.remember state front) t.kind :=
  remember_append state front [t]

theorem previous_remember (state : LayoutState) (front : List Token) (t : Token) :
    (options.remember state (front ++ [t])).previous = some t.kind := by
  rw [remember_snoc]
  rfl

end FormattingOptions

/-! ## Words -/

namespace Kind

/-- The kinds whose texts run together: identifiers, keywords and literals. -/
def isWord (k : Kind) : Bool :=
  k == .identifierToken || k.isKeyword || k == .stringLiteralToken || k == .numericLiteralToken

theorem ne_of_isWord {k l : Kind} (hk : k.isWord = true) (hl : l.isWord = false) : k ≠ l := by
  rintro rfl
  rw [hk] at hl
  cases hl

theorem contains_of_isWord {k : Kind} (hk : k.isWord = true) (ks : List Kind)
    (hks : ∀ l ∈ ks, l.isWord = false) : ks.contains k = false := by
  rw [← Bool.not_eq_true, List.contains_iff_mem]
  intro hmem
  exact ne_of_isWord hk (hks k hmem) rfl

theorem not_isTrivia_of_isWord {k : Kind} (hk : k.isWord = true) : ¬ k.isTrivia = true := by
  have hspace : k ≠ .whitespace := ne_of_isWord hk rfl
  have hbreak : k ≠ .endOfLine := ne_of_isWord hk rfl
  simp [isTrivia, hspace, hbreak]

end Kind

namespace FormattingOptions

variable {options : FormattingOptions}

theorem between_words {a b : Kind} (ha : a.isWord = true) (hb : b.isWord = true) (depth : Nat) :
    options.between a b depth = .space := by
  have hends : (a == .closeBraceToken) = false ∧ (a == .semicolonToken) = false ∧
      (a == .closeBracketToken) = false := by
    refine ⟨?_, ?_, ?_⟩ <;> exact beq_eq_false_iff_ne.2 (Kind.ne_of_isWord ha rfl)
  have hopens := Kind.contains_of_isWord ha [.dotToken, .openParenToken, .openBracketToken]
    (by decide)
  have hcloses := Kind.contains_of_isWord hb [.dotToken, .commaToken, .semicolonToken,
    .openParenToken, .closeParenToken, .closeBracketToken] (by decide)
  rw [between, hends.1, hends.2.1, hends.2.2, hopens, hcloses]
  rfl

/-- A word neither opens nor closes a body and does not end a file, so the rules for these are
passed over between two words. -/
theorem separate_words {state : LayoutState} {a b : Kind} (ha : a.isWord = true)
    (hb : b.isWord = true) (hprevious : state.previous = some a) :
    (options.separate state b).1 = .space := by
  rw [separate, hprevious]
  simp only []
  rw [if_neg (Kind.ne_of_isWord hb rfl), if_neg (Kind.ne_of_isWord ha rfl),
    if_neg (Kind.ne_of_isWord hb rfl)]
  exact between_words ha hb state.depth

/-- Two words that follow one another in a layout have exactly one blank between them, whatever the
options are and wherever in the tree they stand. -/
theorem words_apart (options : FormattingOptions) (n : Node) {front gap back : List Token}
    {a b : Token} (ha : a.kind.isWord = true) (hb : b.kind.isWord = true)
    (hgap : ∀ t ∈ gap, t.kind.isTrivia = true)
    (h : (options.format n).tokens = front ++ a :: gap ++ b :: back) :
    gap = [⟨.whitespace, " "⟩] ∧
      (options.format n).text = String.join (front.map (·.text)) ++ a.text ++ " " ++ b.text ++
        String.join (back.map (·.text)) := by
  have hword := Kind.not_isTrivia_of_isWord ha
  have hsignificant : significant (front ++ a :: gap) = significant front ++ [a] := by
    rw [significant_cut hword, significant_eq_nil hgap]
  have hblank : gap = [⟨.whitespace, " "⟩] := by
    have hspacing := spacing_format n (Kind.not_isTrivia_of_isWord hb) h
    rw [spacing_append hword, spacing_of_trivia hgap, hsignificant,
      separate_words ha hb (previous_remember {} _ a)] at hspacing
    exact hspacing
  refine ⟨hblank, ?_⟩
  have htext : (options.format n).text = String.join ((options.format n).tokens.map (·.text)) :=
    Tree.textAll_eq_join _
  rw [htext, h, hblank]
  simp [String.join_append, String.join_cons, String.append_assoc]

/-- A keyword and a name inside a later node with nothing but an empty node in between, laid out by
options that give line ends and indentations no text. -/
theorem words_apart_across_nodes :
    let bare : FormattingOptions := { newLine := "", indentSize := 0 }
    let keyword : Token := .fixed .voidKeyword
    let name : Token := ⟨.identifierToken, "Run"⟩
    let n : Node := ⟨.methodDeclaration,
      [.token keyword, .node .parameterList [], .node .identifierName [.token name]]⟩
    n.text = "voidRun" ∧ keyword.kind.isWord = true ∧ name.kind.isWord = true ∧
      ∃ gap, (∀ t ∈ gap, t.kind.isTrivia = true) ∧
        (bare.format n).tokens = [] ++ keyword :: gap ++ name :: [] ∧
        gap = [⟨.whitespace, " "⟩] ∧ (bare.format n).text = "void Run" := by
  intro bare keyword name n
  have hgap : ∀ t ∈ [(⟨.whitespace, " "⟩ : Token)], t.kind.isTrivia = true := by decide
  have htokens : (bare.format n).tokens = [] ++ keyword :: [⟨.whitespace, " "⟩] ++ name :: [] := by
    decide +kernel
  obtain ⟨hblank, htext⟩ := words_apart bare n (by decide) (by decide) hgap htokens
  exact ⟨by decide +kernel, by decide, by decide, _, hgap, htokens, hblank,
    htext.trans (by decide +kernel)⟩

end FormattingOptions

end TreeLint
