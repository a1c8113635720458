import TreeLint.Proofs.NameShape
import TreeLint.Simplify

/-!
# Dotted names and the trees that spell them

Joining the parts of a text that is cut at its dots gives the text back, so a name that starts
behind a dot of another is what is left of it behind some front. The trees built for a dotted text
spell it: their dotted name is the text, they are name-shaped, and no token of them is trivia.

A name-shaped tree that has a dotted name is made of names and tokens alone, down to its leaves.
-/

namespace TreeLint

namespace Text

theorem splitAt_append (separator : Char) (front back : List Char) :
    splitAt separator (front ++ separator :: back) =
      splitAt separator front ++ splitAt separator back := by
  induction front with
  | nil => simp only [List.nil_append, splitAt, if_true, List.singleton_append]
  | cons c rest ih =>
      rw [List.cons_append, splitAt, splitAt, ih]
      split
      · rw [List.cons_append]
      · cases hs : splitAt separator rest with
        | nil => exact absurd hs (splitAt_ne_nil separator rest)
        | cons part others => rfl

theorem joinWith_cons_cons (separator : Char) (part next : List Char) (rest : List (List Char)) :
    joinWith separator (part :: next :: rest) =
      part ++ separator :: joinWith separator (next :: rest) := rfl

theorem joinWith_append (separator : Char) {front back : List (List Char)} (hf : front ≠ [])
    (hb : back ≠ []) : joinWith separator (front ++ back) =
      joinWith separator front ++ separator :: joinWith separator back := by
  induction front with
  | nil => exact absurd rfl hf
  | cons part rest ih =>
      cases rest with
      | nil =>
          cases back with
          | nil => exact absurd rfl hb
          | cons next more => rfl
      | cons second more =>
          rw [List.cons_append, List.cons_append, joinWith_cons_cons, joinWith_cons_cons,
            ← List.cons_append, ih (by simp), List.append_assoc, List.cons_append]

end Text

namespace Dotted

theorem join_segments (name : String) : join (segments name) = name := by
  have hinverse : String.toList ∘ String.ofList = id := funext fun _ => String.toList_ofList
  rw [join, segments, List.map_map, hinverse, List.map_id, Text.joinWith_splitAt,
    String.ofList_toList]

theorem segments_append (front back : String) :
    segments (front ++ "." ++ back) = segments front ++ segments back := by
  have hdot : (front ++ "." ++ back).toList = front.toList ++ '.' :: back.toList := by simp
  rw [segments, hdot, Text.splitAt_append, List.map_append, segments, segments]

theorem segments_ne_nil (name : String) : segments name ≠ [] := by
  rw [segments, ne_eq, List.map_eq_nil_iff]
  exact Text.splitAt_ne_nil '.' name.toList

theorem join_append {front back : List String} (hf : front ≠ []) (hb : back ≠ []) :
    join (front ++ back) = join front ++ "." ++ join back := by
  rw [join, List.map_append, Text.joinWith_append '.' (by simpa using hf) (by simpa using hb)]
  apply String.toList_injective
  simp [join]

theorem join_singleton (segment : String) : join [segment] = segment := String.ofList_toList

theorem join_cons_cons (first second : String) (rest : List String) :
    join ((first ++ "." ++ second) :: rest) = join (first :: second :: rest) := by
  rw [← List.singleton_append (x := first), join_append (by simp) (by simp), join_singleton]
  cases rest with
  | nil => rw [join_singleton, join_singleton]
  | cons third more =>
      rw [← List.singleton_append, join_append (by simp) (by simp), join_singleton,
        ← List.singleton_append (x := second), join_append (by simp) (by simp), join_singleton]
      simp only [String.append_assoc]

/-- A proper suffix is what is left of a name behind one of its dots. -/
theorem front_of_mem_properSuffixes {name suffix : String} (h : suffix ∈ properSuffixes name) :
    ∃ front, name = front ++ "." ++ suffix := by
  simp only [properSuffixes, List.mem_reverse, List.mem_map, List.mem_range] at h
  obtain ⟨dropped, hdropped, rfl⟩ := h
  refine ⟨join ((segments name).take (dropped + 1)), ?_⟩
  have hfront : (segments name).take (dropped + 1) ≠ [] := by
    simp [segments_ne_nil]
  have hback : (segments name).drop (dropped + 1) ≠ [] := by
    rw [ne_eq, List.drop_eq_nil_iff]
    omega
  rw [← join_append hfront hback, List.take_append_drop, join_segments]

end Dotted

/-! ## The dotted name of a node -/

theorem Tree.dottedParts_eq (trees : List Tree) :
    dottedParts trees = (trees.filterMap Tree.node?).map Node.dotted? := by
  induction trees with
  | nil => rfl
  | cons t rest ih =>
      cases t with
      | token t => rw [dottedParts, ih]; rfl
      | node k children => rw [dottedParts, ih]; rfl

theorem Tree.dottedParts_append (front back : List Tree) :
    dottedParts (front ++ back) = dottedParts front ++ dottedParts back := by
  rw [dottedParts_eq, dottedParts_eq, dottedParts_eq, List.filterMap_append, List.map_append]

/-- The first identifier among some children. -/
def Tree.identifierIn? (trees : List Tree) : Option Token :=
  (trees.filterMap Tree.token?).find? fun t => t.kind == .identifierToken

theorem Node.dotted?_eq (n : Node) : n.dotted? =
    if n.kind = .identifierName then (Tree.identifierIn? n.children).map (·.text)
    else if n.kind.isPair then
      match Tree.dottedParts n.children with
      | some left :: some right :: _ => some (left ++ "." ++ right)
      | _ => none
    else none := by
  rw [Node.dotted?, Node.toTree, Tree.dotted?]
  simp only [Kind.isPair, Bool.or_eq_true, beq_iff_eq]
  rfl

/-- The dotted name depends on the kind of a node, its first identifier and its children's names. -/
theorem Node.dotted?_congr {n m : Node} (hkind : n.kind = m.kind)
    (hidentifier : Tree.identifierIn? n.children = Tree.identifierIn? m.children)
    (hparts : Tree.dottedParts n.children = Tree.dottedParts m.children) :
    n.dotted? = m.dotted? := by
  rw [Node.dotted?_eq, Node.dotted?_eq, hkind, hidentifier, hparts]

/-! ## Names all the way down -/

/-- The kinds of names. -/
def Kind.isName (k : Kind) : Bool := k == .identifierName || k.isPair

theorem Node.dotted?_eq_none {n : Node} (h : n.kind.isName = false) : n.dotted? = none := by
  rw [Kind.isName, Bool.or_eq_false_iff, beq_eq_false_iff_ne] at h
  rw [Node.dotted?_eq, if_neg h.1, h.2]
  rfl

namespace Tree

mutual

/-- Whether every node of a tree is a name. -/
def namesOnly : Tree → Bool
  | .token _ => true
  | .node k children => k.isName && namesOnlyAll children

def namesOnlyAll : List Tree → Bool
  | [] => true
  | t :: rest => t.namesOnly && namesOnlyAll rest

end

theorem length_dottedParts (trees : List Tree) :
    (dottedParts trees).length = (shape trees).count none := by
  induction trees with
  | nil => rfl
  | cons t rest ih =>
      cases t with
      | token t =>
          rw [dottedParts, shape, ih]
          split
          · rfl
          · rw [List.count_cons_of_ne (by simp)]
      | node k children => rw [dottedParts, shape, List.length_cons, ih, List.count_cons_self]

end Tree

theorem Node.parts_of_dotted {n : Node} {dotted : String} (hs : n.nameShaped = true)
    (hd : n.dotted? = some dotted) :
    n.kind.isName = true ∧ ∀ part ∈ Tree.dottedParts n.children, part.isSome = true := by
  have hfits := ((Node.nameShaped_iff n).1 hs).1
  have hlength := Tree.length_dottedParts n.children
  rw [Node.dotted?_eq] at hd
  split at hd
  · next hk =>
      refine ⟨by rw [hk]; rfl, fun part hpart => ?_⟩
      unfold Kind.fits at hfits
      rw [if_pos hk] at hfits
      split at hfits
      · next t hshape =>
          rw [hshape] at hlength
          rw [List.eq_nil_of_length_eq_zero hlength] at hpart
          cases hpart
      · cases hfits
  · split at hd
    · next hk =>
        refine ⟨by rw [Kind.isName, hk, Bool.or_true], ?_⟩
        rw [Kind.fits_pair hk hfits] at hlength
        split at hd
        · next left right tail hparts =>
            rw [hparts] at hlength ⊢
            have htail : tail = [] :=
              List.eq_nil_of_length_eq_zero (by simpa using hlength)
            rw [htail]
            simp
        · cases hd
    · cases hd

theorem Tree.namesOnlyAll_of_dotted {trees : List Tree} (hs : nameShapedAll trees = true)
    (hd : ∀ part ∈ dottedParts trees, part.isSome = true) : namesOnlyAll trees = true := by
  match trees with
  | [] => rfl
  | .token t :: rest =>
      rw [nameShapedAll, Bool.and_eq_true] at hs
      rw [namesOnlyAll, namesOnly, Bool.true_and]
      exact namesOnlyAll_of_dotted hs.2 hd
  | .node k children :: rest =>
      rw [nameShapedAll, Bool.and_eq_true] at hs
      have hnode : (⟨k, children⟩ : Node).nameShaped = true := hs.1
      obtain ⟨dotted, hdotted⟩ := Option.isSome_iff_exists.1 (hd _ List.mem_cons_self)
      obtain ⟨hk, hparts⟩ := Node.parts_of_dotted hnode hdotted
      have hchildren : nameShapedAll children = true := ((Node.nameShaped_iff _).1 hnode).2
      rw [namesOnlyAll, namesOnly, Bool.and_eq_true, Bool.and_eq_true]
      exact ⟨⟨hk, namesOnlyAll_of_dotted hchildren hparts⟩,
        namesOnlyAll_of_dotted hs.2 fun part hpart => hd part (List.mem_cons_of_mem _ hpart)⟩

/-- A name-shaped node with a dotted name is made of names and tokens alone. -/
theorem Node.namesOnly_of_dotted {n : Node} {dotted : String} (hs : n.nameShaped = true)
    (hd : n.dotted? = some dotted) :
    n.kind.isName = true ∧ Tree.namesOnlyAll n.children = true := by
  obtain ⟨hk, hparts⟩ := Node.parts_of_dotted hs hd
  exact ⟨hk, Tree.namesOnlyAll_of_dotted ((Node.nameShaped_iff n).1 hs).2 hparts⟩

/-! ## Trees that are built for a name -/

namespace Build

/-- A name of a kind over two names. -/
def pair (k : Kind) (left right : Node) : Node := ⟨k, [left.toTree, fixed .dotToken, right.toTree]⟩

theorem name_eq (dotted : String) :
    name dotted = nested (pair .qualifiedName) (Dotted.segments dotted) := rfl

theorem memberAccessChain_eq (dotted : String) : memberAccessChain dotted =
    nested (pair .simpleMemberAccessExpression) (Dotted.segments dotted) := rfl

/-- What holds of identifiers and goes on holding with each level holds of nested names. -/
theorem nested_induction {motive : Node → Prop} {level : Node → Node → Node}
    (hidentifier : ∀ segment, motive (identifierName segment))
    (hlevel : ∀ n segment, motive n → motive (level n (identifierName segment)))
    (segments : List String) : motive (nested level segments) := by
  have hfold : ∀ (others : List String) (n : Node), motive n →
      motive (others.foldl (fun n segment => level n (identifierName segment)) n) := by
    intro others
    induction others with
    | nil => exact fun n hn => hn
    | cons segment rest ih => exact fun n hn => ih _ (hlevel n segment hn)
  cases segments with
  | nil => exact hidentifier ""
  | cons first others => exact hfold others _ (hidentifier first)

theorem dotted?_identifierName (segment : String) :
    (identifierName segment).dotted? = some segment := rfl

theorem dotted?_pair {k : Kind} {left right : Node} {a b : String} (hk : k.isPair = true)
    (ha : left.dotted? = some a) (hb : right.dotted? = some b) :
    (pair k left right).dotted? = some (a ++ "." ++ b) := by
  have hne : k ≠ .identifierName := by
    rintro rfl
    cases hk
  have hparts : Tree.dottedParts (pair k left right).children = [some a, some b] := by
    rw [← ha, ← hb]
    rfl
  have hkind : (pair k left right).kind ≠ .identifierName := hne
  have hpair : (pair k left right).kind.isPair = true := hk
  rw [Node.dotted?_eq, if_neg hkind, if_pos hpair, hparts]

theorem dotted?_nested {k : Kind} (hk : k.isPair = true) {segments : List String}
    (hne : segments ≠ []) : (nested (pair k) segments).dotted? = some (Dotted.join segments) := by
  have hfold : ∀ (others : List String) (n : Node) (a : String), n.dotted? = some a →
      (others.foldl (fun n segment => pair k n (identifierName segment)) n).dotted? =
        some (Dotted.join (a :: others)) := by
    intro others
    induction others with
    | nil =>
        intro n a hn
        rw [Dotted.join_singleton]
        exact hn
    | cons segment rest ih =>
        intro n a hn
        rw [List.foldl_cons, ih _ _ (dotted?_pair hk hn (dotted?_identifierName segment)),
          Dotted.join_cons_cons]
  cases segments with
  | nil => exact absurd rfl hne
  | cons first others => exact hfold others _ first (dotted?_identifierName first)

theorem nameShaped_nested {k : Kind} (hk : k.isPair = true) (segments : List String) :
    (nested (pair k) segments).nameShaped = true := by
  refine nested_induction (motive := fun n => n.nameShaped = true) (fun segment => ?_)
    (fun n segment hn => ?_) segments
  · rfl
  have hne : k ≠ .identifierName := by
    rintro rfl
    cases hk
  have hdot : (Token.fixed .dotToken).kind.isTrivia = false := rfl
  rw [Node.nameShaped_iff]
  constructor
  · simp [pair, Kind.fits, hne, hk, Node.toTree, fixed, Tree.shape, hdot]
  · rw [Node.nameShaped] at hn
    simp only [pair, Tree.nameShapedAll, hn, fixed, Tree.nameShaped, Bool.true_and]
    rfl

theorem tokens_nested {k : Kind} (segments : List String) :
    ∀ t ∈ (nested (pair k) segments).tokens, t.kind.isTrivia = false := by
  refine nested_induction (motive := fun n => ∀ t ∈ n.tokens, t.kind.isTrivia = false)
    (fun segment => ?_) (fun n segment hn => ?_) segments
  · intro t ht
    rw [List.mem_singleton.1 ht]
    rfl
  · intro t ht
    rcases List.mem_append.1 ht with ht | ht
    · exact hn t ht
    · rcases List.mem_cons.1 ht with rfl | ht
      · rfl
      · rw [List.mem_singleton.1 ht]
        rfl

end Build

/-! ## Trivia in front -/

namespace Tree

theorem shape_trivia (lead : List Token) (h : ∀ t ∈ lead, t.kind.isTrivia = true)
    (trees : List Tree) : shape (lead.map Tree.token ++ trees) = shape trees := by
  induction lead with
  | nil => rfl
  | cons t rest ih =>
      rw [List.map_cons, List.cons_append, shape, if_pos (h t List.mem_cons_self)]
      exact ih fun u hu => h u (List.mem_cons_of_mem _ hu)

theorem nameShapedAll_tokens (tokens : List Token) (trees : List Tree) :
    nameShapedAll (tokens.map Tree.token ++ trees) = nameShapedAll trees := by
  induction tokens with
  | nil => rfl
  | cons t rest ih => rw [List.map_cons, List.cons_append, nameShapedAll, ih]; rfl

theorem dottedParts_tokens (tokens : List Token) (trees : List Tree) :
    dottedParts (tokens.map Tree.token ++ trees) = dottedParts trees := by
  induction tokens with
  | nil => rfl
  | cons t rest ih => rw [List.map_cons, List.cons_append, dottedParts, ih]

theorem identifierIn?_trivia (lead : List Token) (h : ∀ t ∈ lead, t.kind.isTrivia = true)
    (trees : List Tree) : identifierIn? (lead.map Tree.token ++ trees) = identifierIn? trees := by
  induction lead with
  | nil => rfl
  | cons t rest ih =>
      have hne : (t.kind == .identifierToken) = false := by
        have ht := h t List.mem_cons_self
        cases hk : t.kind == .identifierToken with
        | false => rfl
        | true =>
            rw [beq_iff_eq.1 hk] at ht
            cases ht
      rw [identifierIn?, List.map_cons, List.cons_append, List.filterMap_cons]
      simp only [Tree.token?]
      rw [List.find?_cons, hne]
      exact ih fun u hu => h u (List.mem_cons_of_mem _ hu)

theorem tokensAll_append (front back : List Tree) :
    tokensAll (front ++ back) = tokensAll front ++ tokensAll back := by
  induction front with
  | nil => rfl
  | cons t rest ih => rw [List.cons_append, tokensAll, tokensAll, ih, List.append_assoc]

theorem tokensAll_tokens (tokens : List Token) : tokensAll (tokens.map Tree.token) = tokens := by
  induction tokens with
  | nil => rfl
  | cons t rest ih => rw [List.map_cons, tokensAll, ih]; rfl

end Tree

/-! ## What a shortened name is replaced with -/

namespace Simplify

/-- The tokens that a node starts with and that are trivia. -/
def leadingTokens (n : Node) : List Token := n.tokens.takeWhile fun t => t.kind.isTrivia

theorem isTrivia_of_mem_leadingTokens {n : Node} {t : Token} (h : t ∈ leadingTokens n) :
    t.kind.isTrivia = true := by
  have hall := List.all_takeWhile (p := fun t : Token => t.kind.isTrivia) (l := n.tokens)
  exact List.all_eq_true.1 hall t h

/-- The name in a replacement, without the trivia in front. -/
theorem replacement_eq (a : Abbreviation) (old : Node) : ∃ k : Kind, k.isPair = true ∧
    replacement a old =
      ⟨(Build.nested (Build.pair k) (Dotted.segments a.shorter)).kind,
        (leadingTokens old).map Tree.token ++
          (Build.nested (Build.pair k) (Dotted.segments a.shorter)).children⟩ := by
  by_cases h : a.kind = .qualifiedName
  · exact ⟨.qualifiedName, rfl, by rw [replacement, if_pos h, Build.name_eq]; rfl⟩
  · exact ⟨.simpleMemberAccessExpression, rfl, by
      rw [replacement, if_neg h, Build.memberAccessChain_eq]; rfl⟩

theorem dotted?_replacement (a : Abbreviation) (old : Node) :
    (replacement a old).dotted? = some a.shorter := by
  obtain ⟨k, hk, heq⟩ := replacement_eq a old
  have hname := Build.dotted?_nested hk (Dotted.segments_ne_nil a.shorter)
  rw [Dotted.join_segments] at hname
  rw [heq, ← hname]
  exact Node.dotted?_congr rfl
    (Tree.identifierIn?_trivia _ (fun t => isTrivia_of_mem_leadingTokens) _)
    (Tree.dottedParts_tokens _ _)

theorem nameShaped_replacement (a : Abbreviation) (old : Node) :
    (replacement a old).nameShaped = true := by
  obtain ⟨k, hk, heq⟩ := replacement_eq a old
  have hname := (Node.nameShaped_iff _).1 (Build.nameShaped_nested hk (Dotted.segments a.shorter))
  rw [heq, Node.nameShaped_iff]
  simp only [Tree.nameShapedAll_tokens,
    Tree.shape_trivia _ (fun t => isTrivia_of_mem_leadingTokens)]
  exact hname

theorem leadingTokens_replacement (a : Abbreviation) (old : Node) :
    leadingTokens (replacement a old) = leadingTokens old := by
  obtain ⟨k, -, heq⟩ := replacement_eq a old
  have hlead : ∀ t ∈ leadingTokens old, t.kind.isTrivia = true := fun t =>
    isTrivia_of_mem_leadingTokens
  have hname := Build.tokens_nested (k := k) (Dotted.segments a.shorter)
  rw [leadingTokens, heq, Node.tokens, Tree.tokensAll_append, Tree.tokensAll_tokens,
    List.takeWhile_append_of_pos hlead]
  rw [Node.tokens] at hname
  cases hall :
      Tree.tokensAll (Build.nested (Build.pair k) (Dotted.segments a.shorter)).children with
  | nil => simp
  | cons t rest =>
      have ht := hname t (hall ▸ List.mem_cons_self)
      rw [List.takeWhile_cons_of_neg (by rw [ht]; simp), List.append_nil]

end Simplify

end TreeLint
