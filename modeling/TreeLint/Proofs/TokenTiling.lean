import TreeLint.Proofs.TextInPlace
import TreeLint.Proofs.TokensInPlace
import TreeLint.Tree.Build

/-!
# How tokens lie in a text

The same sizes are found three times over. A node keeps the sum of its children's widths from when
it was made, a walk adds up widths to know where the next child starts, and a lookup goes down to
the child whose span holds an offset. They agree as long as the text of the whole tree is shorter
than the offsets reach: no sum wraps round and no end of a span is cut off.

Everything about the tokens under a node is proved of the tokens among some of its children, with
the offset at which the first of them starts.
-/

namespace TreeLint

/-! ## The widths that nodes keep -/

namespace Tree

/-- What is kept is the width, less what 32 bits cannot hold. -/
theorem toNat_keptWidthAll (trees : List Tree) :
    (keptWidthAll trees).toNat = widthAll trees % UInt32.size := by
  have hadd : ∀ a b : UInt32, (a + b).toNat = (a.toNat + b.toNat) % UInt32.size := UInt32.toNat_add
  match trees with
  | [] => rfl
  | .token t :: rest =>
      have hkept : (UInt32.ofNat t.width).toNat = t.width % UInt32.size := rfl
      rw [keptWidthAll, hadd, toNat_keptWidthAll rest, keptWidth, hkept, widthAll, width,
        ← Nat.add_mod]
  | .node k children :: rest =>
      rw [keptWidthAll, hadd, toNat_keptWidthAll rest, keptWidth, toNat_keptWidthAll children,
        widthAll, width, ← Nat.add_mod]

theorem keptWidthAll_append (front back : List Tree) :
    keptWidthAll (front ++ back) = keptWidthAll front + keptWidthAll back := by
  induction front with
  | nil => exact (UInt32.zero_add _).symm
  | cons t rest ih => rw [List.cons_append, keptWidthAll, keptWidthAll, ih, UInt32.add_assoc]

end Tree

namespace Node

/-- A node made from another with some children replaced keeps what that one keeps, less the kept
widths of the children taken out and with those of the others. -/
theorem keptWidth_splice? {n m : Node} {start stop : Nat} {others : List Tree}
    (h : n.splice? start stop others = some m) :
    m.toTree.keptWidth + Tree.keptWidthAll ((n.children.take stop).drop start) =
      n.toTree.keptWidth + Tree.keptWidthAll others := by
  obtain ⟨⟨hstart, -⟩, hm⟩ := Option.ite_none_right_eq_some.1 h
  obtain rfl := Option.some.inj hm
  have hsplit : n.children =
      n.children.take start ++ (n.children.take stop).drop start ++ n.children.drop stop := by
    have htake : (n.children.take stop).take start = n.children.take start := by
      rw [List.take_take, Nat.min_eq_left hstart]
    rw [← htake, List.take_append_drop, List.take_append_drop]
  have hnode : n.toTree.keptWidth = Tree.keptWidthAll (n.children.take start) +
      Tree.keptWidthAll ((n.children.take stop).drop start) +
        Tree.keptWidthAll (n.children.drop stop) := by
    rw [toTree, Tree.keptWidth, ← Tree.keptWidthAll_append, ← Tree.keptWidthAll_append, ← hsplit]
  have hspliced : (n.splice start stop others).toTree.keptWidth =
      Tree.keptWidthAll (n.children.take start) + Tree.keptWidthAll others +
        Tree.keptWidthAll (n.children.drop stop) := by
    rw [toTree, splice, Tree.keptWidth, Tree.keptWidthAll_append, Tree.keptWidthAll_append]
  rw [hnode, hspliced]
  ac_rfl

/-- Replacing a child is splicing it. -/
theorem replaceChild?_eq_splice? (n : Node) (index : Nat) (t : Tree) :
    n.replaceChild? index t = n.splice? index (index + 1) [t] := by
  have hbound : index ≤ index + 1 ∧ index + 1 ≤ n.children.length ↔ index < n.children.length :=
    and_iff_right (Nat.le_succ index)
  rw [replaceChild?, splice?, if_congr hbound rfl rfl]
  split
  · next hlt =>
      rw [setChild, splice, List.set_eq_take_append_cons_drop, if_pos hlt, List.append_assoc,
        List.singleton_append]
  · rfl

theorem keptWidth_replaceChild? {n m : Node} {index : Nat} {old t : Tree}
    (hold : n.children[index]? = some old) (h : n.replaceChild? index t = some m) :
    m.toTree.keptWidth + old.keptWidth = n.toTree.keptWidth + t.keptWidth := by
  have hone : (n.children.take (index + 1)).drop index = [old] := by
    rw [List.take_add_one, hold, List.drop_append_of_le_length]
    · simp
    · obtain ⟨hlt, -⟩ := List.getElem?_eq_some_iff.1 hold
      rw [List.length_take]
      omega
  have hsingle : ∀ u : Tree, Tree.keptWidthAll [u] = u.keptWidth := fun u => UInt32.add_zero _
  rw [replaceChild?_eq_splice?] at h
  have hspliced := keptWidth_splice? h
  rwa [hone, hsingle, hsingle] at hspliced

end Node

namespace Tree

theorem textAll_eq_join (trees : List Tree) :
    textAll trees = String.join ((tokensAll trees).map (·.text)) := by
  match trees with
  | [] => rfl
  | .token t :: rest =>
      rw [textAll, textAll_eq_join rest, tokensAll, tokens, List.singleton_append, List.map_cons,
        String.join_cons]
      rfl
  | .node k children :: rest =>
      rw [textAll, textAll_eq_join rest, text, textAll_eq_join children, tokensAll, tokens,
        List.map_append, String.join_append]

end Tree

/-! ## Spans in a row -/

/-- Spans that follow one another from one offset to another, without a gap or an overlap. -/
inductive Tiles : Nat → Nat → List Span → Prop where
  | nil (offset : Nat) : Tiles offset offset []
  | cons {s : Span} {stop : Nat} {rest : List Span} (h : Tiles (s.start + s.length) stop rest) :
      Tiles s.start stop (s :: rest)

namespace Tiles

variable {start middle stop : Nat} {front back spans : List Span}

theorem append (hf : Tiles start middle front) (hb : Tiles middle stop back) :
    Tiles start stop (front ++ back) := by
  induction hf with
  | nil offset => exact hb
  | cons h ih => exact .cons (ih hb)

theorem le (h : Tiles start stop spans) : start ≤ stop := by
  induction h with
  | nil offset => exact Nat.le_refl offset
  | cons h ih => omega

theorem bounds (h : Tiles start stop spans) {s : Span} (hs : s ∈ spans) :
    start ≤ s.start ∧ s.start + s.length ≤ stop := by
  induction h with
  | nil offset => cases hs
  | cons h ih =>
      rcases List.mem_cons.1 hs with rfl | hs
      · exact ⟨Nat.le_refl _, h.le⟩
      · have hrest := ih hs
        omega

/-- A span ends before the ones behind it start. -/
theorem pairwise (h : Tiles start stop spans) :
    spans.Pairwise fun s t => s.start + s.length ≤ t.start := by
  induction h with
  | nil offset => exact .nil
  | cons h ih => exact .cons (fun t ht => (h.bounds ht).1) ih

end Tiles

theorem Span.contains_iff {s : Span} {offset : Nat} (h : s.start + s.length ≤ maxOffset) :
    s.contains offset = true ↔ s.start ≤ offset ∧ offset < s.start + s.length := by
  have hstop : s.stop = s.start + s.length := Nat.min_eq_left h
  rw [contains, hstop, Bool.and_eq_true, decide_eq_true_iff, decide_eq_true_iff]

theorem Span.containsSpan_iff {s other : Span} (h : s.start + s.length ≤ maxOffset)
    (hother : other.start + other.length ≤ maxOffset) : s.containsSpan other = true ↔
      s.start ≤ other.start ∧ other.start + other.length ≤ s.start + s.length := by
  have hstop : s.stop = s.start + s.length := Nat.min_eq_left h
  have hother : other.stop = other.start + other.length := Nat.min_eq_left hother
  rw [containsSpan, hstop, hother, Bool.and_eq_true, decide_eq_true_iff, decide_eq_true_iff]

/-- Of two tokens whose spans follow one another, one ends before the other starts. -/
theorem Tiles.apart {start stop : Nat} {tokens : List TokenCursor}
    (h : Tiles start stop (tokens.map (·.span))) {t u : TokenCursor} (ht : t ∈ tokens)
    (hu : u ∈ tokens) :
    t = u ∨ t.start + t.token.width ≤ u.start ∨ u.start + u.token.width ≤ t.start := by
  have hordered : tokens.Pairwise fun t u => t.start + t.token.width ≤ u.start :=
    List.pairwise_map.1 h.pairwise
  obtain ⟨i, hi, rfl⟩ := List.mem_iff_getElem.1 ht
  obtain ⟨j, hj, rfl⟩ := List.mem_iff_getElem.1 hu
  rcases Nat.lt_trichotomy i j with hij | rfl | hij
  · exact .inr (.inl (List.pairwise_iff_getElem.1 hordered i j hi hj hij))
  · exact .inl rfl
  · exact .inr (.inr (List.pairwise_iff_getElem.1 hordered j i hj hi hij))

/-- At most one of the tokens whose spans follow one another covers an offset. -/
theorem Tiles.eq_of_contains {start stop offset : Nat} {tokens : List TokenCursor}
    (h : Tiles start stop (tokens.map (·.span))) (hmax : stop ≤ maxOffset) {t u : TokenCursor}
    (ht : t ∈ tokens) (hu : u ∈ tokens) (htc : t.span.contains offset = true)
    (huc : u.span.contains offset = true) : t = u := by
  have hcovers : ∀ v ∈ tokens, v.span.contains offset = true →
      v.start ≤ offset ∧ offset < v.start + v.token.width := by
    intro v hv hc
    have hbounds := h.bounds (List.mem_map_of_mem (f := (·.span)) hv)
    exact (Span.contains_iff (by omega)).1 hc
  have htb := hcovers t ht htc
  have hub := hcovers u hu huc
  rcases h.apart ht hu with heq | hbefore | hbehind
  · exact heq
  · omega
  · omega

/-! ## The tokens among some children -/

namespace Cursor

theorem tiles_tokensFrom (c : Cursor) (index start : Nat) (trees : List Tree) :
    Tiles start (start + Tree.widthAll trees) ((c.tokensFrom index start trees).map (·.span)) := by
  match trees with
  | [] => exact .nil start
  | .token t :: rest =>
      have hrest := c.tiles_tokensFrom (index + 1) (start + t.width) rest
      rw [Tree.widthAll, ← Nat.add_assoc]
      exact Tiles.cons (s := ⟨start, t.width⟩) hrest
  | .node k children :: rest =>
      have hchild := (c.child index start k children).tiles_tokensFrom 0 start children
      have hrest := c.tiles_tokensFrom (index + 1) (start + Tree.widthAll children) rest
      rw [tokensFrom_node, List.map_append, Tree.widthAll, ← Nat.add_assoc]
      exact hchild.append hrest

/-- A token starts behind the text in front of it. -/
theorem text_split_of_mem_tokensFrom {c : Cursor} {index start : Nat} {trees : List Tree}
    {t : TokenCursor} (h : t ∈ c.tokensFrom index start trees) :
    ∃ front back, Tree.textAll trees = front ++ t.text ++ back ∧
      t.start = start + front.utf8ByteSize := by
  match trees with
  | [] => cases h
  | .token token :: rest =>
      rw [tokensFrom_token] at h
      rcases List.mem_cons.1 h with rfl | h
      · exact ⟨"", Tree.textAll rest, by rw [String.empty_append]; rfl, rfl⟩
      · obtain ⟨front, back, htext, hstart⟩ := text_split_of_mem_tokensFrom h
        refine ⟨token.text ++ front, back, ?_, ?_⟩
        · rw [Tree.textAll, htext]
          simp only [Tree.text, String.append_assoc]
        · rw [hstart, String.utf8ByteSize_append, Token.width, Nat.add_assoc]
  | .node k children :: rest =>
      rw [tokensFrom_node] at h
      rcases List.mem_append.1 h with h | h
      · have h : t ∈ (c.child index start k children).tokensFrom 0 start children := h
        obtain ⟨front, back, htext, hstart⟩ := text_split_of_mem_tokensFrom h
        refine ⟨front, back ++ Tree.textAll rest, ?_, hstart⟩
        rw [Tree.textAll, Tree.text, htext]
        simp only [String.append_assoc]
      · obtain ⟨front, back, htext, hstart⟩ := text_split_of_mem_tokensFrom h
        refine ⟨Tree.textAll children ++ front, back, ?_, ?_⟩
        · rw [Tree.textAll, Tree.text, htext]
          simp only [String.append_assoc]
        · rw [hstart, String.utf8ByteSize_append, Tree.widthAll_eq, Nat.add_assoc]

/-- The lookup goes past the children in front of an offset, those without any text among them, and
ends at a token that covers it. -/
theorem tokenAtFrom?_covers (c : Cursor) (offset index start : Nat) (trees : List Tree)
    (hmax : start + Tree.widthAll trees ≤ maxOffset) (hstart : start ≤ offset)
    (hstop : offset < start + Tree.widthAll trees) :
    ∃ t ∈ c.tokensFrom index start trees,
      c.tokenAtFrom? offset index start trees = some t ∧ t.span.contains offset = true := by
  match trees with
  | [] =>
      rw [Tree.widthAll] at hstop
      omega
  | .token token :: rest =>
      rw [Tree.widthAll, Tree.width, ← Nat.add_assoc] at hmax hstop
      have hfirst : (⟨start, token.width⟩ : Span).contains offset = true ↔
          start ≤ offset ∧ offset < start + token.width := Span.contains_iff (by dsimp only; omega)
      rw [tokenAtFrom?, tokensFrom_token, Tree.width]
      by_cases hcontains : (⟨start, token.width⟩ : Span).contains offset = true
      · rw [if_pos hcontains]
        exact ⟨_, List.mem_cons_self, rfl, hcontains⟩
      · rw [if_neg hcontains]
        rw [hfirst] at hcontains
        obtain ⟨t, hmem, hfound⟩ :=
          tokenAtFrom?_covers c offset (index + 1) _ rest hmax (by omega) hstop
        exact ⟨t, List.mem_cons_of_mem _ hmem, hfound⟩
  | .node k children :: rest =>
      rw [Tree.widthAll, Tree.width, ← Nat.add_assoc] at hmax hstop
      have hfirst : (⟨start, Tree.widthAll children⟩ : Span).contains offset = true ↔
          start ≤ offset ∧ offset < start + Tree.widthAll children :=
        Span.contains_iff (by dsimp only; omega)
      rw [tokenAtFrom?, tokensFrom_node, Tree.width]
      by_cases hcontains : (⟨start, Tree.widthAll children⟩ : Span).contains offset = true
      · rw [if_pos hcontains]
        rw [hfirst] at hcontains
        obtain ⟨t, hmem, hfound⟩ :=
          tokenAtFrom?_covers (c.child index start k children) offset 0 start children (by omega)
            hcontains.1 hcontains.2
        exact ⟨t, List.mem_append_left _ hmem, hfound⟩
      · rw [if_neg hcontains]
        rw [hfirst] at hcontains
        obtain ⟨t, hmem, hfound⟩ :=
          tokenAtFrom?_covers c offset (index + 1) _ rest hmax (by omega) hstop
        exact ⟨t, List.mem_append_right _ hmem, hfound⟩

end Cursor

/-! ## Every node of a tree -/

/-- The sizes of a node, its tokens and its text say the same, and they fit the text of the tree
that the node is in. -/
structure Measured (root : Node) (c : Cursor) : Prop where
  kept : c.node.toTree.keptWidth.toNat = c.text.utf8ByteSize
  width : c.fullSpan.length = c.text.utf8ByteSize
  inside : c.fullSpan.start + c.fullSpan.length ≤ root.text.utf8ByteSize
  tiles : Tiles c.fullSpan.start c.fullSpan.stop (c.tokens.map (·.span))
  slices : ∀ t ∈ c.tokens,
    Text.slice? root.text.toList t.span.start t.span.stop = some t.text.toList
  tokens : c.tokens.map (·.token) = c.node.tokens
  text : c.text = String.join (c.node.tokens.map (·.text))
  covered : ∀ offset, c.fullSpan.contains offset = true →
    ∃ t ∈ c.tokens, c.tokenAt? offset = some t ∧ t.span.contains offset = true ∧
      ∀ other ∈ c.tokens, other.span.contains offset = true → other = t
  outside : ∀ offset, c.fullSpan.contains offset = false → c.tokenAt? offset = none

namespace Place

variable {p : Place} {n : Node}

/-- The text at the span of a token is that of the token. -/
theorem slice_token (h : (p.fill n).text.utf8ByteSize ≤ maxOffset) {t : TokenCursor}
    (ht : t ∈ (p.cursor n).tokens) :
    Text.slice? (p.fill n).text.toList t.span.start t.span.stop = some t.text.toList := by
  obtain ⟨front, back, htext, hstart⟩ := Cursor.text_split_of_mem_tokensFrom ht
  have hnode : n.text = front ++ t.text ++ back := htext
  have hroot : (p.fill n).text = (p.textBefore ++ front) ++ t.text ++ (back ++ p.textBehind) := by
    rw [text_fill, hnode]
    simp only [String.append_assoc]
  have hfront : t.span.start = (p.textBefore ++ front).utf8ByteSize := by
    rw [String.utf8ByteSize_append, ← p.start_eq]
    exact hstart
  have hstop : t.span.stop = t.span.start + t.text.utf8ByteSize := by
    rw [hroot, String.utf8ByteSize_append, String.utf8ByteSize_append, ← hfront] at h
    have hend : t.span.start + t.text.utf8ByteSize ≤ maxOffset := by omega
    exact Nat.min_eq_left hend
  rw [hroot, hstop, hfront, String.toList_append, String.toList_append, ← Text.byteLength_toList,
    ← Text.byteLength_toList]
  exact Text.slice?_append _ _ _

theorem toNat_keptWidth (h : (p.fill n).text.utf8ByteSize ≤ maxOffset) :
    n.toTree.keptWidth.toNat = n.width := by
  have hkept : n.toTree.keptWidth.toNat = n.width % UInt32.size :=
    Tree.toNat_keptWidthAll n.children
  have hinside := p.start_add_width_le n
  have hmax : n.width ≤ maxOffset := by omega
  have hsmall : n.width < UInt32.size := Nat.lt_succ_of_le hmax
  rw [hkept, Nat.mod_eq_of_lt hsmall]

theorem tiles_tokens (h : (p.fill n).text.utf8ByteSize ≤ maxOffset) :
    Tiles (p.cursor n).fullSpan.start (p.cursor n).fullSpan.stop
      ((p.cursor n).tokens.map (·.span)) := by
  rw [p.stop_eq n h]
  exact (p.cursor n).tiles_tokensFrom 0 p.start n.children

theorem tokenAt?_covers (h : (p.fill n).text.utf8ByteSize ≤ maxOffset) {offset : Nat}
    (hoffset : (p.cursor n).fullSpan.contains offset = true) :
    ∃ t ∈ (p.cursor n).tokens,
      (p.cursor n).tokenAt? offset = some t ∧ t.span.contains offset = true := by
  have hmax : p.start + n.width ≤ maxOffset := Nat.le_trans (p.start_add_width_le n) h
  have hbounds := (Span.contains_iff hmax).1 hoffset
  rw [Cursor.tokenAt?, if_pos hoffset]
  exact (p.cursor n).tokenAtFrom?_covers offset 0 p.start n.children hmax hbounds.1 hbounds.2

theorem measured (h : (p.fill n).text.utf8ByteSize ≤ maxOffset) :
    Measured (p.fill n) (p.cursor n) := by
  constructor
  case kept => exact (toNat_keptWidth h).trans n.width_eq
  case width => exact n.width_eq
  case inside => exact p.start_add_width_le n
  case tiles => exact tiles_tokens h
  case slices => exact fun t ht => slice_token h ht
  case tokens => exact (p.cursor n).map_token_tokens
  case text => exact Tree.textAll_eq_join n.children
  case covered =>
    intro offset hoffset
    obtain ⟨t, hmem, hfound, hcovers⟩ := tokenAt?_covers h hoffset
    refine ⟨t, hmem, hfound, hcovers, ?_⟩
    intro other hother hcovered
    exact (tiles_tokens h).eq_of_contains (Nat.min_le_right _ _) hother hmem hcovered hcovers
  case outside =>
    intro offset hoffset
    rw [Cursor.tokenAt?, hoffset]
    rfl

end Place

/-- Sizes agree at every node of a tree. However the tree was put together, by making nodes or by
replacing and splicing children, each of its nodes was made with the sum of what its children keep,
and none of these sums wrapped round if the text of the whole tree can be addressed. -/
theorem measured_of_mem_descendants {root : Node} (h : root.text.utf8ByteSize ≤ maxOffset)
    {c : Cursor} (hc : c ∈ (Cursor.ofRoot root).descendants) : Measured root c := by
  obtain ⟨p, hp, hfill⟩ := stands_of_mem_descendants hc
  subst hfill
  rw [hp]
  exact Place.measured h

/-- A name of one character but two bytes, between a blank and an end of file without text. -/
theorem measured_of_wide_name :
    let name := Build.identifierName "é"
    let root : Node :=
      ⟨.compilationUnit, [Build.space, name.toTree, Build.fixed .endOfFileToken]⟩
    let c : Cursor := ⟨name, 1, [⟨root, 0, 1⟩]⟩
    root.text.utf8ByteSize ≤ maxOffset ∧ c ∈ (Cursor.ofRoot root).descendants ∧
      c.fullSpan = ⟨1, 2⟩ ∧ Measured root c := by
  intro name root c
  have h : root.text.utf8ByteSize ≤ maxOffset := by decide +kernel
  have hc : c ∈ (Cursor.ofRoot root).descendants := by decide +kernel
  exact ⟨h, hc, by decide +kernel, measured_of_mem_descendants h hc⟩

end TreeLint
