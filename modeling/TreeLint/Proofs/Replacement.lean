import TreeLint.Proofs.Likeness
import TreeLint.Proofs.TextInPlace
import TreeLint.Tree.Build

/-!
# Replacing a node

A node is replaced by going up from it: each node around it is made again, with the new child where
the old one was. The indices by which the children are found on the way up are those of the path
from the root, so what was rebuilt is the place of the node filled with another node.

Whatever is said here of a path is proved gap by gap: a path that leads to the gap, past it or into
it.
-/

namespace TreeLint

/-! ## In a gap -/

namespace Gap

variable (g : Gap)

theorem getElem?_fill (n : Node) : (g.fill n).children[g.before.length]? = some n.toTree := by
  simp [fill]

theorem getElem?_fill_of_ne (n m : Node) {index : Nat} (h : index ≠ g.before.length) :
    (g.fill n).children[index]? = (g.fill m).children[index]? := by
  show (g.before ++ n.toTree :: g.behind)[index]? = (g.before ++ m.toTree :: g.behind)[index]?
  by_cases hbefore : index < g.before.length
  · rw [List.getElem?_append_left hbefore, List.getElem?_append_left hbefore]
  · obtain ⟨behind, hbehind⟩ : ∃ behind, index - g.before.length = behind + 1 :=
      ⟨index - g.before.length - 1, by omega⟩
    rw [List.getElem?_append_right (by omega), List.getElem?_append_right (by omega), hbehind,
      List.getElem?_cons_succ, List.getElem?_cons_succ]

theorem get?_fill (n : Node) (path : List Nat) :
    (g.fill n).get? (g.before.length :: path) = n.get? path := by
  rw [Node.get?, getElem?_fill]
  rfl

theorem get?_fill_of_ne (n m : Node) {index : Nat} (h : index ≠ g.before.length)
    (path : List Nat) : (g.fill n).get? (index :: path) = (g.fill m).get? (index :: path) := by
  rw [Node.get?, Node.get?, g.getElem?_fill_of_ne n m h]

end Gap

/-! ## At a place -/

namespace Place

/-- The child indices that lead from the root to a place. -/
def path (p : Place) : List Nat := (p.map fun g => g.before.length).reverse

theorem path_cons (g : Gap) (outer : Place) : path (g :: outer) = path outer ++ [g.before.length] :=
  List.reverse_cons

theorem path_cursor (p : Place) (n : Node) : (p.cursor n).path = p.path := by
  have hindices : (p.frames n).map (·.index) = p.map fun g => g.before.length := by
    induction p generalizing n with
    | nil => rfl
    | cons g outer ih => rw [frames, List.map_cons, List.map_cons, ih]
  rw [Cursor.path, path, ← hindices]
  rfl

/-- A path that goes on behind a place goes on in the node there. -/
theorem get?_fill (p : Place) (n : Node) (rest : List Nat) :
    (p.fill n).get? (p.path ++ rest) = n.get? rest := by
  induction p generalizing n rest with
  | nil => rfl
  | cons g outer ih =>
      rw [fill, path_cons, List.append_assoc, ih, List.singleton_append, g.get?_fill]

/-- A path that leaves the way to a place leads to the same tree, whatever is there. -/
theorem get?_fill_elsewhere (p : Place) (n m : Node) {other : List Nat} (habove : ¬other <+: p.path)
    (hunder : ¬p.path <+: other) : (p.fill n).get? other = (p.fill m).get? other := by
  induction p generalizing n m other with
  | nil => exact absurd List.nil_prefix hunder
  | cons g outer ih =>
      rw [path_cons] at habove hunder
      by_cases hparent : path outer <+: other
      · obtain ⟨rest, rfl⟩ := hparent
        rw [List.prefix_append_right_inj] at habove hunder
        rw [fill, fill, get?_fill, get?_fill]
        cases rest with
        | nil => exact absurd List.nil_prefix habove
        | cons index rest =>
            have hindex : index ≠ g.before.length := by
              intro heq
              exact hunder (heq ▸ ⟨rest, rfl⟩)
            exact g.get?_fill_of_ne n m hindex rest
      · have hparent' : ¬other <+: path outer := fun h => habove (h.trans (List.prefix_append _ _))
        exact ih (g.fill n) (g.fill m) hparent' hparent

/-- The path of a place leads to the node there. -/
theorem descend?_fill (p : Place) (n : Node) (rest : List Nat) :
    (Cursor.ofRoot (p.fill n)).descend? (p.path ++ rest) = (p.cursor n).descend? rest := by
  induction p generalizing n rest with
  | nil => rfl
  | cons g outer ih =>
      have hlength : ((cursor outer (g.fill n)).elementsFrom 0 (start outer) g.before).length =
          g.before.length := by
        rw [← List.length_map (f := Element.tree), Cursor.map_tree_elementsFrom]
      have helement : (cursor outer (g.fill n)).element? g.before.length =
          some (.node (cursor (g :: outer) n)) := by
        rw [Cursor.element?, elements_fill, List.getElem?_append_right (Nat.le_of_eq hlength),
          hlength, Nat.sub_self, List.getElem?_cons_zero]
      rw [fill, path_cons, List.append_assoc, ih, List.singleton_append, Cursor.descend?, helement]

theorem descend?_path (p : Place) (n : Node) :
    (Cursor.ofRoot (p.fill n)).descend? (p.cursor n).path = some (.node (p.cursor n)) := by
  have hdescend := p.descend?_fill n []
  rw [List.append_nil] at hdescend
  rw [path_cursor]
  exact hdescend

/-- The text in front of a place is the text of the tree up to where the node there starts. -/
theorem slice_before (p : Place) (n : Node) :
    Text.slice? (p.fill n).text.toList 0 p.start = some p.textBefore.toList := by
  rw [text_fill, String.append_assoc, String.toList_append, start_eq, ← Text.byteLength_toList]
  have hslice := Text.slice?_append [] p.textBefore.toList (n.text ++ p.textBehind).toList
  simpa only [Text.byteLength, List.foldr_nil, List.nil_append, Nat.zero_add] using hslice

/-- The text behind a place is the text of the tree from where the node there ends. -/
theorem slice_behind (p : Place) (n : Node) (h : (p.fill n).text.utf8ByteSize ≤ maxOffset) :
    Text.slice? (p.fill n).text.toList (p.cursor n).fullSpan.stop (p.fill n).text.utf8ByteSize =
      some p.textBehind.toList := by
  have hslice := Text.slice?_append (p.textBefore ++ n.text).toList p.textBehind.toList []
  rw [List.append_nil, Text.byteLength_toList, Text.byteLength_toList, ← String.toList_append,
    ← String.utf8ByteSize_append] at hslice
  rw [stop_eq p n h, start_eq, n.width_eq, ← String.utf8ByteSize_append, text_fill]
  exact hslice

end Place

/-- The path of a node that stands in a tree leads to it. -/
theorem Cursor.Stands.descend?_path {c : Cursor} {root : Node} (hs : c.Stands root) :
    (Cursor.ofRoot root).descend? c.path = some (.node c) := by
  obtain ⟨p, hp, rfl⟩ := hs
  have hpath := p.descend?_path c.node
  rwa [← hp] at hpath

/-! ## Every node of a tree -/

/-- What comes of putting a node in the place of another: the new node stands there between the text
that was around the old one, nothing else has changed, and replacing it forgets it again. -/
structure Replaced (root : Node) (c : Cursor) (new : Node) : Prop where
  found : (Cursor.ofRoot root).descend? c.path = some (.node c)
  here : (c.replaceWith new).get? c.path = some new.toTree
  elsewhere : ∀ path, ¬path <+: c.path → ¬c.path <+: path →
    (c.replaceWith new).get? path = root.get? path
  text : ∃ front back,
    Text.slice? root.text.toList 0 c.fullSpan.start = some front ∧
      Text.slice? root.text.toList c.fullSpan.stop root.text.utf8ByteSize = some back ∧
      (c.replaceWith new).text.toList = front ++ new.text.toList ++ back
  same : c.replaceWith c.node = root
  again : ∃ d, (Cursor.ofRoot (c.replaceWith new)).descend? c.path = some (.node d) ∧
    d.node = new ∧ ∀ other, d.replaceWith other = c.replaceWith other

theorem Place.replaced (p : Place) (old new : Node)
    (h : (p.fill old).text.utf8ByteSize ≤ maxOffset) :
    Replaced (p.fill old) (p.cursor old) new := by
  constructor
  case found => exact p.descend?_path old
  case here =>
    have hget := p.get?_fill new []
    rw [List.append_nil] at hget
    rw [replaceWith_cursor, path_cursor]
    exact hget
  case elsewhere =>
    intro path habove hunder
    rw [path_cursor] at habove hunder
    rw [replaceWith_cursor]
    exact p.get?_fill_elsewhere new old habove hunder
  case text =>
    refine ⟨_, _, p.slice_before old, p.slice_behind old h, ?_⟩
    rw [replaceWith_cursor, text_fill, String.toList_append, String.toList_append]
  case same => exact p.replaceWith_cursor old old
  case again =>
    refine ⟨p.cursor new, ?_, rfl, ?_⟩
    · rw [replaceWith_cursor, path_cursor, ← p.path_cursor new]
      exact p.descend?_path new
    · intro other
      rw [replaceWith_cursor, replaceWith_cursor]

theorem replaced_of_mem_descendants {root : Node} (h : root.text.utf8ByteSize ≤ maxOffset)
    {c : Cursor} (hc : c ∈ (Cursor.ofRoot root).descendants) (new : Node) :
    Replaced root c new := by
  obtain ⟨p, hp, hfill⟩ := stands_of_mem_descendants hc
  subst hfill
  rw [hp]
  exact p.replaced c.node new h

/-- A name between two others, of wide characters like them, replaced by two tokens. -/
theorem replaced_of_middle_name :
    let old := Build.identifierName "é"
    let new : Node := ⟨.block, [Build.fixed .openBraceToken, Build.fixed .closeBraceToken]⟩
    let root : Node := ⟨.compilationUnit, [(Build.identifierName "ü").toTree, Build.space,
      old.toTree, (Build.identifierName "ö").toTree]⟩
    let c : Cursor := ⟨old, 3, [⟨root, 0, 2⟩]⟩
    root.text.utf8ByteSize ≤ maxOffset ∧ c ∈ (Cursor.ofRoot root).descendants ∧
      (c.replaceWith new).text = "ü \x7b\x7dö" ∧ Replaced root c new := by
  intro old new root c
  have h : root.text.utf8ByteSize ≤ maxOffset := by decide +kernel
  have hc : c ∈ (Cursor.ofRoot root).descendants := by decide +kernel
  have htext : (c.replaceWith new).text = "ü \x7b\x7dö" := by decide +kernel
  exact ⟨h, hc, htext, replaced_of_mem_descendants h hc new⟩

end TreeLint
