import TreeLint.Proofs.Place
import TreeLint.Text.Units

/-!
# The text of a tree, in bytes

A width is the number of bytes of a text, and an offset is the number of bytes in front of a place.
So the text of a whole tree can be cut at the offsets of anything that stands in it: what is in
front of the place, what stands there and what is behind it are three texts, and a cut never falls
inside a character.
-/

namespace TreeLint

/-! ## Cutting between two texts -/

namespace Text

theorem utf8ByteSize_ofList (text : List Char) :
    (String.ofList text).utf8ByteSize = byteLength text := by
  induction text with
  | nil => rfl
  | cons c rest ih =>
      rw [String.ofList_cons, String.utf8ByteSize_append, String.utf8ByteSize_singleton, ih]
      rfl

theorem byteLength_toList (s : String) : byteLength s.toList = s.utf8ByteSize := by
  rw [← utf8ByteSize_ofList, String.ofList_toList]

theorem dropBytes?_cons (c : Char) (rest : List Char) (n : Nat) :
    dropBytes? (c :: rest) (c.utf8Size + n) = dropBytes? rest n := by
  obtain ⟨size, hsize⟩ : ∃ size, c.utf8Size = size + 1 :=
    ⟨c.utf8Size - 1, by have hpos := c.utf8Size_pos; omega⟩
  have hsum : c.utf8Size + n = size + n + 1 := by omega
  rw [hsum, dropBytes?, if_pos (by omega), ← hsum, Nat.add_sub_cancel_left]

theorem takeBytes?_cons (c : Char) (rest : List Char) (n : Nat) :
    takeBytes? (c :: rest) (c.utf8Size + n) = (takeBytes? rest n).map (c :: ·) := by
  obtain ⟨size, hsize⟩ : ∃ size, c.utf8Size = size + 1 :=
    ⟨c.utf8Size - 1, by have hpos := c.utf8Size_pos; omega⟩
  have hsum : c.utf8Size + n = size + n + 1 := by omega
  rw [hsum, takeBytes?, if_pos (by omega), ← hsum, Nat.add_sub_cancel_left]
  cases takeBytes? rest n <;> rfl

theorem dropBytes?_append (front back : List Char) :
    dropBytes? (front ++ back) (byteLength front) = some back := by
  induction front with
  | nil => rw [byteLength, List.foldr_nil, dropBytes?, List.nil_append]
  | cons c rest ih => exact (dropBytes?_cons c (rest ++ back) (byteLength rest)).trans ih

theorem takeBytes?_append (front back : List Char) :
    takeBytes? (front ++ back) (byteLength front) = some front := by
  induction front with
  | nil => rw [byteLength, List.foldr_nil, takeBytes?]
  | cons c rest ih =>
      refine (takeBytes?_cons c (rest ++ back) (byteLength rest)).trans ?_
      rw [ih, Option.map_some]

theorem slice?_append (front middle back : List Char) :
    slice? (front ++ middle ++ back) (byteLength front) (byteLength front + byteLength middle) =
      some middle := by
  rw [slice?, if_pos (Nat.le_add_right _ _), List.append_assoc, dropBytes?_append,
    Nat.add_sub_cancel_left]
  exact takeBytes?_append middle back

end Text

/-! ## Widths -/

namespace Tree

theorem textAll_append (front back : List Tree) :
    textAll (front ++ back) = textAll front ++ textAll back := by
  induction front with
  | nil => rw [List.nil_append, textAll, String.empty_append]
  | cons t rest ih => rw [List.cons_append, textAll, textAll, ih, String.append_assoc]

/-- A width counts the bytes of a text. -/
theorem widthAll_eq (trees : List Tree) : widthAll trees = (textAll trees).utf8ByteSize := by
  match trees with
  | [] => rfl
  | .token t :: rest =>
      rw [widthAll, textAll, String.utf8ByteSize_append, widthAll_eq rest]
      rfl
  | .node k children :: rest =>
      rw [widthAll, textAll, String.utf8ByteSize_append, widthAll_eq rest, width, text,
        widthAll_eq children]

end Tree

theorem Node.width_eq (n : Node) : n.width = n.text.utf8ByteSize := Tree.widthAll_eq n.children

/-! ## Around a place -/

namespace Place

/-- The text in front of a place. -/
def textBefore : Place → String
  | [] => ""
  | g :: outer => textBefore outer ++ Tree.textAll g.before

/-- The text behind a place. -/
def textBehind : Place → String
  | [] => ""
  | g :: outer => Tree.textAll g.behind ++ textBehind outer

theorem text_fill (p : Place) (n : Node) :
    (p.fill n).text = p.textBefore ++ n.text ++ p.textBehind := by
  induction p generalizing n with
  | nil => rw [fill, textBefore, textBehind, String.empty_append, String.append_empty]
  | cons g outer ih =>
      have hgap : (g.fill n).text = Tree.textAll g.before ++ (n.text ++ Tree.textAll g.behind) :=
        Tree.textAll_append g.before (n.toTree :: g.behind)
      rw [fill, ih, hgap, textBefore, textBehind]
      simp only [String.append_assoc]

theorem start_eq (p : Place) : p.start = p.textBefore.utf8ByteSize := by
  induction p with
  | nil => rfl
  | cons g outer ih =>
      rw [start, ih, textBefore, String.utf8ByteSize_append, Tree.widthAll_eq]

/-- A node ends where the whole text does, or in front of that. -/
theorem start_add_width_le (p : Place) (n : Node) :
    p.start + n.width ≤ (p.fill n).text.utf8ByteSize := by
  rw [text_fill, start_eq, n.width_eq, String.utf8ByteSize_append, String.utf8ByteSize_append]
  omega

/-- The end of a node is not cut off if the whole text is not too long for offsets. -/
theorem stop_eq (p : Place) (n : Node) (h : (p.fill n).text.utf8ByteSize ≤ maxOffset) :
    (p.cursor n).fullSpan.stop = p.start + n.width :=
  Nat.min_eq_left (Nat.le_trans (p.start_add_width_le n) h)

end Place

end TreeLint
