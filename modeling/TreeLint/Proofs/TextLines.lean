import TreeLint.Proofs.TextInPlace
import TreeLint.Text.LineMap

/-!
# The lines of a text

A line map keeps the offsets at which lines start. What a line is can be said without offsets: it
holds characters that end no line, and it ends with a line feed, with a carriage return and a line
feed, with a carriage return alone, or with nothing if it is the last. The lines put one after the
other are the text, and a line starts behind as many bytes as the lines in front of it take.

So to point at a line is to split the list of lines, and each answer of the map about a line can be
read off from the split. To point into a line is to split what it holds as well. That is where every
cut of a text between two characters falls, the cut inside a carriage return and a line feed alone
excepted.
-/

namespace TreeLint

namespace Text

@[simp] theorem byteLength_nil : byteLength [] = 0 := rfl

@[simp] theorem byteLength_cons (c : Char) (text : List Char) :
    byteLength (c :: text) = c.utf8Size + byteLength text := rfl

@[simp] theorem byteLength_append (front back : List Char) :
    byteLength (front ++ back) = byteLength front + byteLength back := by
  induction front with
  | nil => simp
  | cons c rest ih => rw [List.cons_append, byteLength_cons, byteLength_cons, ih, Nat.add_assoc]

/-! ## Lines -/

/-- What a line ends with. -/
inductive LineEnd where
  | lineFeed
  | carriageReturn
  | both
  | none
  deriving DecidableEq, Repr

def LineEnd.text : LineEnd → List Char
  | .lineFeed => ['\n']
  | .carriageReturn => ['\r']
  | .both => ['\r', '\n']
  | .none => []

/-- A line: what it holds and what it ends with. -/
structure Line where
  content : List Char
  ending : LineEnd
  deriving DecidableEq, Repr

namespace Line

def text (line : Line) : List Char := line.content ++ line.ending.text

/-- The line with one more character in front. -/
def behind (c : Char) (line : Line) : Line := ⟨c :: line.content, line.ending⟩

theorem text_behind (c : Char) (line : Line) : (line.behind c).text = c :: line.text := rfl

end Line

/-- The lines of a text. The last one ends with nothing, and it is empty if the text ends with the
end of a line. -/
def lines : List Char → List Line
  | [] => [⟨[], .none⟩]
  | '\r' :: '\n' :: rest => ⟨[], .both⟩ :: lines rest
  | '\r' :: rest => ⟨[], .carriageReturn⟩ :: lines rest
  | '\n' :: rest => ⟨[], .lineFeed⟩ :: lines rest
  | c :: rest => (lines rest).modifyHead (.behind c)

theorem exists_lines_eq_cons (text : List Char) : ∃ line others, lines text = line :: others := by
  fun_induction lines text with
  | case1 => exact ⟨_, _, rfl⟩
  | case2 rest ih => exact ⟨_, _, rfl⟩
  | case3 rest h ih => exact ⟨_, _, rfl⟩
  | case4 rest ih => exact ⟨_, _, rfl⟩
  | case5 c rest h1 h2 h3 ih =>
      obtain ⟨line, others, hlines⟩ := ih
      rw [hlines]
      exact ⟨_, _, rfl⟩

/-- The lines of a text, put one after the other, are the text. -/
theorem flatMap_text_lines (text : List Char) : (lines text).flatMap Line.text = text := by
  fun_induction lines text with
  | case1 => rfl
  | case2 rest ih => rw [List.flatMap_cons, ih]; rfl
  | case3 rest h ih => rw [List.flatMap_cons, ih]; rfl
  | case4 rest ih => rw [List.flatMap_cons, ih]; rfl
  | case5 c rest h1 h2 h3 ih =>
      obtain ⟨line, others, hlines⟩ := exists_lines_eq_cons rest
      rw [hlines, List.flatMap_cons] at ih
      rw [hlines, List.modifyHead_cons, List.flatMap_cons, Line.text_behind, List.cons_append, ih]

/-- All lines but the last end with something. -/
theorem ending_ne_none (text : List Char) :
    ∀ line ∈ (lines text).dropLast, line.ending ≠ .none := by
  have hcons : ∀ {ended : Line} {rest : List Char}, ended.ending ≠ .none →
      (∀ line ∈ (lines rest).dropLast, line.ending ≠ .none) →
      ∀ line ∈ (ended :: lines rest).dropLast, line.ending ≠ .none := by
    intro ended rest hended hrest
    obtain ⟨first, others, hlines⟩ := exists_lines_eq_cons rest
    rw [hlines] at hrest ⊢
    rw [List.dropLast_cons_cons, List.forall_mem_cons]
    exact ⟨hended, hrest⟩
  fun_induction lines text with
  | case1 => exact fun line hline => by cases hline
  | case2 rest ih => exact hcons (by simp) ih
  | case3 rest hother ih => exact hcons (by simp) ih
  | case4 rest ih => exact hcons (by simp) ih
  | case5 c rest h1 h2 h3 ih =>
      obtain ⟨first, others, hlines⟩ := exists_lines_eq_cons rest
      rw [hlines] at ih ⊢
      rw [List.modifyHead_cons]
      cases others with
      | nil => exact ih
      | cons second others =>
          rw [List.dropLast_cons_cons, List.forall_mem_cons] at ih ⊢
          exact ih

/-- What stands in front of a place in the content of a line is shorter than the line, unless the
line is the last. -/
theorem byteLength_lt_of_ending {text : List Char} {before after : List Line} {line : Line}
    (h : lines text = before ++ line :: after) (hafter : after ≠ []) {held rest : List Char}
    (hcontent : line.content = held ++ rest) : byteLength held < byteLength line.text := by
  have hmem : line ∈ (lines text).dropLast := by
    rw [h, List.dropLast_append_cons, List.dropLast_cons_of_ne_nil hafter]
    exact List.mem_append_right _ List.mem_cons_self
  have hending : 0 < byteLength line.ending.text := by
    have hne := ending_ne_none text line hmem
    cases hkind : line.ending with
    | none => exact absurd hkind hne
    | lineFeed => decide
    | carriageReturn => decide
    | both => decide
  rw [Line.text, hcontent, byteLength_append, byteLength_append]
  omega

/-- No line holds a character that ends lines. -/
theorem plain_content (text : List Char) :
    ∀ line ∈ lines text, ∀ c ∈ line.content, c ≠ '\n' ∧ c ≠ '\r' := by
  have hempty : ∀ ending : LineEnd, ∀ c ∈ (⟨[], ending⟩ : Line).content, c ≠ '\n' ∧ c ≠ '\r' :=
    fun _ c hc => by cases hc
  fun_induction lines text with
  | case1 => exact List.forall_mem_singleton.2 (hempty _)
  | case2 rest ih => exact List.forall_mem_cons.2 ⟨hempty _, ih⟩
  | case3 rest hother ih => exact List.forall_mem_cons.2 ⟨hempty _, ih⟩
  | case4 rest ih => exact List.forall_mem_cons.2 ⟨hempty _, ih⟩
  | case5 c rest h1 h2 h3 ih =>
      obtain ⟨first, others, hlines⟩ := exists_lines_eq_cons rest
      rw [hlines, List.forall_mem_cons] at ih
      rw [hlines, List.modifyHead_cons, List.forall_mem_cons]
      exact ⟨List.forall_mem_cons.2 ⟨⟨h3, h2⟩, ih.1⟩, ih.2⟩

/-! ## Cuts -/

/-- Where a cut of a text falls: in what one of its lines holds. -/
def CutsLine (text front : List Char) : Prop :=
  ∃ before line after held rest, lines text = before ++ line :: after ∧
    line.content = held ++ rest ∧ front = before.flatMap Line.text ++ held

theorem cutsLine_nil (text : List Char) : CutsLine text [] := by
  obtain ⟨line, others, hlines⟩ := exists_lines_eq_cons text
  exact ⟨[], line, others, [], line.content, hlines, rfl, rfl⟩

theorem CutsLine.cons (ended : Line) {text rest front : List Char}
    (hlines : lines text = ended :: lines rest) (h : CutsLine rest front) :
    CutsLine text (ended.text ++ front) := by
  obtain ⟨before, line, after, held, back, hrest, hcontent, rfl⟩ := h
  refine ⟨ended :: before, line, after, held, back, ?_, hcontent, ?_⟩
  · rw [hlines, hrest, List.cons_append]
  · rw [List.flatMap_cons, List.append_assoc]

theorem CutsLine.behind {c : Char} {text rest front : List Char}
    (hlines : lines text = (lines rest).modifyHead (.behind c)) (h : CutsLine rest front) :
    CutsLine text (c :: front) := by
  obtain ⟨before, line, after, held, back, hrest, hcontent, rfl⟩ := h
  rw [hrest] at hlines
  cases before with
  | nil =>
      refine ⟨[], line.behind c, after, c :: held, back, hlines, ?_, rfl⟩
      rw [Line.behind, hcontent, List.cons_append]
  | cons first before =>
      refine ⟨first.behind c :: before, line, after, held, back, hlines, hcontent, ?_⟩
      rw [List.flatMap_cons, List.flatMap_cons, Line.text_behind, List.cons_append,
        List.cons_append]

/-- Between two characters a text is cut inside what a line holds, unless it is cut inside a
carriage return and a line feed that end a line together. -/
theorem cutsLine_of_append {text front back : List Char} (h : text = front ++ back)
    (hcut : ¬(front.getLast? = some '\r' ∧ back.head? = some '\n')) : CutsLine text front := by
  have htail : ∀ {c : Char} {front : List Char},
      ¬((c :: front).getLast? = some '\r' ∧ back.head? = some '\n') →
        ¬(front.getLast? = some '\r' ∧ back.head? = some '\n') := by
    rintro c front hcut ⟨hlast, hhead⟩
    rw [List.getLast?_cons, hlast] at hcut
    exact hcut ⟨rfl, hhead⟩
  -- a cut in front of everything needs no induction, so each case takes the first character off
  fun_induction lines text generalizing front with
  | case1 =>
      obtain ⟨rfl, -⟩ := List.nil_eq_append_iff.1 h
      exact cutsLine_nil []
  | case2 rest ih =>
      match front with
      | [] => exact cutsLine_nil _
      | [c] =>
          rw [List.cons_append, List.nil_append, List.cons.injEq] at h
          obtain ⟨rfl, rfl⟩ := h
          exact absurd ⟨rfl, rfl⟩ hcut
      | c :: d :: front =>
          rw [List.cons_append, List.cons_append, List.cons.injEq, List.cons.injEq] at h
          obtain ⟨rfl, rfl, h⟩ := h
          exact .cons ⟨[], .both⟩ rfl (ih h (htail (htail hcut)))
  | case3 rest hother ih =>
      match front with
      | [] => exact cutsLine_nil _
      | c :: front =>
          rw [List.cons_append, List.cons.injEq] at h
          obtain ⟨rfl, h⟩ := h
          refine .cons ⟨[], .carriageReturn⟩ ?_ (ih h (htail hcut))
          rw [lines]
          exact hother
  | case4 rest ih =>
      match front with
      | [] => exact cutsLine_nil _
      | c :: front =>
          rw [List.cons_append, List.cons.injEq] at h
          obtain ⟨rfl, h⟩ := h
          exact .cons ⟨[], .lineFeed⟩ rfl (ih h (htail hcut))
  | case5 c rest h1 h2 h3 ih =>
      match front with
      | [] => exact cutsLine_nil _
      | d :: front =>
          rw [List.cons_append, List.cons.injEq] at h
          obtain ⟨rfl, h⟩ := h
          refine .behind ?_ (ih h (htail hcut))
          rw [lines]
          · exact h1
          · exact h2
          · exact h3

end Text

namespace LineMap

open Text

/-! ## Where lines start -/

/-- Where lines start that follow one another from an offset on. -/
def startsFrom (offset : Nat) : List Line → List Nat
  | [] => []
  | line :: rest => offset :: startsFrom (offset + byteLength line.text) rest

theorem startsAfter_eq (offset : Nat) (text : List Char) :
    offset :: startsAfter offset text = startsFrom offset (lines text) := by
  fun_induction lines text generalizing offset with
  | case1 => rfl
  | case2 rest ih =>
      rw [startsFrom, ← ih]
      rfl
  | case3 rest h ih =>
      have hhead : rest.head? ≠ some '\n' := by
        intro hhead
        obtain ⟨rest', rfl⟩ := List.head?_eq_some_iff.1 hhead
        exact h rest' rfl
      rw [startsFrom, ← ih, startsAfter, if_neg hhead]
      rfl
  | case4 rest ih =>
      rw [startsFrom, ← ih]
      rfl
  | case5 c rest h1 h2 h3 ih =>
      obtain ⟨line, others, hlines⟩ := exists_lines_eq_cons rest
      have hrest := ih (offset + c.utf8Size)
      rw [hlines, startsFrom] at hrest
      rw [startsAfter, hlines, List.modifyHead_cons, startsFrom, Line.text_behind,
        byteLength_cons, ← Nat.add_assoc, (List.cons.inj hrest).2]
      · exact h3
      · exact h2

theorem startsFrom_append (offset : Nat) (front back : List Line) :
    startsFrom offset (front ++ back) = startsFrom offset front ++
      startsFrom (offset + byteLength (front.flatMap Line.text)) back := by
  induction front generalizing offset with
  | nil => rfl
  | cons line rest ih =>
      rw [List.cons_append, startsFrom, startsFrom, ih, List.flatMap_cons, byteLength_append,
        List.cons_append, Nat.add_assoc]

theorem length_startsFrom (offset : Nat) (lines : List Line) :
    (startsFrom offset lines).length = lines.length := by
  induction lines generalizing offset with
  | nil => rfl
  | cons line rest ih => rw [startsFrom, List.length_cons, List.length_cons, ih]

theorem le_of_mem_startsFrom {offset start : Nat} {lines : List Line}
    (h : start ∈ startsFrom offset lines) :
    start ≤ offset + byteLength (lines.flatMap Line.text) := by
  induction lines generalizing offset with
  | nil => cases h
  | cons line rest ih =>
      rw [List.flatMap_cons, byteLength_append]
      rcases List.mem_cons.1 h with rfl | h
      · exact Nat.le_add_right _ _
      · have hrest := ih h
        omega

/-! ## What the map answers about a line -/

section Line

variable {text : String} {before after : List Line} {line : Line}
  (h : lines text.toList = before ++ line :: after)

include h

theorem toList_eq_of_lines :
    text.toList = before.flatMap Line.text ++ line.text ++ after.flatMap Line.text := by
  rw [← flatMap_text_lines text.toList, h, List.flatMap_append, List.flatMap_cons,
    List.append_assoc]

theorem starts_eq_of_lines : (ofText text).starts = startsFrom 0 before ++
    byteLength (before.flatMap Line.text) ::
      startsFrom (byteLength (before.flatMap Line.text) + byteLength line.text) after := by
  rw [ofText, startsAfter_eq, h, startsFrom_append, Nat.zero_add, startsFrom]

theorem getElem?_starts :
    (ofText text).starts[before.length]? = some (byteLength (before.flatMap Line.text)) := by
  have hlength := length_startsFrom 0 before
  rw [starts_eq_of_lines h, List.getElem?_append_right (Nat.le_of_eq hlength), hlength,
    Nat.sub_self, List.getElem?_cons_zero]

/-- A line ends where the next one starts, or where the text ends. -/
theorem getD_starts_succ : (ofText text).starts.getD (before.length + 1) (byteLength text.toList) =
    byteLength (before.flatMap Line.text) + byteLength line.text := by
  have hlength := length_startsFrom 0 before
  rw [starts_eq_of_lines h, List.getD_eq_getElem?_getD, List.getElem?_append_right (by omega),
    hlength, Nat.add_sub_cancel_left, List.getElem?_cons_succ]
  cases after with
  | nil =>
      rw [toList_eq_of_lines h, List.flatMap_nil, List.append_nil, byteLength_append]
      rfl
  | cons next after => rfl

/-- The text of a line, its terminator included. -/
theorem line?_eq_of_lines : (ofText text).line? before.length = some line.text := by
  have htext : (ofText text).text = text.toList := rfl
  have hslice := slice?_append (before.flatMap Line.text) line.text (after.flatMap Line.text)
  rw [← toList_eq_of_lines h] at hslice
  rw [line?, getElem?_starts h]
  simp only [htext, getD_starts_succ h, hslice, Option.getD_some]

theorem offsetOf?_eq_of_lines (column : Nat) :
    (ofText text).offsetOf? ⟨before.length, column⟩ =
      some (byteLength (before.flatMap Line.text) + bytesTo column line.text) := by
  rw [offsetOf?, getElem?_starts h, line?_eq_of_lines h]

/-- An offset lies on a line if the line starts at or before it and the next one, if there is one,
behind it. -/
theorem lineOf_eq_of_starts {offset : Nat} (hstart : byteLength (before.flatMap Line.text) ≤ offset)
    (hnext : after ≠ [] → offset < byteLength (before.flatMap Line.text) + byteLength line.text) :
    (ofText text).lineOf offset = before.length := by
  have hstarted : ∀ start ∈ startsFrom 0 before, start ≤ offset := by
    intro start hmem
    have hle := le_of_mem_startsFrom hmem
    omega
  have hbehind : (startsFrom (byteLength (before.flatMap Line.text) + byteLength line.text)
      after).takeWhile (· ≤ offset) = [] := by
    cases after with
    | nil => rfl
    | cons next after =>
        rw [startsFrom, List.takeWhile_cons_of_neg]
        simpa using hnext (List.cons_ne_nil next after)
  rw [lineOf, starts_eq_of_lines h, List.takeWhile_append_of_pos (by simpa using hstarted),
    List.takeWhile_cons_of_pos (by simpa using hstart), hbehind, List.length_append,
    length_startsFrom]
  rfl

variable {held rest : List Char} (hcontent : line.content = held ++ rest)

include hcontent

/-- An offset lies on the line whose content it cuts, also at the end of the content. -/
theorem lineOf_eq_of_lines :
    (ofText text).lineOf (byteLength (before.flatMap Line.text) + byteLength held) =
      before.length := by
  refine lineOf_eq_of_starts h (Nat.le_add_right _ _) fun hafter => ?_
  exact Nat.add_lt_add_left (byteLength_lt_of_ending h hafter hcontent) _

theorem positionOf_eq_of_lines :
    (ofText text).positionOf (byteLength (before.flatMap Line.text) + byteLength held) =
      ⟨before.length, unitLength held⟩ := by
  have htext : (ofText text).text = text.toList := rfl
  have hsplit : text.toList = before.flatMap Line.text ++ held ++
      (rest ++ line.ending.text ++ after.flatMap Line.text) := by
    rw [toList_eq_of_lines h, Line.text, hcontent]
    simp only [List.append_assoc]
  have hstop : min (byteLength (before.flatMap Line.text) + byteLength held)
      (byteLength text.toList) = byteLength (before.flatMap Line.text) + byteLength held := by
    rw [hsplit, byteLength_append, byteLength_append]
    omega
  have hstart : (ofText text).starts.getD before.length 0 =
      byteLength (before.flatMap Line.text) := by
    rw [List.getD_eq_getElem?_getD, getElem?_starts h, Option.getD_some]
  have hslice := slice?_append (before.flatMap Line.text) held
    (rest ++ line.ending.text ++ after.flatMap Line.text)
  rw [← hsplit] at hslice
  simp only [positionOf, htext, lineOf_eq_of_lines h hcontent, hstop, hstart,
    Nat.min_eq_left (Nat.le_add_right _ _), hslice, Option.getD_some]

end Line

end LineMap

end TreeLint
