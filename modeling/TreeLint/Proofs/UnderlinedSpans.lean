import Mathlib.Data.Nat.Digits.Defs
import TreeLint.Proofs.ClampedPlaces
import TreeLint.Proofs.ShownRows

/-!
# What is underlined

Under the row of a snippet stands a run of tildes for the span. Three counts decide where it is and
how long it gets, and each takes another unit for a character. The row starts behind a number that
is wider than three digits from line 1000 on, but the run starts behind eight blanks whatever the
number is. The indentation is as many characters as the column has 16-bit units, so a character of
two units in front of the span moves the run to the right, as far as the row goes. And the run has
a tilde for each byte of the span on the line.

So the run starts under the span exactly when the first two differences are the same, and it is as
long as the span exactly when all characters of the span on that line take one byte.
-/

namespace TreeLint

namespace Text

/-! ## Characters, units and bytes -/

/-- How many characters of a text take two 16-bit units. -/
def wide (text : List Char) : Nat := text.countP fun c => 0xFFFF < c.toNat

theorem unitLength_eq (text : List Char) : unitLength text = text.length + wide text := by
  induction text with
  | nil => rfl
  | cons c rest ih =>
      have hunits : unitLength (c :: rest) = unitWidth c + unitLength rest := rfl
      rw [hunits, ih, wide, wide, List.countP_cons, List.length_cons, unitWidth]
      by_cases hwide : c.toNat ≤ 0xFFFF
      · have hnot : ¬ 0xFFFF < c.toNat := Nat.not_lt.2 hwide
        simp only [hwide, hnot, if_true, decide_false, Bool.false_eq_true, if_false]
        omega
      · have hlt : 0xFFFF < c.toNat := Nat.not_le.1 hwide
        simp only [hwide, hlt, if_false, decide_true, if_true]
        omega

theorem wide_eq_zero {text : List Char} (h : ∀ c ∈ text, c.toNat ≤ 0xFFFF) : wide text = 0 := by
  refine List.countP_eq_zero.2 fun c hc => ?_
  simpa using h c hc

theorem length_le_byteLength (text : List Char) : text.length ≤ byteLength text := by
  induction text with
  | nil => exact Nat.le_refl 0
  | cons c rest ih =>
      have hpos := c.utf8Size_pos
      rw [List.length_cons, byteLength_cons]
      omega

theorem utf8Size_eq_one_iff (c : Char) : c.utf8Size = 1 ↔ c.toNat < 128 := by
  rw [Char.utf8Size_eq_one_iff, UInt32.le_iff_toNat_le]
  exact Nat.lt_succ_iff.symm

/-- A text has as many bytes as characters exactly if each of them takes one byte. -/
theorem byteLength_eq_length_iff (text : List Char) :
    byteLength text = text.length ↔ ∀ c ∈ text, c.toNat < 128 := by
  induction text with
  | nil => simp
  | cons c rest ih =>
      have hpos := c.utf8Size_pos
      have hle := length_le_byteLength rest
      rw [byteLength_cons, List.length_cons, List.forall_mem_cons, ← ih, ← utf8Size_eq_one_iff]
      omega

theorem eq_nil_of_byteLength {text : List Char} (h : byteLength text = 0) : text = [] := by
  have hle := length_le_byteLength text
  exact List.eq_nil_of_length_eq_zero (by omega)

/-- Of two fronts of a text, the one with fewer bytes is a front of the other. -/
theorem exists_append_of_byteLength_le {front back front' back' : List Char}
    (h : front ++ back = front' ++ back') (hle : byteLength front ≤ byteLength front') :
    ∃ more, front' = front ++ more ∧ back = more ++ back' := by
  rcases List.append_eq_append_iff.1 h with ⟨more, hfront', hback⟩ | ⟨more, hfront, hback'⟩
  · exact ⟨more, hfront', hback⟩
  · have hmore : more = [] := by
      rw [hfront, byteLength_append] at hle
      exact eq_nil_of_byteLength (by omega)
    subst hmore
    rw [List.append_nil] at hfront
    exact ⟨[], by rw [hfront, List.append_nil], hback'.symm⟩

end Text

open Text

/-- A span holds some characters of a text, so it starts and ends between two characters. -/
structure Span.Holds (s : Span) (text held : List Char) : Prop where
  nonempty : held ≠ []
  split : ∃ front back, text = front ++ held ++ back ∧ s.start = byteLength front ∧
    s.stop = byteLength front + byteLength held

theorem Span.Holds.start_lt_stop {s : Span} {text held : List Char} (h : s.Holds text held) :
    s.start < s.stop := by
  obtain ⟨front, back, -, hstart, hstop⟩ := h.split
  have hpos := List.length_pos_iff.2 h.nonempty
  have hle := length_le_byteLength held
  omega

theorem Span.Holds.isEmpty_eq {s : Span} {text held : List Char} (h : s.Holds text held) :
    s.isEmpty = false := by
  have hlt := h.start_lt_stop
  have hstop : s.stop ≤ s.start + s.length := Nat.min_le_left _ _
  rw [isEmpty, beq_eq_false_iff_ne]
  omega

/-- The content of a line around the part of a span on it: what stands in front of the span, the
characters of the span on the line, and what stands behind them. -/
structure Span.OnLine (s : Span) (lineStart : Nat) (content held front covered back : List Char) :
    Prop where
  content_eq : content = front ++ covered ++ back
  start_eq : s.start = lineStart + byteLength front
  nonempty : covered ≠ []
  /-- The span goes on behind its part on the line only if that goes to the end of the line. -/
  held_eq : ∃ more, held = covered ++ more ∧ (back = [] ∨ more = [])

namespace Reporter

/-! ## The part of a span on a line -/

section Line

variable {text : List Char} {before after : List Line} {line : Line} {s : Span} {held : List Char}
  (h : lines text = before ++ line :: after) (hholds : s.Holds text held)

include h hholds

theorem exists_onLine (hle : byteLength (before.flatMap Line.text) ≤ s.start)
    (hlt : s.start < byteLength (before.flatMap Line.text) + byteLength line.content) :
    ∃ front covered back,
      s.OnLine (byteLength (before.flatMap Line.text)) line.content held front covered back := by
  obtain ⟨inFront, behind, hsplit, hstart, -⟩ := hholds.split
  have htext : before.flatMap Line.text ++ (line.content ++ (line.ending.text ++
      after.flatMap Line.text)) = inFront ++ (held ++ behind) := by
    rw [← List.append_assoc inFront, ← hsplit, ← flatMap_text_lines text, h, List.flatMap_append,
      List.flatMap_cons, Line.text]
    simp only [List.append_assoc]
  obtain ⟨front, rfl, hline⟩ := exists_append_of_byteLength_le htext (hstart ▸ hle)
  rw [byteLength_append] at hstart
  obtain ⟨rest, hcontent, hheld⟩ :=
    exists_append_of_byteLength_le hline.symm (show byteLength front ≤ byteLength line.content by
      omega)
  have hrest : rest ≠ [] := by
    rintro rfl
    rw [hcontent, List.append_nil] at hlt
    omega
  rcases List.append_eq_append_iff.1 hheld with ⟨back, rfl, -⟩ | ⟨more, rfl, -⟩
  · exact ⟨front, held, back, by rw [hcontent, List.append_assoc], hstart, hholds.nonempty, [],
      (List.append_nil held).symm, .inr rfl⟩
  · exact ⟨front, rest, [], by rw [hcontent, List.append_nil], hstart, hrest, more, rfl, .inl rfl⟩

end Line

/-- As far as the row goes, a span has the bytes of its part on the line. -/
theorem stop_sub_start {s : Span} {text held content front covered back : List Char}
    {lineStart : Nat} (hholds : s.Holds text held)
    (hline : s.OnLine lineStart content held front covered back) :
    min s.stop (lineStart + byteLength content) - s.start = byteLength covered := by
  obtain ⟨inFront, behind, -, hstart, hstop⟩ := hholds.split
  obtain ⟨more, hheld, hends⟩ := hline.held_eq
  have hs := hline.start_eq
  rw [hheld, byteLength_append] at hstop
  rw [hline.content_eq, byteLength_append, byteLength_append]
  rcases hends with rfl | rfl
  · rw [byteLength_nil]
    omega
  · rw [byteLength_nil] at hstop
    omega

/-- So that many characters are underlined, and no arithmetic stops. -/
theorem underlined?_of_onLine (r : Reporter) {s : Span}
    {text held content front covered back : List Char} {lineStart : Nat}
    (hholds : s.Holds text held)
    (hline : s.OnLine lineStart content held front covered back) (place : Position) :
    r.underlined? s ⟨place, lineStart, content⟩ = some (byteLength covered) := by
  have hlength := stop_sub_start hholds hline
  have hpos := List.length_pos_iff.2 hline.nonempty
  have hbytes := length_le_byteLength covered
  have hle : s.start ≤ min s.stop (lineStart + byteLength content) := by omega
  rw [underlined?, Excerpt.stop, Arithmetic.minus?_of_le hle, hlength, Option.map_some,
    Nat.max_eq_left (by omega)]

/-! ## The two rows of a snippet -/

/-- What stands in front of a row: the number of its line between blanks. -/
def gutter (number : Nat) : List Char :=
  ' ' :: ' ' :: ((padNumber number).toList ++ [' ', ' ', ' '])

theorem length_padNumber (n : Nat) : (padNumber n).toList.length = max 3 (toString n).length := by
  rw [padNumber, String.toList_append, List.length_append, String.toList_ofList,
    List.length_replicate, String.length_toList]
  omega

theorem length_gutter (number : Nat) :
    (gutter number).length = 5 + max 3 (toString number).length := by
  rw [gutter, List.length_cons, List.length_cons, List.length_append, length_padNumber]
  simp only [List.length_cons, List.length_nil]
  omega

/-- Blanks in front of a mark, with the tabs of a row kept. -/
def indentation (column : Nat) (row : List Char) : List Char :=
  List.replicate 8 ' ' ++ (row.take column).map fun c => if c = '\t' then '\t' else ' '

theorem length_indentation (column : Nat) (row : List Char) :
    (indentation column row).length = 8 + min column row.length := by
  rw [indentation, List.length_append, List.length_replicate, List.length_map, List.length_take]

theorem blank_of_mem_indentation {column : Nat} {row : List Char} :
    ∀ c ∈ indentation column row, c = ' ' ∨ c = '\t' := by
  intro c hc
  rcases List.mem_append.1 hc with hc | hc
  · exact .inl (List.eq_of_mem_replicate hc)
  · obtain ⟨d, -, rfl⟩ := List.mem_map.1 hc
    split
    · exact .inr rfl
    · exact .inl rfl

/-- A snippet that shows the content of a line around a span, and tildes below. -/
structure Marks (shown : String) (number : Nat) (front covered back indent : List Char)
    (count : Nat) : Prop where
  rows : shown = "\n" ++ String.ofList (gutter number ++ (front ++ covered ++ back)) ++ "\n" ++
    String.ofList (indent ++ List.replicate count '~')
  blank : ∀ c ∈ indent, c = ' ' ∨ c = '\t'
  /-- The tildes start in the column of the span exactly if the digits of the number past the third
  make up for the wide characters in front of the span. -/
  start_iff : indent.length = (gutter number).length + front.length ↔
    (toString number).length - 3 = min (wide front) (covered ++ back).length
  /-- So they do under each of the first 999 lines if no wide character is in front of the span. -/
  start_of_narrow : number < 1000 → (∀ c ∈ front, c.toNat ≤ 0xFFFF) →
    indent.length = (gutter number).length + front.length
  count_eq : count = byteLength covered
  /-- There is one for each character of the span exactly if all of these take one byte. -/
  count_iff : count = covered.length ↔ ∀ c ∈ covered, c.toNat < 128

theorem marks_indentation {shown : String} {number : Nat} {front covered back : List Char}
    (hshown : shown = "\n" ++ String.ofList (gutter number ++ (front ++ covered ++ back)) ++ "\n" ++
      String.ofList (indentation (unitLength front) (front ++ covered ++ back) ++
        List.replicate (byteLength covered) '~')) :
    Marks shown number front covered back
      (indentation (unitLength front) (front ++ covered ++ back)) (byteLength covered) := by
  have hstart : (indentation (unitLength front) (front ++ covered ++ back)).length =
      (gutter number).length + front.length ↔
        (toString number).length - 3 = min (wide front) (covered ++ back).length := by
    rw [length_indentation, length_gutter, unitLength_eq]
    simp only [List.length_append]
    omega
  refine ⟨hshown, blank_of_mem_indentation, hstart, fun hnumber hnarrow => ?_, rfl,
    byteLength_eq_length_iff covered⟩
  have hdigits : (toString number).length ≤ 3 := Nat.repr_length number 3 (by decide) hnumber
  rw [hstart, wide_eq_zero hnarrow]
  omega

/-- Below the line that a span starts on there are tildes for the span. Which column they start in
and how many there are depends on the number of the line, on the units of the characters in front
of the span and on the bytes of its own. -/
theorem marks_of_holds {r : Reporter} {d : Diagnostic} {text : String} {held : List Char}
    {before after : List Line} {line : Line} (hcolours : r.colours = false)
    (hsource : r.source? d.location.file = some (LineMap.ofText text))
    (hreturns : ∀ l ∈ lines text.toList, l.ending ≠ .carriageReturn)
    (hholds : d.location.span.Holds text.toList held)
    (h : lines text.toList = before ++ line :: after)
    (hle : byteLength (before.flatMap Line.text) ≤ d.location.span.start)
    (hlt : d.location.span.start <
      byteLength (before.flatMap Line.text) + byteLength line.content) :
    ∃ front covered back indent count shown,
      d.location.span.OnLine (byteLength (before.flatMap Line.text)) line.content held
        front covered back ∧
      r.snippet? d = some shown ∧
      Marks shown (before.length + 1) front covered back indent count := by
  obtain ⟨front, covered, back, hline⟩ := exists_onLine h hholds hle hlt
  have hfed : ∀ l ∈ before ++ [line], l.ending ≠ .carriageReturn := by
    intro l hl
    refine hreturns l ?_
    rw [h, List.append_cons]
    exact List.mem_append_left _ hl
  have hnext : d.location.span.start <
      byteLength (before.flatMap Line.text) + byteLength line.text := by
    rw [Line.text, byteLength_append]
    omega
  have hnonempty : line.text ≠ [] := by
    rw [Line.text, hline.content_eq]
    simp [hline.nonempty]
  have hsome := isSome_shownLines_of_fed h
    (fun l hl => hfed l (List.mem_append_left _ hl)) hnonempty
  obtain ⟨row, hrow⟩ := Option.isSome_iff_exists.1 hsome
  have hcontent : row = line.content := (rowUnderNumber h hrow).of_fed hfed
  have hposition := LineMap.positionOf_eq_of_lines h
    (hline.content_eq.trans (List.append_assoc front covered back))
  have hexcerpt : r.excerpt? d = some ⟨⟨before.length, unitLength front⟩,
      byteLength (before.flatMap Line.text), line.content⟩ := by
    rw [excerpt?_eq hsource hholds.isEmpty_eq h hle hnext, hrow, Option.map_some, hline.start_eq,
      hposition, hcontent]
  have hcount := underlined?_of_onLine r hholds hline
    ⟨before.length, unitLength front⟩
  refine ⟨front, covered, back, _, _, _, hline,
    snippet?_eq_some_iff.2 ⟨_, _, hexcerpt, hcount, rfl⟩, marks_indentation ?_⟩
  refine String.toList_injective ?_
  simp [mark, paint, hcolours, gutter, indentation, hline.content_eq]

/-- The span goes on behind its line, which starts with a tab. -/
theorem marks_of_holds_behind_tab :
    let r : Reporter := addSource { colours := false } "f" "a\r\n\tbé\nc"
    let d : Diagnostic := ⟨"IR001", "T", "msg.", .warning, ⟨"f", ⟨4, 4⟩⟩⟩
    ∃ front covered back indent count shown,
      d.location.span.OnLine 3 ['\t', 'b', 'é'] ['b', 'é', '\n'] front covered back ∧
      r.snippet? d = some shown ∧ Marks shown 2 front covered back indent count :=
  have hlines : lines "a\r\n\tbé\nc".toList =
      [⟨['a'], .both⟩] ++ ⟨['\t', 'b', 'é'], .lineFeed⟩ :: [⟨['c'], .none⟩] := by decide
  have hholds : Span.Holds ⟨4, 4⟩ "a\r\n\tbé\nc".toList ['b', 'é', '\n'] :=
    ⟨by decide, ['a', '\r', '\n', '\t'], ['c'], by decide, by decide, by decide⟩
  marks_of_holds rfl rfl (by decide) hholds hlines (by decide) (by decide)

/-- The character in front of the span takes two units, and the one in the span two bytes: the
tildes start one column behind the span and are two for one character. -/
theorem marks_apart_behind_wide :
    let r : Reporter := addSource { colours := false } "f" "𝒳é"
    let d : Diagnostic := ⟨"IR001", "T", "msg.", .warning, ⟨"f", ⟨4, 2⟩⟩⟩
    lines "𝒳é".toList = [⟨['𝒳', 'é'], .none⟩] ∧
      d.location.span.Holds "𝒳é".toList ['é'] ∧
      r.snippet? d = some ("\n" ++ String.ofList (gutter 1 ++ ['𝒳'] ++ ['é']) ++ "\n" ++
        String.ofList (List.replicate 10 ' ' ++ List.replicate 2 '~')) ∧
      (List.replicate 10 ' ').length = (gutter 1 ++ ['𝒳']).length + 1 ∧
      (List.replicate 2 '~').length = ['é'].length + 1 :=
  ⟨by decide, ⟨by decide, ['𝒳'], [], by decide, by decide, by decide⟩, by decide, by decide,
    by decide⟩

end Reporter

end TreeLint
