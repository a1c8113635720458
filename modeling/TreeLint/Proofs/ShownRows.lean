import Mathlib.Data.List.Count
import TreeLint.Proofs.TextLines
import TreeLint.Report

/-!
# The row that a snippet shows

A snippet prints the number of the line that a span starts on and a row of the source. The number
comes from the line map, the row from a list of rows that end at line feeds alone. A carriage return
in front of the line feed is not shown, but one without a line feed is part of the row: the line
that it ends runs on into the next one. From there on there are fewer rows than lines, and the row
that is found under the number of a line is one further behind.

So the row is the line as long as no carriage return alone ends the line or one in front of it. A
line that ends with one is shown with more behind it, and behind such a line nothing is in its
place.

The span is underlined as far as it goes on the row. A span that starts behind the row has no such
length, and with checked arithmetic the program stops there. On the line itself just the line feed
of a pair is behind the row; a row from further behind may end anywhere.
-/

namespace TreeLint

open Text

namespace Arithmetic

variable {a : Arithmetic} {m n : Nat}

theorem minus?_of_le (h : n ≤ m) : a.minus? m n = some (m - n) := if_pos h

/-- Only checked arithmetic stops, and only below zero. -/
theorem minus?_eq_none_iff : a.minus? m n = none ↔ a = .checked ∧ m < n := by
  unfold minus?
  split
  · next hle => simp [hle]
  · next hlt => cases a <;> simp [Nat.lt_of_not_le hlt]

end Arithmetic

namespace Reporter

/-! ## Rows -/

/-- Rows with a text in front of the first. -/
def inFront (front : List Char) : List (List Char) → List (List Char)
  | [] => [front]
  | row :: rows => (front ++ row) :: rows

/-- The rows in which lines are shown. A line that a carriage return ends alone runs on. -/
def rowsOf : List Line → List (List Char)
  | [] => []
  | line :: rest =>
    match line.ending with
    | .lineFeed | .both => line.content :: rowsOf rest
    | .carriageReturn => inFront line.text (rowsOf rest)
    | .none => if line.content.isEmpty then [] else [line.content]

theorem shownLines_eq_cons {text part : List Char} {others : List (List Char)}
    (h : Text.splitAt '\n' text = part :: others) (hothers : others ≠ []) :
    shownLines text = dropReturn part :: (others.dropLast.map dropReturn ++
      others.getLast?.toList.filter fun last => !last.isEmpty) := by
  obtain ⟨next, rest, rfl⟩ := List.exists_cons_of_ne_nil hothers
  rw [shownLines, h]
  rfl

theorem shownLines_lineFeed (rest : List Char) :
    shownLines ('\n' :: rest) = [] :: shownLines rest := by
  have hsplit : Text.splitAt '\n' ('\n' :: rest) = [] :: Text.splitAt '\n' rest := rfl
  rw [shownLines_eq_cons hsplit (splitAt_ne_nil '\n' rest)]
  rfl

theorem shownLines_both (rest : List Char) :
    shownLines ('\r' :: '\n' :: rest) = [] :: shownLines rest := by
  have hsplit : Text.splitAt '\n' ('\r' :: '\n' :: rest) = ['\r'] :: Text.splitAt '\n' rest := rfl
  rw [shownLines_eq_cons hsplit (splitAt_ne_nil '\n' rest)]
  rfl

theorem dropReturn_cons {c : Char} {part : List Char} (h : part = [] → c ≠ '\r') :
    dropReturn (c :: part) = c :: dropReturn part := by
  cases part with
  | nil =>
      have hc : [c].getLast? ≠ some '\r' := fun heq => h rfl (Option.some.inj heq)
      rw [dropReturn, if_neg hc]
      rfl
  | cons d part =>
      rw [dropReturn, dropReturn, List.getLast?_cons_cons, List.dropLast_cons_cons]
      split <;> rfl

/-- A character that ends no row stands in front of the first one. -/
theorem shownLines_cons {c : Char} {rest : List Char} (hc : c ≠ '\n')
    (hpair : c = '\r' → rest.head? ≠ some '\n') :
    shownLines (c :: rest) = inFront [c] (shownLines rest) := by
  obtain ⟨part, others, hsplit⟩ := List.exists_cons_of_ne_nil (splitAt_ne_nil '\n' rest)
  have hsplit' : Text.splitAt '\n' (c :: rest) = (c :: part) :: others := by
    rw [Text.splitAt, if_neg hc, hsplit]
  cases others with
  | nil =>
      rw [shownLines, shownLines, hsplit, hsplit']
      cases part <;> rfl
  | cons next others =>
      have hpart : part = [] → c ≠ '\r' := by
        rintro rfl heq
        exact hpair heq (head?_of_splitAt hsplit)
      rw [shownLines_eq_cons hsplit (List.cons_ne_nil _ _),
        shownLines_eq_cons hsplit' (List.cons_ne_nil _ _), dropReturn_cons hpart]
      rfl

theorem rowsOf_modifyHead (c : Char) (line : Line) (rest : List Line) :
    rowsOf ((line :: rest).modifyHead (.behind c)) = inFront [c] (rowsOf (line :: rest)) := by
  obtain ⟨content, ending⟩ := line
  cases ending with
  | lineFeed | both => rfl
  | carriageReturn =>
      simp only [List.modifyHead_cons, Line.behind, rowsOf]
      cases rowsOf rest <;> rfl
  | none => cases content <;> rfl

/-- What is shown of a text are the rows of its lines. -/
theorem shownLines_eq (text : List Char) : shownLines text = rowsOf (lines text) := by
  fun_induction lines text with
  | case1 => rfl
  | case2 rest ih => rw [shownLines_both, ih]; rfl
  | case3 rest hother ih =>
      rw [shownLines_cons (by decide), ih]
      · rfl
      · intro _ hhead
        obtain ⟨rest', rfl⟩ := List.head?_eq_some_iff.1 hhead
        exact hother rest' rfl
  | case4 rest ih => rw [shownLines_lineFeed, ih]; rfl
  | case5 c rest h1 h2 h3 ih =>
      obtain ⟨line, others, hlines⟩ := exists_lines_eq_cons rest
      rw [shownLines_cons h3 fun heq => absurd heq h2, ih, hlines, rowsOf_modifyHead]

/-! ## The row under a number -/

/-- Lines that line feeds end are a row each. -/
theorem rowsOf_append {front : List Line}
    (hfront : ∀ l ∈ front, l.ending ≠ .none ∧ l.ending ≠ .carriageReturn) (back : List Line) :
    rowsOf (front ++ back) = front.map (·.content) ++ rowsOf back := by
  induction front with
  | nil => rfl
  | cons line rest ih =>
      rw [List.forall_mem_cons] at hfront
      rw [List.cons_append, rowsOf, ih hfront.2]
      cases hending : line.ending with
      | lineFeed | both => rfl
      | carriageReturn => exact absurd hending hfront.1.2
      | none => exact absurd hending hfront.1.1

theorem getElem?_inFront (front : List Char) (rows : List (List Char)) {k : Nat} (hk : 0 < k) :
    (inFront front rows)[k]? = rows[k]? := by
  obtain ⟨k, rfl⟩ := Nat.exists_eq_succ_of_ne_zero (Nat.ne_of_gt hk)
  cases rows <;> rfl

/-- Lines have as many rows as line feeds end some of them, and the row behind these may start on
one of them, but no later row does. -/
theorem getElem?_rowsOf_append {front : List Line} (hends : ∀ l ∈ front, l.ending ≠ .none)
    (back : List Line) {k : Nat} (hk : front.countP (·.ending ≠ .carriageReturn) < k) :
    (rowsOf (front ++ back))[k]? =
      (rowsOf back)[k - front.countP (·.ending ≠ .carriageReturn)]? := by
  induction front generalizing k with
  | nil => rfl
  | cons line rest ih =>
      rw [List.forall_mem_cons] at hends
      rw [List.countP_cons] at hk ⊢
      rw [List.cons_append, rowsOf]
      cases hending : line.ending with
      | lineFeed | both =>
          simp only [hending, ne_eq, reduceCtorEq, not_false_eq_true, decide_true, if_true] at hk ⊢
          obtain ⟨k, rfl⟩ := Nat.exists_eq_succ_of_ne_zero (Nat.ne_of_gt (Nat.zero_lt_of_lt hk))
          rw [List.getElem?_cons_succ, ih hends.2 (Nat.lt_of_succ_lt_succ hk), Nat.succ_sub_succ]
      | carriageReturn =>
          simp only [hending, ne_eq, not_true_eq_false, decide_false, Bool.false_eq_true, if_false,
            Nat.add_zero] at hk ⊢
          rw [getElem?_inFront _ _ (Nat.zero_lt_of_lt hk), ih hends.2 hk]
      | none => exact absurd hending hends.1

/-- The first row starts where the first line does. -/
theorem prefix_of_rowsOf {all : List Line} {row : List Char} {rows : List (List Char)}
    (h : rowsOf all = row :: rows) : row <+: all.flatMap Line.text := by
  induction all generalizing row rows with
  | nil => cases h
  | cons line rest ih =>
      have hcontent : line.content <+: (line :: rest).flatMap Line.text := by
        rw [List.flatMap_cons, Line.text, List.append_assoc]
        exact List.prefix_append _ _
      rw [rowsOf] at h
      cases hending : line.ending with
      | lineFeed | both =>
          rw [hending] at h
          obtain ⟨rfl, -⟩ := List.cons.inj h
          exact hcontent
      | carriageReturn =>
          rw [hending] at h
          rw [List.flatMap_cons]
          cases hrows : rowsOf rest with
          | nil =>
              rw [hrows] at h
              obtain ⟨rfl, -⟩ := List.cons.inj h
              exact List.prefix_append _ _
          | cons next others =>
              rw [hrows] at h
              obtain ⟨rfl, -⟩ := List.cons.inj h
              exact (List.prefix_append_right_inj _).2 (ih hrows)
      | none =>
          rw [hending] at h
          simp only [] at h
          split at h
          · cases h
          · obtain ⟨rfl, -⟩ := List.cons.inj h
            exact hcontent

theorem tail_rowsOf_subset (line : Line) (rest : List Line) :
    (rowsOf (line :: rest)).tail ⊆ rowsOf rest := by
  rw [rowsOf]
  cases line.ending with
  | lineFeed | both => exact List.Subset.refl _
  | carriageReturn =>
      cases rowsOf rest with
      | nil => exact List.Subset.refl _
      | cons row rows => exact List.subset_cons_self row rows
  | none => cases line.content <;> exact List.nil_subset _

/-- A row is a piece of the text of its lines. -/
theorem infix_of_mem_rowsOf {all : List Line} {row : List Char} (h : row ∈ rowsOf all) :
    row <:+: all.flatMap Line.text := by
  induction all with
  | nil => cases h
  | cons line rest ih =>
      have htail := tail_rowsOf_subset line rest
      cases hrows : rowsOf (line :: rest) with
      | nil =>
          rw [hrows] at h
          cases h
      | cons first others =>
          rw [hrows] at h htail
          rcases List.mem_cons.1 h with rfl | hmem
          · exact (prefix_of_rowsOf hrows).isInfix
          · rw [List.flatMap_cons]
            exact (ih (htail hmem)).trans (List.suffix_append _ _).isInfix

theorem dropReturn_subset (line : List Char) : dropReturn line ⊆ line := by
  rw [dropReturn]
  split
  · exact List.dropLast_subset line
  · exact List.Subset.refl line

/-- What is shown as one row is one row. -/
theorem lineFeed_not_mem_shownLines {text row : List Char} (h : row ∈ shownLines text) :
    '\n' ∉ row := by
  rw [shownLines, List.mem_append] at h
  rcases h with hmem | hmem
  · obtain ⟨part, hpart, rfl⟩ := List.mem_map.1 hmem
    have hfree := not_mem_of_mem_splitAt (List.dropLast_subset _ hpart)
    exact fun hfeed => hfree (dropReturn_subset part hfeed)
  · have hlast := Option.mem_toList.1 (List.mem_filter.1 hmem).1
    exact not_mem_of_mem_splitAt (List.mem_of_getLast? hlast)

/-- What the row under the number of a line is to the line. -/
structure RowUnderNumber (before : List Line) (line : Line) (after : List Line) (row : List Char) :
    Prop where
  /-- It is the line if no carriage return alone ends that or a line in front of it. -/
  of_fed : (∀ l ∈ before ++ [line], l.ending ≠ .carriageReturn) → row = line.content
  /-- It runs on behind the line if a carriage return alone ends just that. -/
  of_returned : (∀ l ∈ before, l.ending ≠ .carriageReturn) → line.ending = .carriageReturn →
    line.text <+: row
  /-- It is from behind the line if a carriage return alone ends a line in front of it. -/
  of_behind : (∃ l ∈ before, l.ending = .carriageReturn) → row <:+: after.flatMap Line.text

section Line

variable {text : List Char} {before after : List Line} {line : Line}
  (h : lines text = before ++ line :: after)

include h

theorem ending_ne_none_of_lines : ∀ l ∈ before, l.ending ≠ .none := by
  intro l hl
  refine ending_ne_none text l ?_
  rw [h, List.dropLast_append_cons]
  exact List.mem_append_left _ hl

/-- Behind lines that line feeds end, the row under the number of a line is the first that the rest
of the lines are shown in. -/
theorem getElem?_shownLines_of_fed (hreturns : ∀ l ∈ before, l.ending ≠ .carriageReturn) :
    (shownLines text)[before.length]? = (rowsOf (line :: after))[0]? := by
  have hends := ending_ne_none_of_lines h
  have hlength : (before.map (·.content)).length = before.length := List.length_map _
  rw [shownLines_eq, h, rowsOf_append fun l hl => ⟨hends l hl, hreturns l hl⟩,
    List.getElem?_append_right (Nat.le_of_eq hlength), hlength, Nat.sub_self]

/-- Behind a line that a carriage return ends alone, no row is under the number of its line. -/
theorem infix_of_behind {row : List Char} (hrow : (shownLines text)[before.length]? = some row)
    (hreturn : ∃ l ∈ before, l.ending = .carriageReturn) : row <:+: after.flatMap Line.text := by
  have hfewer : before.countP (·.ending ≠ .carriageReturn) < before.length := by
    rw [List.countP_lt_length_iff]
    obtain ⟨l, hmem, hending⟩ := hreturn
    exact ⟨l, hmem, by simp [hending]⟩
  rw [shownLines_eq, h, getElem?_rowsOf_append (ending_ne_none_of_lines h) _ hfewer] at hrow
  obtain ⟨k, hk⟩ := Nat.exists_eq_succ_of_ne_zero (Nat.sub_ne_zero_of_lt hfewer)
  rw [hk, Nat.succ_eq_add_one, ← List.getElem?_tail] at hrow
  exact infix_of_mem_rowsOf (tail_rowsOf_subset line after (List.mem_of_getElem? hrow))

theorem rowUnderNumber {row : List Char} (hrow : (shownLines text)[before.length]? = some row) :
    RowUnderNumber before line after row := by
  refine ⟨fun hreturns => ?_, fun hreturns hreturn => ?_, infix_of_behind h hrow⟩
  · rw [List.forall_mem_append, List.forall_mem_singleton] at hreturns
    rw [getElem?_shownLines_of_fed h hreturns.1, rowsOf] at hrow
    cases hending : line.ending with
    | lineFeed | both =>
        rw [hending] at hrow
        exact (Option.some.inj hrow).symm
    | carriageReturn => exact absurd hending hreturns.2
    | none =>
        simp only [hending] at hrow
        split at hrow
        · cases hrow
        · exact (Option.some.inj hrow).symm
  · rw [getElem?_shownLines_of_fed h hreturns, rowsOf, hreturn] at hrow
    cases hrows : rowsOf after with
    | nil =>
        rw [hrows] at hrow
        exact Option.some.inj hrow ▸ List.prefix_refl _
    | cons next others =>
        rw [hrows] at hrow
        exact Option.some.inj hrow ▸ List.prefix_append _ _

/-- There is a row for a line that is not the empty one at the end, unless a carriage return alone
ends a line in front of it. -/
theorem isSome_shownLines_of_fed (hreturns : ∀ l ∈ before, l.ending ≠ .carriageReturn)
    (hline : line.text ≠ []) : ((shownLines text)[before.length]?).isSome := by
  rw [getElem?_shownLines_of_fed h hreturns, rowsOf]
  cases hending : line.ending with
  | lineFeed | both => rfl
  | carriageReturn => cases hrows : rowsOf after <;> rfl
  | none =>
      have hcontent : line.content ≠ [] := by
        rwa [Line.text, hending, LineEnd.text, List.append_nil] at hline
      rw [← List.isEmpty_eq_false_iff] at hcontent
      simp [hcontent]

/-- What is in front of the end of a line is not behind its row, but for the line feed of a pair. -/
theorem le_byteLength_of_fed {row : List Char} {length : Nat}
    (hrow : (shownLines text)[before.length]? = some row)
    (hreturns : ∀ l ∈ before, l.ending ≠ .carriageReturn) (hnext : length < byteLength line.text)
    (hpair : line.ending = .both → length ≤ byteLength line.content) :
    length ≤ byteLength row := by
  have hunder := rowUnderNumber h hrow
  rw [Line.text, byteLength_append] at hnext
  by_cases hreturn : line.ending = .carriageReturn
  · obtain ⟨more, rfl⟩ := hunder.of_returned hreturns hreturn
    rw [byteLength_append, Line.text, byteLength_append]
    omega
  · have hfed : ∀ l ∈ before ++ [line], l.ending ≠ .carriageReturn :=
      List.forall_mem_append.2 ⟨hreturns, List.forall_mem_singleton.2 hreturn⟩
    rw [hunder.of_fed hfed]
    cases hending : line.ending with
    | both => exact hpair hending
    | carriageReturn => exact absurd hending hreturn
    | lineFeed =>
        have hfeed : byteLength (LineEnd.text .lineFeed) = 1 := by decide
        rw [hending, hfeed] at hnext
        omega
    | none =>
        have hnothing : byteLength (LineEnd.text .none) = 0 := rfl
        rw [hending, hnothing] at hnext
        omega

end Line

/-! ## The snippet -/


theorem exists_line_of_lt {all : List Line} {offset : Nat}
    (h : offset < byteLength (all.flatMap Line.text)) :
    ∃ before line after, all = before ++ line :: after ∧
      byteLength (before.flatMap Line.text) ≤ offset ∧
      offset < byteLength (before.flatMap Line.text) + byteLength line.text := by
  induction all generalizing offset with
  | nil => exact absurd h (Nat.not_lt_zero offset)
  | cons line rest ih =>
      rw [List.flatMap_cons, byteLength_append] at h
      rcases Nat.lt_or_ge offset (byteLength line.text) with hin | hbehind
      · exact ⟨[], line, rest, rfl, Nat.zero_le _, by simpa using hin⟩
      · obtain ⟨before, next, after, rfl, hle, hlt⟩ :=
          ih (show offset - byteLength line.text < _ by omega)
        refine ⟨line :: before, next, after, rfl, ?_⟩
        rw [List.flatMap_cons, byteLength_append]
        omega

theorem underlined?_eq_none_iff {r : Reporter} {s : Span} {e : Excerpt} (hs : s.start ≤ s.stop) :
    r.underlined? s e = none ↔ r.arithmetic = .checked ∧ e.stop < s.start := by
  rw [underlined?, Option.map_eq_none_iff, Arithmetic.minus?_eq_none_iff]
  exact and_congr_right fun _ => ⟨fun hlt => by omega, fun hlt => by omega⟩

section Snippet

variable {r : Reporter} {d : Diagnostic}

theorem stopsAt_iff : r.stopsAt d = true ↔
    ∃ e, r.excerpt? d = some e ∧ r.underlined? d.location.span e = none := by
  rw [stopsAt]
  cases r.excerpt? d <;> simp

theorem snippet?_eq_some_iff {shown : String} : r.snippet? d = some shown ↔
    ∃ e count, r.excerpt? d = some e ∧ r.underlined? d.location.span e = some count ∧
      shown = "\n  " ++ padNumber (e.place.line + 1) ++ "   " ++ String.ofList e.row ++
        "\n        " ++ r.mark e count := by
  simp only [snippet?, Option.bind_eq_bind, Option.bind_eq_some_iff, pure, Option.some.injEq]
  exact ⟨fun ⟨e, he, count, hcount, hshown⟩ => ⟨e, count, he, hcount, hshown.symm⟩,
    fun ⟨e, count, he, hcount, hshown⟩ => ⟨e, he, count, hcount, hshown.symm⟩⟩

theorem isSome_snippet?_iff :
    (r.snippet? d).isSome ↔ (r.excerpt? d).isSome ∧ r.stopsAt d = false := by
  rw [snippet?, stopsAt]
  cases r.excerpt? d with
  | none => simp
  | some e => cases hcount : r.underlined? d.location.span e <;> simp [hcount]

end Snippet

section Start

variable {r : Reporter} {d : Diagnostic} {text : String} {before after : List Line} {line : Line}
  (hsource : r.source? d.location.file = some (LineMap.ofText text))
  (hspan : d.location.span.isEmpty = false)
  (h : lines text.toList = before ++ line :: after)
  (hstart : byteLength (before.flatMap Line.text) ≤ d.location.span.start)
  (hnext : d.location.span.start <
    byteLength (before.flatMap Line.text) + byteLength line.text)

include hsource hspan h hstart hnext

/-- What is shown is the row under the number of the line that the span starts on. -/
theorem excerpt?_eq :
    r.excerpt? d = (shownLines text.toList)[before.length]?.map fun row =>
      ⟨(LineMap.ofText text).positionOf d.location.span.start,
        byteLength (before.flatMap Line.text), row⟩ := by
  have hline : ((LineMap.ofText text).positionOf d.location.span.start).line = before.length :=
    LineMap.lineOf_eq_of_starts h hstart fun _ => hnext
  have hlineStart : (LineMap.ofText text).lineStart? before.length =
      some (byteLength (before.flatMap Line.text)) := LineMap.getElem?_starts h
  have htext : (LineMap.ofText text).text = text.toList := rfl
  simp only [excerpt?, hspan, hsource, Option.bind_eq_bind, Option.bind_some, hline, hlineStart,
    htext, Bool.false_eq_true, if_false]
  cases (shownLines text.toList)[before.length]? <;> rfl

/-- With checked arithmetic the program stops at a span that starts behind the row. -/
theorem stopsAt_iff_lt (hoffset : d.location.span.start ≤ maxOffset) :
    r.stopsAt d = true ↔ r.arithmetic = .checked ∧
      ∃ row, (shownLines text.toList)[before.length]? = some row ∧
        byteLength (before.flatMap Line.text) + byteLength row < d.location.span.start := by
  have hstop : d.location.span.start ≤ d.location.span.stop :=
    Nat.le_min.2 ⟨Nat.le_add_right _ _, hoffset⟩
  simp only [stopsAt_iff, excerpt?_eq hsource hspan h hstart hnext, Option.map_eq_some_iff,
    exists_exists_and_eq_and, underlined?_eq_none_iff hstop, Excerpt.stop]
  exact ⟨fun ⟨row, hrow, hchecked, hbehind⟩ => ⟨hchecked, row, hrow, hbehind⟩,
    fun ⟨hchecked, row, hrow, hbehind⟩ => ⟨row, hrow, hchecked, hbehind⟩⟩

theorem isSome_snippet?_iff_row : (r.snippet? d).isSome ↔
    ((shownLines text.toList)[before.length]?).isSome ∧ r.stopsAt d = false := by
  rw [isSome_snippet?_iff, excerpt?_eq hsource hspan h hstart hnext, Option.isSome_map]

theorem isSome_snippet?_of_fed (hoffset : d.location.span.start ≤ maxOffset)
    (hreturns : ∀ l ∈ before, l.ending ≠ .carriageReturn)
    (hpair : line.ending = .both → d.location.span.start ≤
      byteLength (before.flatMap Line.text) + byteLength line.content) :
    (r.snippet? d).isSome := by
  have hline : line.text ≠ [] := by
    intro hempty
    rw [hempty] at hnext
    exact absurd hnext (Nat.not_lt.2 hstart)
  refine (isSome_snippet?_iff_row hsource hspan h hstart hnext).2
    ⟨isSome_shownLines_of_fed h hreturns hline, ?_⟩
  rw [← Bool.not_eq_true, stopsAt_iff_lt hsource hspan h hstart hnext hoffset]
  rintro ⟨-, row, hrow, hbehind⟩
  have hfits : d.location.span.start - byteLength (before.flatMap Line.text) ≤ byteLength row :=
    le_byteLength_of_fed h hrow hreturns (by omega) fun hboth =>
      Nat.sub_le_iff_le_add'.2 (hpair hboth)
  omega

theorem exists_row_of_snippet? {shown : String} (hshown : r.snippet? d = some shown) :
    ∃ row mark, '\n' ∉ row ∧
      shown = "\n  " ++ padNumber (before.length + 1) ++ "   " ++ String.ofList row ++
        "\n        " ++ mark ∧
      RowUnderNumber before line after row := by
  obtain ⟨e, count, he, -, rfl⟩ := snippet?_eq_some_iff.1 hshown
  rw [excerpt?_eq hsource hspan h hstart hnext] at he
  obtain ⟨row, hrow, heq⟩ := Option.map_eq_some_iff.1 he
  have hrow' : e.row = row := by rw [← heq]
  have hline : e.place.line = before.length := by
    rw [← heq]
    exact LineMap.lineOf_eq_of_starts h hstart fun _ => hnext
  exact ⟨row, r.mark e count, lineFeed_not_mem_shownLines (List.mem_of_getElem? hrow),
    by rw [hline, hrow'], rowUnderNumber h hrow⟩

end Start

/-- What a snippet shows of the line that a span starts on. -/
structure ShowsLine (r : Reporter) (d : Diagnostic) (text : List Char) (before : List Line)
    (line : Line) (after : List Line) : Prop where
  start_le : byteLength (before.flatMap Line.text) ≤ d.location.span.start
  start_lt : d.location.span.start < byteLength (before.flatMap Line.text) + byteLength line.text
  /-- The program stops if its arithmetic is checked and the span starts behind the row that is
  shown, and only then. -/
  stops_iff : r.stopsAt d = true ↔ r.arithmetic = .checked ∧
    ∃ row, (shownLines text)[before.length]? = some row ∧
      byteLength (before.flatMap Line.text) + byteLength row < d.location.span.start
  /-- If the program does not stop there is a snippet for every row. -/
  isSome_iff : (r.snippet? d).isSome ↔
    ((shownLines text)[before.length]?).isSome ∧ r.stopsAt d = false
  /-- There is one if no carriage return alone ends a line in front of the line and the span does
  not start on the line feed behind a carriage return. -/
  isSome_of_fed : (∀ l ∈ before, l.ending ≠ .carriageReturn) →
    (line.ending = .both → d.location.span.start ≤
      byteLength (before.flatMap Line.text) + byteLength line.content) →
    (r.snippet? d).isSome
  /-- A snippet has the number of the line and one row. -/
  exists_row : ∀ shown, r.snippet? d = some shown → ∃ row mark, '\n' ∉ row ∧
    shown = "\n  " ++ padNumber (before.length + 1) ++ "   " ++ String.ofList row ++
      "\n        " ++ mark ∧
    RowUnderNumber before line after row

/-- A snippet of a span that starts inside a text shows the line that the span starts on under the
number of this line, as far as no carriage return alone ends a line up to there. There is none if
the program stops, because the span starts behind what is shown. -/
theorem showsLine_of_start {r : Reporter} {d : Diagnostic} {text : String}
    (hsource : r.source? d.location.file = some (LineMap.ofText text))
    (hspan : d.location.span.isEmpty = false) (hoffset : d.location.span.start ≤ maxOffset)
    (hstart : d.location.span.start < text.utf8ByteSize) :
    ∃ before line after, lines text.toList = before ++ line :: after ∧
      ShowsLine r d text.toList before line after := by
  rw [← byteLength_toList, ← flatMap_text_lines text.toList] at hstart
  obtain ⟨before, line, after, hlines, hle, hlt⟩ := exists_line_of_lt hstart
  exact ⟨before, line, after, hlines, hle, hlt,
    stopsAt_iff_lt hsource hspan hlines hle hlt hoffset,
    isSome_snippet?_iff_row hsource hspan hlines hle hlt,
    isSome_snippet?_of_fed hsource hspan hlines hle hlt hoffset,
    fun _ => exists_row_of_snippet? hsource hspan hlines hle hlt⟩

theorem showsLine_of_start_behind_pair :
    let r : Reporter := addSource { colours := false } "f" "a\r\nb\rc"
    let d : Diagnostic := ⟨"IR001", "T", "msg.", .warning, ⟨"f", ⟨3, 1⟩⟩⟩
    ∃ before line after, lines "a\r\nb\rc".toList = before ++ line :: after ∧
      ShowsLine r d "a\r\nb\rc".toList before line after :=
  showsLine_of_start rfl rfl (by decide) (by decide)

/-- A carriage return alone ends the line `a`, so `b` is the second line. The second row is `c`. -/
theorem other_line_shown_behind_return :
    let r : Reporter := addSource { colours := false } "f" "a\rb\nc"
    let d : Diagnostic := ⟨"IR001", "T", "msg.", .warning, ⟨"f", ⟨2, 1⟩⟩⟩
    lines "a\rb\nc".toList =
        [⟨['a'], .carriageReturn⟩] ++ ⟨['b'], .lineFeed⟩ :: [⟨['c'], .none⟩] ∧
      (LineMap.ofText "a\rb\nc").positionOf d.location.span.start = ⟨1, 0⟩ ∧
      r.snippet? d = some "\n    2   c\n        ~" := by
  decide

/-- The span is the line feed of a pair, and the row in front of the pair ends before it. -/
example :
    let r : Reporter := addSource { colours := false } "f" "ab\r\ncd"
    let d : Diagnostic := ⟨"IR001", "T", "msg.", .warning, ⟨"f", ⟨3, 1⟩⟩⟩
    r.renderOne? d = none := by decide

end Reporter

end TreeLint
