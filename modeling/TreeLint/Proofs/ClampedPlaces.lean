import Mathlib.Order.Bounds.Defs
import TreeLint.Proofs.PlaceRoundTrip

/-!
# From a place to an offset and back

A line has a column for each prefix of what it holds, and no other: none inside a character of two
units, and none behind its content. The way from a place to an offset goes over characters for as
long as they fit into the column. So it stops at the last column of the line that is not past the
one asked for, and there it stands in the content of the line, from where the way back is known.

Hence there is an offset exactly for the lines that exist, and a place comes back as it was if its
column is one of the line's. A character takes no more units than bytes, so no number on either way
is greater than the number of bytes of the text.
-/

namespace TreeLint

namespace Text

theorem unitWidth_le_utf8Size (c : Char) : unitWidth c ≤ c.utf8Size := by
  have hpos := c.utf8Size_pos
  rw [unitWidth]
  split
  · exact hpos
  · next hwide =>
      have hmany : c.utf8Size ≠ 1 := fun hone => hwide
        (Nat.le_trans (UInt32.le_iff_toNat_le.1 (Char.utf8Size_eq_one_iff.1 hone)) (by decide))
      omega

theorem unitLength_le_byteLength (text : List Char) : unitLength text ≤ byteLength text := by
  induction text with
  | nil => exact Nat.le_refl 0
  | cons c rest ih => exact Nat.add_le_add (unitWidth_le_utf8Size c) ih

@[simp] theorem unitLength_append (front back : List Char) :
    unitLength (front ++ back) = unitLength front + unitLength back := by
  induction front with
  | nil => exact (Nat.zero_add _).symm
  | cons c rest ih =>
      have hcons : ∀ text, unitLength (c :: text) = unitWidth c + unitLength text := fun _ => rfl
      rw [List.cons_append, hcons, hcons, ih, Nat.add_assoc]

/-- The columns of a line: how many units there are in front of each place in its content. -/
def Line.columns (line : Line) : Set Nat :=
  {column | ∃ held rest, line.content = held ++ rest ∧ column = unitLength held}

end Text

namespace LineMap

open Text

/-- The lines of a map are those of its text. -/
theorem lineCount_ofText (text : String) :
    (ofText text).lineCount = (lines text.toList).length := by
  rw [lineCount, ofText, startsAfter_eq, length_startsFrom]

/-- The end of a line stops the way back like the end of the text. -/
theorem bytesTo_ending (column : Nat) (ending : LineEnd) : bytesTo column ending.text = 0 := by
  cases ending with
  | none => rfl
  | lineFeed => exact if_pos (.inl rfl)
  | carriageReturn => exact if_pos (.inr (.inl rfl))
  | both => exact if_pos (.inr (.inl rfl))

/-- The way to an offset goes over a prefix of the content that fits into the column, and the next
character, if there is one, does not fit as well. -/
theorem exists_held (column : Nat) {content : List Char}
    (hplain : ∀ c ∈ content, c ≠ '\n' ∧ c ≠ '\r') (ending : LineEnd) :
    ∃ held rest, content = held ++ rest ∧
      bytesTo column (content ++ ending.text) = byteLength held ∧ unitLength held ≤ column ∧
      ∀ c ∈ rest.head?, column < unitLength held + unitWidth c := by
  induction content generalizing column with
  | nil => exact ⟨[], [], rfl, bytesTo_ending column ending, Nat.zero_le _, fun c hc => by cases hc⟩
  | cons c content ih =>
      rw [List.forall_mem_cons] at hplain
      rw [List.cons_append, bytesTo]
      by_cases hfits : column < unitWidth c
      · refine ⟨[], c :: content, rfl, if_pos (.inr (.inr hfits)), Nat.zero_le _, fun d hd => ?_⟩
        obtain rfl : c = d := Option.some.inj hd
        exact Nat.lt_add_left _ hfits
      · obtain ⟨held, rest, rfl, hbytes, hle, hnext⟩ := ih (column - unitWidth c) hplain.2
        have hunits : unitLength (c :: held) = unitWidth c + unitLength held := rfl
        have hpassed : ¬(c = '\n' ∨ c = '\r' ∨ column < unitWidth c) := by
          rintro (hc | hc | hlt)
          · exact hplain.1.1 hc
          · exact hplain.1.2 hc
          · exact hfits hlt
        refine ⟨c :: held, rest, rfl, ?_, ?_, fun d hd => ?_⟩
        · rw [if_neg hpassed, hbytes, byteLength_cons]
        · omega
        · have hlt := hnext d hd
          omega

/-- No prefix that fits into a column is longer than one behind which the next character does not
fit as well. -/
theorem unitLength_le_of_fits {column : Nat} {held rest held' rest' : List Char}
    (hsplit : held ++ rest = held' ++ rest')
    (hnext : ∀ c ∈ rest.head?, column < unitLength held + unitWidth c)
    (hfits : unitLength held' ≤ column) : unitLength held' ≤ unitLength held := by
  rcases List.append_eq_append_iff.1 hsplit with ⟨more, rfl, rfl⟩ | ⟨more, rfl, rfl⟩
  · -- a longer prefix goes on with the character that does not fit
    rw [unitLength_append] at hfits ⊢
    cases more with
    | nil => exact Nat.le_refl _
    | cons c more =>
        have hlt := hnext c rfl
        have hunits : unitLength (c :: more) = unitWidth c + unitLength more := rfl
        omega
  · rw [unitLength_append]
    exact Nat.le_add_right _ _

/-- What the way to an offset and back makes of a place on a line: the nearest place in the content
of the same line that is not behind it. -/
structure ClampsDown (line : Line) (place back : Position) : Prop where
  same_line : back.line = place.line
  isGreatest : IsGreatest {column ∈ line.columns | column ≤ place.character} back.character
  of_valid : place.character ∈ line.columns → back = place
  of_past_content : unitLength line.content ≤ place.character →
    back.character = unitLength line.content
  /-- A character of two units has one column inside. -/
  of_inside : ∀ held c rest, line.content = held ++ c :: rest → unitLength held < place.character →
    place.character < unitLength held + unitWidth c → back.character = unitLength held

theorem ClampsDown.of_isGreatest {line : Line} {place back : Position}
    (hline : back.line = place.line)
    (hgreatest : IsGreatest {column ∈ line.columns | column ≤ place.character} back.character) :
    ClampsDown line place back := by
  obtain ⟨⟨⟨held, rest, hcontent, hback⟩, hle⟩, hupper⟩ := hgreatest
  have hstops : ∀ held' rest', line.content = held' ++ rest' →
      unitLength held' ≤ place.character →
      (∀ c ∈ rest'.head?, place.character < unitLength held' + unitWidth c) →
      back.character = unitLength held' := by
    intro held' rest' hcontent' hfits hnext
    refine Nat.le_antisymm ?_ (hupper ⟨⟨held', rest', hcontent', rfl⟩, hfits⟩)
    rw [hback] at hle ⊢
    exact unitLength_le_of_fits (hcontent'.symm.trans hcontent) hnext hle
  refine ⟨hline, ⟨⟨⟨held, rest, hcontent, hback⟩, hle⟩, hupper⟩, fun hvalid => ?_, fun hpast => ?_,
    fun held' c rest' hcontent' hlt hinside => ?_⟩
  · have hcharacter := Nat.le_antisymm hle (hupper ⟨hvalid, Nat.le_refl _⟩)
    obtain ⟨backLine, backCharacter⟩ := back
    obtain ⟨placeLine, placeCharacter⟩ := place
    exact congr (congrArg Position.mk hline) hcharacter
  · exact hstops line.content [] (List.append_nil _).symm hpast fun c hc => by cases hc
  · refine hstops held' (c :: rest') hcontent' (Nat.le_of_lt hlt) fun d hd => ?_
    obtain rfl : c = d := Option.some.inj hd
    exact hinside

/-- On a line of a text there is an offset for each column. -/
theorem exists_offset {text : String} {before after : List Line} {line : Line}
    (h : lines text.toList = before ++ line :: after) (column : Nat) :
    ∃ offset, (ofText text).offsetOf? ⟨before.length, column⟩ = some offset ∧
      offset ≤ text.utf8ByteSize ∧
      ((ofText text).positionOf offset).character ≤ text.utf8ByteSize ∧
      ClampsDown line ⟨before.length, column⟩ ((ofText text).positionOf offset) := by
  have hline : line ∈ lines text.toList := by
    rw [h]
    exact List.mem_append_right _ List.mem_cons_self
  obtain ⟨held, rest, hcontent, hbytes, hfits, hnext⟩ :=
    exists_held column (plain_content _ line hline) line.ending
  have hback := positionOf_eq_of_lines h hcontent
  have hinside : byteLength (before.flatMap Line.text) + byteLength held ≤ text.utf8ByteSize := by
    rw [← byteLength_toList, toList_eq_of_lines h, Line.text, hcontent]
    simp only [byteLength_append]
    omega
  refine ⟨byteLength (before.flatMap Line.text) + byteLength held, ?_, hinside, ?_, ?_⟩
  · rw [offsetOf?_eq_of_lines h, Line.text, hbytes]
  · rw [hback]
    have hunits := unitLength_le_byteLength held
    exact Nat.le_trans (Nat.le_add_left_of_le hunits) hinside
  · rw [hback]
    refine .of_isGreatest rfl ⟨⟨⟨held, rest, hcontent, rfl⟩, hfits⟩, ?_⟩
    rintro _ ⟨⟨held', rest', hcontent', rfl⟩, hfits'⟩
    exact unitLength_le_of_fits (hcontent.symm.trans hcontent') hnext hfits'

/-- There is an offset for each place on a line that exists, and for no other. From the offset the
way leads back to the same line, to the last of its columns that is not past the one asked for: to
the place itself if it is valid, to the front of a character whose units the column parts, and to
the end of the content if the column is past it. -/
theorem positionOf_offsetOf? (text : String) (place : Position) :
    ((ofText text).offsetOf? place = none ↔ (ofText text).lineCount ≤ place.line) ∧
    ∀ offset, (ofText text).offsetOf? place = some offset →
      ∃ line, (lines text.toList)[place.line]? = some line ∧ offset ≤ text.utf8ByteSize ∧
        ((ofText text).positionOf offset).character ≤ text.utf8ByteSize ∧
        ClampsDown line place ((ofText text).positionOf offset) := by
  have hcount := lineCount_ofText text
  rcases Nat.lt_or_ge place.line (lines text.toList).length with hlt | hge
  · have hsplit : lines text.toList = (lines text.toList).take place.line ++
        (lines text.toList)[place.line] :: (lines text.toList).drop (place.line + 1) := by
      rw [List.getElem_cons_drop, List.take_append_drop]
    have hlength : ((lines text.toList).take place.line).length = place.line :=
      List.length_take_of_le (Nat.le_of_lt hlt)
    obtain ⟨offset, hoffset, hle, hcharacter, hclamps⟩ := exists_offset hsplit place.character
    rw [hlength] at hoffset hclamps
    constructor
    · rw [hoffset, hcount]
      exact iff_of_false (Option.some_ne_none offset) (Nat.not_le.2 hlt)
    · intro other hother
      obtain rfl : offset = other := Option.some.inj (hoffset.symm.trans hother)
      exact ⟨_, List.getElem?_eq_getElem hlt, hle, hcharacter, hclamps⟩
  · have hnone : (ofText text).offsetOf? place = none := by
      have hstart : (ofText text).starts[place.line]? = none :=
        List.getElem?_eq_none (by rwa [← hcount] at hge)
      rw [offsetOf?, hstart]
    rw [hnone, hcount]
    exact ⟨iff_of_true rfl hge, fun offset hoffset => by cases hoffset⟩

/-- The second column of a character of two units, on a line that a carriage return ends alone in
front of an empty one. -/
theorem positionOf_offsetOf?_inside :
    let m := ofText "é\n𝒳b\r\r\n"
    m.lineCount = 4 ∧ m.offsetOf? ⟨1, 1⟩ = some 3 ∧ m.positionOf 3 = ⟨1, 0⟩ ∧
      ClampsDown ⟨['𝒳', 'b'], .carriageReturn⟩ ⟨1, 1⟩ ⟨1, 0⟩ ∧
      ∀ offset, m.offsetOf? ⟨4, 0⟩ ≠ some offset := by
  intro m
  have hcount : m.lineCount = 4 := by decide +kernel
  have hoffset : m.offsetOf? ⟨1, 1⟩ = some 3 := by decide +kernel
  have hback : m.positionOf 3 = ⟨1, 0⟩ := by decide +kernel
  have hline : (lines "é\n𝒳b\r\r\n".toList)[1]? = some ⟨['𝒳', 'b'], .carriageReturn⟩ := by
    decide +kernel
  obtain ⟨line, hfound, -, -, hclamps⟩ := (positionOf_offsetOf? _ ⟨1, 1⟩).2 3 hoffset
  obtain rfl := Option.some.inj (hline.symm.trans hfound)
  rw [hback] at hclamps
  have hnone : m.offsetOf? ⟨4, 0⟩ = none :=
    (positionOf_offsetOf? _ ⟨4, 0⟩).1.2 (Nat.le_of_eq hcount)
  exact ⟨hcount, hoffset, hback, hclamps, by simp [hnone]⟩

end LineMap

end TreeLint
