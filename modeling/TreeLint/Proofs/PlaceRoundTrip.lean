import TreeLint.Proofs.TextLines

/-!
# From an offset to its place and back

The way to a place counts 16-bit units from where the line starts; the way back counts them off one
character at a time and stops in front of the end of the line. What stands between the start of the
line and the offset ends no line, so the way back goes over all of it, and it has counted off the
whole column by then.

Of the offsets between two characters only one is lost: that inside a carriage return and a line
feed. It lies on the line that they end, one unit behind its content, and the way back stops in
front of the carriage return.
-/

namespace TreeLint

namespace LineMap

open Text

theorem bytesTo_zero (line : List Char) : bytesTo 0 line = 0 := by
  cases line with
  | nil => rfl
  | cons c rest =>
      have hpos : 0 < unitWidth c := by
        rw [unitWidth]
        split <;> decide
      rw [bytesTo, if_pos (.inr (.inr hpos))]

/-- The way back goes over characters that end no line if the column counts them all. -/
theorem bytesTo_append {held : List Char} (hheld : ∀ c ∈ held, c ≠ '\n' ∧ c ≠ '\r')
    (rest : List Char) : bytesTo (unitLength held) (held ++ rest) = byteLength held := by
  induction held with
  | nil => exact bytesTo_zero rest
  | cons c held ih =>
      rw [List.forall_mem_cons] at hheld
      have hunits : unitLength (c :: held) = unitWidth c + unitLength held := rfl
      have hpassed : ¬(c = '\n' ∨ c = '\r' ∨ unitLength (c :: held) < unitWidth c) := by
        rw [hunits]
        rintro (hc | hc | hlt)
        · exact hheld.1.1 hc
        · exact hheld.1.2 hc
        · omega
      rw [List.cons_append, bytesTo, if_neg hpassed, hunits, Nat.add_sub_cancel_left,
        ih hheld.2, byteLength_cons]

/-- The place of an offset between two characters leads back to the offset, unless they are a
carriage return and a line feed. -/
theorem offsetOf?_positionOf {front back : String}
    (hcut : ¬(front.toList.getLast? = some '\r' ∧ back.toList.head? = some '\n')) :
    (ofText (front ++ back)).offsetOf?
      ((ofText (front ++ back)).positionOf front.utf8ByteSize) = some front.utf8ByteSize := by
  obtain ⟨before, line, after, held, rest, hlines, hcontent, hfront⟩ :=
    cutsLine_of_append String.toList_append hcut
  have hoffset : front.utf8ByteSize = byteLength (before.flatMap Line.text) + byteLength held := by
    rw [← byteLength_toList, hfront, byteLength_append]
  have hline : line ∈ lines (front ++ back).toList := by
    rw [hlines]
    exact List.mem_append_right _ List.mem_cons_self
  have hheld : ∀ c ∈ held, c ≠ '\n' ∧ c ≠ '\r' := fun c hc =>
    plain_content _ line hline c (hcontent ▸ List.mem_append_left _ hc)
  rw [hoffset, positionOf_eq_of_lines hlines hcontent, offsetOf?_eq_of_lines hlines, Line.text,
    hcontent, List.append_assoc, bytesTo_append hheld]

/-- Behind a character of two units, on the line behind one that a carriage return ends alone. -/
theorem offsetOf?_positionOf_wide :
    let front := "é\r\n\r𝒳"
    let back := "\r\nb"
    ¬(front.toList.getLast? = some '\r' ∧ back.toList.head? = some '\n') ∧
      front.utf8ByteSize = 9 ∧ (ofText (front ++ back)).positionOf 9 = ⟨2, 2⟩ ∧
      (ofText (front ++ back)).offsetOf? ⟨2, 2⟩ = some 9 := by
  intro front back
  have hcut : ¬(front.toList.getLast? = some '\r' ∧ back.toList.head? = some '\n') := by
    decide +kernel
  have hsize : front.utf8ByteSize = 9 := by decide +kernel
  have hplace : (ofText (front ++ back)).positionOf 9 = ⟨2, 2⟩ := by decide +kernel
  have hback := offsetOf?_positionOf hcut
  rw [hsize, hplace] at hback
  exact ⟨hcut, hsize, hplace, hback⟩

end LineMap

end TreeLint
