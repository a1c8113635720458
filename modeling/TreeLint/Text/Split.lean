/-!
# Splitting a text at a character

A text is split into what stands between the occurrences of one character, so there is always one
more part than there are occurrences. Joining the parts again gives the text back.
-/

namespace TreeLint.Text

/-- What stands between the occurrences of a character. -/
def splitAt (separator : Char) : List Char → List (List Char)
  | [] => [[]]
  | c :: rest =>
    if c = separator then [] :: splitAt separator rest
    else
      match splitAt separator rest with
      | [] => [[c]]
      | part :: others => (c :: part) :: others

/-- Parts with a character between them. -/
def joinWith (separator : Char) : List (List Char) → List Char
  | [] => []
  | [part] => part
  | part :: rest => part ++ separator :: joinWith separator rest

theorem splitAt_ne_nil (separator : Char) (text : List Char) : splitAt separator text ≠ [] := by
  cases text with
  | nil => simp [splitAt]
  | cons c rest =>
    rw [splitAt]
    split
    · simp
    · split <;> simp

theorem joinWith_splitAt (separator : Char) (text : List Char) :
    joinWith separator (splitAt separator text) = text := by
  induction text with
  | nil => rfl
  | cons c rest ih =>
    rw [splitAt]
    split
    · next h =>
      cases hs : splitAt separator rest with
      | nil => exact absurd hs (splitAt_ne_nil separator rest)
      | cons part others =>
        rw [hs] at ih
        rw [joinWith, List.nil_append, ih, h]
        simp
    · cases hs : splitAt separator rest with
      | nil => exact absurd hs (splitAt_ne_nil separator rest)
      | cons part others =>
        rw [hs] at ih
        cases others with
        | nil => simpa [joinWith] using ih
        | cons next more => simpa [joinWith] using ih

/-- A text whose first part of several is empty starts with the separator. -/
theorem head?_of_splitAt {separator : Char} {text next : List Char} {others : List (List Char)}
    (h : splitAt separator text = [] :: next :: others) : text.head? = some separator := by
  cases text with
  | nil => cases h
  | cons c rest =>
    rw [splitAt] at h
    split at h
    · next heq => exact congrArg some heq
    · split at h <;> cases h

/-- No part holds the separator. -/
theorem not_mem_of_mem_splitAt {separator : Char} {text part : List Char}
    (h : part ∈ splitAt separator text) : separator ∉ part := by
  induction text generalizing part with
  | nil =>
    obtain rfl := List.mem_singleton.1 h
    exact List.not_mem_nil
  | cons c rest ih =>
    obtain ⟨first, others, hsplit⟩ := List.exists_cons_of_ne_nil (splitAt_ne_nil separator rest)
    rw [splitAt, hsplit] at h
    rw [hsplit] at ih
    split at h
    · rcases List.mem_cons.1 h with rfl | hmem
      · exact List.not_mem_nil
      · exact ih hmem
    · next hne =>
      rcases List.mem_cons.1 h with rfl | hmem
      · rw [List.mem_cons, not_or]
        exact ⟨Ne.symm hne, ih List.mem_cons_self⟩
      · exact ih (List.mem_cons_of_mem _ hmem)

end TreeLint.Text
