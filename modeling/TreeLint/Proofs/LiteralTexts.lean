import Mathlib.Logic.Function.Basic
import TreeLint.Tree.Build

/-!
# String literals

Reading a literal needs one thing kept in mind: whether the next character is escaped. Each
character of a value is written so that nothing is escaped behind it. The quotes among these are
escaped, so the first one that is not closes the literal, whatever the value ends with, and the
characters can be read back one by one.

The other way, a token on one line that closes at its end and that a value is read back from is the
one that is built for the value: a bare quote would have closed it earlier, and a bare line feed
would have ended the line. So a literal and its value determine each other.
-/

namespace TreeLint.Build

/-! ## Reading a literal -/

/-- The characters in front of the first quote that is not escaped, and those behind it. A backslash
that is not escaped itself escapes the character behind it. -/
def splitAtQuote? : (escaped : Bool) → List Char → Option (List Char × List Char)
  | _, [] => none
  | true, c :: rest => (splitAtQuote? false rest).map (Prod.map (c :: ·) id)
  | false, c :: rest =>
    if c = '"' then some ([], rest)
    else (splitAtQuote? (c == '\\') rest).map (Prod.map (c :: ·) id)

/-- Reads a literal from its opening quote: the characters between its quotes, and what is behind
the closing one. -/
def readLiteral? : List Char → Option (List Char × List Char)
  | '"' :: rest => splitAtQuote? false rest
  | _ => none

/-- What the characters between the quotes stand for. There are three escapes, and other characters
stand for themselves. -/
def unescape? : List Char → Option (List Char)
  | [] => some []
  | '\\' :: '"' :: rest => (unescape? rest).map ('"' :: ·)
  | '\\' :: '\\' :: rest => (unescape? rest).map ('\\' :: ·)
  | '\\' :: 'n' :: rest => (unescape? rest).map ('\n' :: ·)
  | '\\' :: _ => none
  | c :: rest => (unescape? rest).map (c :: ·)

/-- A token that is a literal for a value. It ends itself, whatever is behind it: the first quote
that is not escaped is its last character. -/
structure Denotes (token : Token) (value : String) : Prop where
  kind : token.kind = .stringLiteralToken
  reads : ∃ inside, unescape? inside = some value.toList ∧
    ∀ behind, readLiteral? (token.text.toList ++ behind) = some (inside, behind)
  oneLine : '\n' ∉ token.text.toList

/-! ## Written characters -/

theorem unescape?_cons {c : Char} (hc : c ≠ '\\') (rest : List Char) :
    unescape? (c :: rest) = (unescape? rest).map (c :: ·) := by
  rw [unescape?.eq_def]
  split <;> grind

/-- A character is written as itself, or as a backslash and a letter that stands for it. -/
theorem literalChar_eq (c : Char) :
    literalChar c = [c] ∧ c ≠ '"' ∧ c ≠ '\\' ∧ c ≠ '\n' ∨
      ∃ letter, literalChar c = ['\\', letter] ∧ letter ≠ '\n' ∧
        ∀ rest, unescape? ('\\' :: letter :: rest) = (unescape? rest).map (c :: ·) := by
  unfold literalChar
  split
  · next h =>
      subst h
      exact .inr ⟨'"', rfl, by decide, fun _ => rfl⟩
  split
  · next h =>
      subst h
      exact .inr ⟨'\\', rfl, by decide, fun _ => rfl⟩
  split
  · next h =>
      subst h
      exact .inr ⟨'n', rfl, by decide, fun _ => rfl⟩
  · next hquote hbackslash hfeed => exact .inl ⟨rfl, hquote, hbackslash, hfeed⟩

/-- Behind a written character nothing is escaped. -/
theorem splitAtQuote?_literalChar (c : Char) (rest : List Char) :
    splitAtQuote? false (literalChar c ++ rest) =
      (splitAtQuote? false rest).map (Prod.map (literalChar c ++ ·) id) := by
  obtain ⟨heq, hquote, hbackslash, _⟩ | ⟨letter, heq, _⟩ := literalChar_eq c
  · rw [heq, List.singleton_append, splitAtQuote?, if_neg hquote, beq_false_of_ne hbackslash]
    rfl
  · rw [heq, List.cons_append, List.singleton_append, splitAtQuote?, if_neg (by decide)]
    exact Option.map_map ..

theorem unescape?_literalChar (c : Char) (rest : List Char) :
    unescape? (literalChar c ++ rest) = (unescape? rest).map (c :: ·) := by
  obtain ⟨heq, _, hbackslash, _⟩ | ⟨letter, heq, _, hmeant⟩ := literalChar_eq c
  · rw [heq, List.singleton_append, unescape?_cons hbackslash]
  · rw [heq, List.cons_append, List.singleton_append, hmeant]

theorem lineFeed_not_mem_literalChar (c : Char) : '\n' ∉ literalChar c := by
  obtain ⟨heq, _, _, hfeed⟩ | ⟨letter, heq, hfeed, _⟩ := literalChar_eq c
  · rw [heq, List.mem_singleton]
    exact Ne.symm hfeed
  · rw [heq, List.mem_cons, List.mem_singleton, not_or]
    exact ⟨by decide, Ne.symm hfeed⟩

/-! ## Written values -/

theorem splitAtQuote?_flatMap (value behind : List Char) :
    splitAtQuote? false (value.flatMap literalChar ++ '"' :: behind) =
      some (value.flatMap literalChar, behind) := by
  induction value with
  | nil => rfl
  | cons c others ih =>
      rw [List.flatMap_cons, List.append_assoc, splitAtQuote?_literalChar, ih]
      rfl

theorem unescape?_flatMap (value : List Char) :
    unescape? (value.flatMap literalChar) = some value := by
  induction value with
  | nil => rfl
  | cons c others ih =>
      rw [List.flatMap_cons, unescape?_literalChar, ih]
      rfl

theorem lineFeed_not_mem_literalText (value : String) : '\n' ∉ (literalText value).toList := by
  have hinside : '\n' ∉ value.toList.flatMap literalChar := by
    rw [List.mem_flatMap]
    exact fun ⟨c, _, hmem⟩ => lineFeed_not_mem_literalChar c hmem
  simp [literalText, hinside]

/-- What is built for a value is a literal for it. -/
theorem denotes_literalText (value : String) :
    Denotes ⟨.stringLiteralToken, literalText value⟩ value where
  kind := rfl
  reads := by
    refine ⟨value.toList.flatMap literalChar, unescape?_flatMap value.toList, fun behind => ?_⟩
    rw [literalText, String.toList_ofList, List.cons_append, List.append_assoc,
      List.singleton_append]
    exact splitAtQuote?_flatMap value.toList behind
  oneLine := lineFeed_not_mem_literalText value

/-! ## Read values -/

/-- What was read is in front of a quote, and this in front of what is behind. -/
theorem eq_append_of_splitAtQuote? {escaped : Bool} {text inside behind : List Char}
    (h : splitAtQuote? escaped text = some (inside, behind)) : text = inside ++ '"' :: behind := by
  induction text generalizing escaped inside with
  | nil => cases h
  | cons c rest ih =>
      have step : ∀ next, (splitAtQuote? next rest).map (Prod.map (c :: ·) id) =
          some (inside, behind) → c :: rest = inside ++ '"' :: behind := fun next hnext => by
        obtain ⟨⟨front, _⟩, hrest, heq⟩ := Option.map_eq_some_iff.1 hnext
        cases heq
        rw [ih hrest, List.cons_append]
      cases escaped with
      | true => exact step false h
      | false =>
          rw [splitAtQuote?] at h
          split at h
          · next hquote =>
              cases h
              rw [hquote, List.nil_append]
          · exact step _ h

theorem splitAtQuote?_of_literalChar {c : Char} {rest inside behind : List Char}
    (h : splitAtQuote? false (literalChar c ++ rest) = some (literalChar c ++ inside, behind)) :
    splitAtQuote? false rest = some (inside, behind) := by
  rw [splitAtQuote?_literalChar] at h
  obtain ⟨⟨front, _⟩, hrest, heq⟩ := Option.map_eq_some_iff.1 h
  obtain ⟨hinside, rfl⟩ := Prod.mk.inj heq
  rw [hrest, List.append_cancel_left hinside]
  rfl

theorem eq_nil_of_unescape? {inside : List Char} (h : unescape? inside = some []) :
    inside = [] := by
  rw [unescape?.eq_def] at h
  split at h
  · rfl
  all_goals simp at h

theorem eq_of_map_cons {rest? : Option (List Char)} {c first : Char} {others : List Char}
    (h : rest?.map (first :: ·) = some (c :: others)) : first = c ∧ rest? = some others := by
  obtain ⟨_, hrest, heq⟩ := Option.map_eq_some_iff.1 h
  obtain ⟨hfirst, rfl⟩ := List.cons.inj heq
  exact ⟨hfirst, hrest⟩

/-- A character that is read back was written as such, or it is a quote or line feed with no
backslash in front. -/
theorem exists_of_unescape?_cons {inside others : List Char} {c : Char}
    (h : unescape? inside = some (c :: others)) : ∃ rest, unescape? rest = some others ∧
      (inside = literalChar c ++ rest ∨ inside = c :: rest ∧ (c = '"' ∨ c = '\n')) := by
  rw [unescape?.eq_def] at h
  split at h
  · cases h
  · next rest =>
      obtain ⟨rfl, hrest⟩ := eq_of_map_cons h
      exact ⟨rest, hrest, .inl rfl⟩
  · next rest =>
      obtain ⟨rfl, hrest⟩ := eq_of_map_cons h
      exact ⟨rest, hrest, .inl rfl⟩
  · next rest =>
      obtain ⟨rfl, hrest⟩ := eq_of_map_cons h
      exact ⟨rest, hrest, .inl rfl⟩
  · cases h
  · next first rest _ _ _ hbackslash =>
      obtain ⟨rfl, hrest⟩ := eq_of_map_cons h
      refine ⟨rest, hrest, ?_⟩
      by_cases hbare : first = '"' ∨ first = '\n'
      · exact .inr ⟨rfl, hbare⟩
      · rw [not_or] at hbare
        rw [literalChar, if_neg hbare.1, if_neg hbackslash, if_neg hbare.2]
        exact .inl rfl

/-- Characters on one line that a value is read back from are those that are written for it, if no
quote among them closes the literal. -/
theorem eq_flatMap_of_unescape? {inside value behind : List Char}
    (hsplit : splitAtQuote? false (inside ++ '"' :: behind) = some (inside, behind))
    (hline : '\n' ∉ inside) (h : unescape? inside = some value) :
    inside = value.flatMap literalChar := by
  induction value generalizing inside with
  | nil => exact eq_nil_of_unescape? h
  | cons c others ih =>
      obtain ⟨rest, hrest, rfl | ⟨rfl, rfl | rfl⟩⟩ := exists_of_unescape?_cons h
      · rw [List.append_assoc] at hsplit
        have hothers : '\n' ∉ rest := fun hmem => hline (List.mem_append_right _ hmem)
        rw [List.flatMap_cons, ← ih (splitAtQuote?_of_literalChar hsplit) hothers hrest]
      · -- the literal would have been closed here
        cases hsplit
      · exact absurd List.mem_cons_self hline

/-- A literal for a value is what is built for it. -/
theorem Denotes.eq {token : Token} {value : String} (h : Denotes token value) :
    token = ⟨.stringLiteralToken, literalText value⟩ := by
  obtain ⟨kind, text⟩ := token
  obtain ⟨rfl, ⟨inside, hvalue, hread⟩, hline⟩ := h
  have hwhole := hread []
  rw [List.append_nil] at hwhole
  unfold readLiteral? at hwhole
  split at hwhole
  · next rest hopen =>
      have hclosed := eq_append_of_splitAtQuote? hwhole
      subst hclosed
      rw [hopen] at hline
      have hinside : '\n' ∉ inside := fun hmem =>
        hline (List.mem_cons_of_mem _ (List.mem_append_left _ hmem))
      rw [eq_flatMap_of_unescape? hwhole hinside hvalue] at hopen
      rw [literalText, ← hopen, String.ofList_toList]
  · cases hwhole

/-- A literal is for one value only. -/
theorem Denotes.value_eq {token : Token} {value other : String} (h : Denotes token value)
    (h' : Denotes token other) : value = other := by
  obtain ⟨inside, hvalue, hread⟩ := h.reads
  obtain ⟨inside', hother, hread'⟩ := h'.reads
  have hsame := Option.some.inj ((hread []).symm.trans (hread' []))
  obtain rfl : inside = inside' := congrArg Prod.fst hsame
  exact String.toList_inj.1 (Option.some.inj (hvalue.symm.trans hother))

/-- The token that is built for a text is the only literal for it, so different texts have different
literals. -/
theorem denotes_iff_stringLiteral :
    (∀ value, ∃ token, stringLiteral value = ⟨.stringLiteralExpression, [.token token]⟩ ∧
      ∀ other, Denotes other value ↔ other = token) ∧ Function.Injective stringLiteral := by
  refine ⟨fun value => ⟨_, rfl, fun other => ?_⟩, fun value other h => ?_⟩
  · exact ⟨Denotes.eq, fun h => h ▸ denotes_literalText value⟩
  · have htext : literalText value = literalText other := by simpa [stringLiteral] using h
    exact (denotes_literalText value).value_eq (htext ▸ denotes_literalText other)

example : readLiteral? (literalText "\\").toList = some (['\\', '\\'], []) := by
  decide +kernel

end TreeLint.Build
