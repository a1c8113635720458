import Mathlib.Data.List.TakeWhile
import TreeLint.Proofs.GrammarReading

/-!
# What a reader accepts

Every text that a reader accepts is in the grammar: where reading succeeds, the part of the text
that was read is a tree in plain layout. Together with the converse, the grammar is that of the
reader, up to what a reader refuses of a well-formed text: numbers past the doubles, halves of
pairs, and deep nesting.

Only the form of the text is read back here. Which value was read follows, because a tree has one.
-/

namespace TreeLint.Json

/-! ## Strings -/

/-- Inside a numeric escape the next character is a digit. -/
theorem exists_hexDigit_of_readStringFrom {half : Option Nat} {left value : Nat}
    {taken text : List Char} {result : String × List Char}
    (h : readStringFrom (.code half (left + 1) value) taken text = some result) :
    ∃ (d : HexDigit) (rest : List Char), text = d.1 :: rest ∧
      (0 < left → readStringFrom (.code half left (16 * value + d.value)) taken rest =
        some result) := by
  cases text with
  | nil => cases h
  | cons c rest =>
      rw [readStringFrom] at h
      cases hc : hexDigit? c with
      | none =>
          rw [hc] at h
          cases h
      | some digit =>
          have hsome : (hexDigit? c).isSome = true := by rw [hc]; rfl
          refine ⟨⟨c, hsome⟩, rest, rfl, fun hleft => ?_⟩
          have hvalue : HexDigit.value ⟨c, hsome⟩ = digit := by
            rw [HexDigit.value]
            simp only [hc, Option.get_some]
          rw [hc] at h
          simp only [if_pos (Nat.lt_add_of_pos_left hleft : 1 < left + 1)] at h
          rw [hvalue]
          exact h

theorem exists_code_of_readStringFrom {half : Option Nat} {taken text : List Char}
    {result : String × List Char} (h : readStringFrom (.code half 4 0) taken text = some result) :
    ∃ (a b c d : HexDigit) (rest : List Char), text = a.1 :: b.1 :: c.1 :: d.1 :: rest := by
  obtain ⟨a, _, rfl, hb⟩ := exists_hexDigit_of_readStringFrom h
  obtain ⟨b, _, rfl, hc⟩ := exists_hexDigit_of_readStringFrom (hb (by decide))
  obtain ⟨c, _, rfl, hd⟩ := exists_hexDigit_of_readStringFrom (hc (by decide))
  obtain ⟨d, rest, rfl, -⟩ := exists_hexDigit_of_readStringFrom (hd (by decide))
  exact ⟨a, b, c, d, rest, rfl⟩

/-- Between parts stands a part, or the closing quote. -/
theorem exists_part_of_readStringFrom {half : Option Nat} {taken text rest : List Char}
    {s : String} (h : readStringFrom (.between half) taken text = some (s, rest)) :
    text = '"' :: rest ∨ ∃ (part : StringPart) (tail : List Char), text = part.text ++ tail := by
  have hcode : ∀ {half : Option Nat} {tail : List Char},
      readStringFrom (.code half 4 0) taken tail = some (s, rest) →
      ∃ (part : StringPart) (rest : List Char), '\\' :: 'u' :: tail = part.text ++ rest := by
    intro half tail h
    obtain ⟨a, b, c, d, rest, rfl⟩ := exists_code_of_readStringFrom h
    exact ⟨.code a b c d, rest, rfl⟩
  cases text with
  | nil => cases half <;> cases h
  | cons c tail =>
      cases half with
      | none =>
          rw [StringState.between, readStringFrom] at h
          split at h
          · next hquote =>
              cases h
              exact .inl (by rw [hquote])
          split at h
          · next hbackslash =>
              subst hbackslash
              cases tail with
              | nil => cases h
              | cons letter tail =>
                  rw [readStringFrom] at h
                  split at h
                  · next hu =>
                      subst hu
                      exact .inr (hcode h)
                  · split at h
                    · next meant hmeant => exact .inr ⟨.escape letter meant hmeant, tail, rfl⟩
                    · cases h
          split at h
          · cases h
          · next hquote hbackslash hcontrol =>
              exact .inr ⟨.plain c hquote hbackslash hcontrol, tail, rfl⟩
      | some first =>
          rw [StringState.between, readStringFrom] at h
          split at h
          · next hbackslash =>
              subst hbackslash
              cases tail with
              | nil => cases h
              | cons letter tail =>
                  rw [readStringFrom] at h
                  split at h
                  · next hu =>
                      subst hu
                      exact .inr (hcode h)
                  · cases h
          · cases h

theorem length_text_pos (part : StringPart) : 0 < part.text.length := by
  cases part <;> exact Nat.succ_pos _

/-- What was read of a string up to its closing quote are parts. -/
theorem exists_parts_of_readStringFrom (half : Option Nat) (taken text : List Char)
    {s : String} {rest : List Char}
    (h : readStringFrom (.between half) taken text = some (s, rest)) :
    ∃ parts : List StringPart, text = parts.flatMap StringPart.text ++ '"' :: rest := by
  rcases exists_part_of_readStringFrom h with htext | ⟨part, tail, htext⟩
  · exact ⟨[], htext⟩
  · have hshorter : tail.length < text.length := by
      have := length_text_pos part
      rw [htext, List.length_append]
      omega
    rw [htext, readStringFrom_part] at h
    obtain ⟨step, -, hnext⟩ := Option.bind_eq_some_iff.1 h
    obtain ⟨parts, htail⟩ := exists_parts_of_readStringFrom step.1 _ tail hnext
    exact ⟨part :: parts, by rw [htext, htail, List.flatMap_cons, List.append_assoc]⟩
termination_by text.length
decreasing_by exact hshorter

/-! ## Numbers -/

/-- Digits as they were read. -/
theorem exists_digits {text : List Char} (h : (text.takeWhile isDigit).isEmpty = false) :
    ∃ digits : Digits, digits.1 = text.takeWhile isDigit ∧
      text = digits.1 ++ text.dropWhile isDigit :=
  ⟨⟨text.takeWhile isDigit, List.isEmpty_eq_false_iff.1 h, fun _ hc => List.mem_takeWhile_imp hc⟩,
    rfl, List.takeWhile_append_dropWhile.symm⟩

theorem exists_fraction_of_readFraction {text rest : List Char} {found : Option (List Char)}
    (h : readFraction text = some (found, rest)) :
    ∃ fraction, text = NumberForm.fractionText fraction ++ rest := by
  unfold readFraction at h
  split at h
  · next tail =>
      dsimp only at h
      split at h
      · cases h
      · next hne =>
          obtain ⟨digits, -, htext⟩ := exists_digits (by simpa using hne)
          cases h
          exact ⟨some digits, congrArg ('.' :: ·) htext⟩
  · cases h
    exact ⟨none, rfl⟩

/-- Behind an exponent mark stand digits, perhaps with a sign. -/
theorem exists_digits_of_readExponent {capital : Bool} {tail rest : List Char}
    {found : Option Int} (h : readExponent (Exponent.mark capital :: tail) = some (found, rest)) :
    ∃ minus unsigned, tail = Exponent.signText minus ++ unsigned ∧
      (unsigned.takeWhile isDigit).isEmpty = false ∧ unsigned.dropWhile isDigit = rest := by
  cases capital <;>
  · simp only [Exponent.mark, readExponent, if_true, Bool.false_eq_true, if_false] at h
    split at h
    · split at h
      · cases h
      · next hne =>
          cases h
          exact ⟨some true, _, rfl, by simpa using hne, rfl⟩
    · split at h
      · cases h
      · next hne =>
          cases h
          exact ⟨some false, _, rfl, by simpa using hne, rfl⟩
    · split at h
      · cases h
      · next hne =>
          cases h
          exact ⟨none, _, rfl, by simpa using hne, rfl⟩

theorem exists_exponent_of_readExponent {text rest : List Char} {found : Option Int}
    (h : readExponent text = some (found, rest)) :
    ∃ exponent, text = NumberForm.exponentText exponent ++ rest := by
  by_cases hmark : ∃ capital tail, text = Exponent.mark capital :: tail
  · obtain ⟨capital, tail, rfl⟩ := hmark
    obtain ⟨minus, unsigned, rfl, hne, rfl⟩ := exists_digits_of_readExponent h
    obtain ⟨digits, -, htext⟩ := exists_digits hne
    refine ⟨some ⟨capital, minus, digits⟩, ?_⟩
    rw [NumberForm.exponentText, Exponent.text, List.cons_append, List.append_assoc, ← htext]
  · have hnone : readExponent text = some (none, text) := by
      refine readExponent_none fun c hc => ⟨?_, ?_⟩ <;> rintro rfl
      · obtain ⟨tail, rfl⟩ := List.head?_eq_some_iff.1 hc
        exact hmark ⟨false, tail, rfl⟩
      · obtain ⟨tail, rfl⟩ := List.head?_eq_some_iff.1 hc
        exact hmark ⟨true, tail, rfl⟩
    rw [hnone] at h
    cases h
    exact ⟨none, rfl⟩

theorem exists_form_of_readNumberForm {text rest : List Char} {n : Number}
    (h : readNumberForm text = some (n, rest)) :
    ∃ form : NumberForm, text = form.text ++ rest := by
  unfold readNumberForm at h
  split at h
  next negative unsigned hsign =>
    have htext : text = sign negative ++ unsigned := by
      split at hsign <;> cases hsign <;> rfl
    dsimp only at h
    split at h
    · cases h
    · next hform =>
        rw [not_or] at hform
        obtain ⟨whole, hwhole, hunsigned⟩ := exists_digits (by simpa using hform.1)
        rw [← hwhole] at hform
        split at h
        · cases h
        · next found tail hfraction =>
            obtain ⟨fraction, hfraction⟩ := exists_fraction_of_readFraction hfraction
            split at h
            · cases h
            · next found' tail' hexponent =>
                obtain ⟨exponent, hexponent⟩ := exists_exponent_of_readExponent hexponent
                have hrest : tail' = rest := by
                  split at h <;> cases h <;> rfl
                rw [hfraction, hexponent, hrest] at hunsigned
                refine ⟨⟨negative, whole, hform.2, fraction, exponent⟩, ?_⟩
                rw [htext, hunsigned]
                simp only [NumberForm.text, List.append_assoc]

theorem exists_form_of_readNumber {text rest : List Char} {n : Number}
    (h : readNumber text = some (n, rest)) : ∃ form : NumberForm, text = form.text ++ rest := by
  unfold readNumber at h
  split at h
  · next hread =>
      obtain ⟨form, hform⟩ := exists_form_of_readNumberForm hread
      split at h
      · cases h
        exact ⟨form, hform⟩
      · cases h
  · cases h

/-! ## Values -/

theorem exists_gap (text : List Char) : ∃ gap, Blank gap ∧ text = gap ++ skipGap text :=
  ⟨text.takeWhile isGap, fun _ hc => List.mem_takeWhile_imp hc,
    List.takeWhile_append_dropWhile.symm⟩

/-- A character behind a gap. -/
theorem exists_gap_of_skipGap {text rest : List Char} {c : Char} (h : skipGap text = c :: rest) :
    ∃ gap, Blank gap ∧ text = gap ++ c :: rest := by
  obtain ⟨gap, hgap, htext⟩ := exists_gap text
  rw [h] at htext
  exact ⟨gap, hgap, htext⟩

theorem exists_quoted_of_readString {text rest : List Char} {s : String}
    (h : readString text = .ok (s, rest)) :
    ∃ gap parts, Blank gap ∧ text = gap ++ (quoted parts ++ rest) := by
  unfold readString at h
  split at h
  · next inside hskip =>
      split at h
      · next result hread =>
          cases h
          obtain ⟨gap, hgap, rfl⟩ := exists_gap_of_skipGap hskip
          obtain ⟨parts, rfl⟩ := exists_parts_of_readStringFrom none [] inside hread
          refine ⟨gap, parts, hgap, ?_⟩
          simp [quoted]
      · cases h
  · cases h

theorem exists_of_collect {α : Type} {item : Reader α} {taken taken' : List α}
    {text rest : List Char} (h : collect item taken text = .ok (taken', rest)) :
    ∃ v, item text = .ok (v, rest) := by
  unfold collect at h
  split at h
  · cases h
  · next v _ hitem =>
      cases h
      exact ⟨v, hitem⟩

theorem exists_of_withKey {α : Type} {item : Reader α} {key : String} {entry : String × α}
    {text rest : List Char} (h : withKey key item text = .ok (entry, rest)) :
    ∃ v, item text = .ok (v, rest) := by
  unfold withKey at h
  split at h
  · cases h
  · next v _ hitem =>
      cases h
      exact ⟨v, hitem⟩

/-- What a reader of a value reads at some depth is a tree behind a gap. -/
def ReadsTrees (rounds depth : Nat) : Prop :=
  ∀ (text rest : List Char) (v : Value), readValue rounds depth text = .ok (v, rest) →
    ∃ gap s body, Blank gap ∧ Laid .plain s body ∧ text = gap ++ (body ++ rest)

/-- The items of a list are trees if what is read at their depth are. -/
theorem ReadsTrees.exists_items {rounds depth n : Nat} (h : ReadsTrees rounds depth)
    {taken items : List Value} {text rest : List Char}
    (hread : readElements (collect (readValue rounds depth)) n taken text = .ok (items, rest)) :
    ∃ sources body, LaidItems .plain sources body ∧ text = body ++ rest := by
  induction n generalizing taken text with
  | zero => cases hread
  | succ n ih =>
      rw [readElements] at hread
      split at hread
      · cases hread
      · next state behind hitem =>
          obtain ⟨v, hvalue⟩ := exists_of_collect hitem
          obtain ⟨front, s, body, hfront, hbody, rfl⟩ := h _ _ _ hvalue
          split at hread
          · next others hcomma =>
              obtain ⟨back, hback, rfl⟩ := exists_gap_of_skipGap hcomma
              obtain ⟨sources, tail, htail, rfl⟩ := ih hread
              refine ⟨_, _, .cons hfront hbody hback htail, ?_⟩
              simp
          · next others hbracket =>
              obtain ⟨back, hback, rfl⟩ := exists_gap_of_skipGap hbracket
              cases hread
              refine ⟨_, _, .last hfront hbody hback, ?_⟩
              simp
          · cases hread

theorem ReadsTrees.exists_entries {rounds depth n : Nat} (h : ReadsTrees rounds depth)
    {taken entries : List (String × Value)} {text rest : List Char}
    (hread : readEntries readString (fun key => collect (withKey key (readValue rounds depth))) n
      taken text = .ok (entries, rest)) :
    ∃ sources body, LaidEntries .plain sources body ∧ text = body ++ rest := by
  induction n generalizing taken text with
  | zero => cases hread
  | succ n ih =>
      rw [readEntries] at hread
      split at hread
      · cases hread
      · next name behind hkey =>
          obtain ⟨front, key, hfront, rfl⟩ := exists_quoted_of_readString hkey
          split at hread
          · next behind' hcolon =>
              obtain ⟨middle, hmiddle, rfl⟩ := exists_gap_of_skipGap hcolon
              split at hread
              · cases hread
              · next state behind hentry =>
                  obtain ⟨entry, hentry⟩ := exists_of_collect hentry
                  obtain ⟨v, hvalue⟩ := exists_of_withKey hentry
                  obtain ⟨gap, s, body, hgap, hbody, rfl⟩ := h _ _ _ hvalue
                  split at hread
                  · next others hcomma =>
                      obtain ⟨back, hback, rfl⟩ := exists_gap_of_skipGap hcomma
                      obtain ⟨sources, tail, htail, rfl⟩ := ih hread
                      refine ⟨(key, s) :: sources, _,
                        .cons hfront hmiddle hgap hbody hback htail, ?_⟩
                      simp
                  · next others hbrace =>
                      obtain ⟨back, hback, rfl⟩ := exists_gap_of_skipGap hbrace
                      cases hread
                      refine ⟨[(key, s)], _, .last hfront hmiddle hgap hbody hback, ?_⟩
                      simp
                  · cases hread
          · cases hread

theorem ReadsTrees.exists_array {rounds depth : Nat} (h : ReadsTrees rounds depth)
    {items : List Value} {text rest : List Char}
    (hread : readList (collect (readValue rounds depth)) rounds [] text = .ok (items, rest)) :
    ∃ sources body, Laid .plain (.array sources) ('[' :: body) ∧ text = body ++ rest := by
  unfold readList at hread
  split at hread
  · next behind hclose =>
      cases hread
      obtain ⟨gap, hgap, rfl⟩ := exists_gap_of_skipGap hclose
      refine ⟨[], gap ++ [']'], .emptyArray hgap, ?_⟩
      simp
  · rw [readElements_skipGap] at hread
    obtain ⟨sources, body, hbody, htext⟩ := h.exists_items hread
    exact ⟨sources, body, .array hbody, htext⟩

theorem ReadsTrees.exists_object {rounds depth : Nat} (h : ReadsTrees rounds depth)
    {entries : List (String × Value)} {text rest : List Char}
    (hread : readObject readString (fun key => collect (withKey key (readValue rounds depth)))
      rounds [] text = .ok (entries, rest)) :
    ∃ sources body, Laid .plain (.object sources) ('{' :: body) ∧ text = body ++ rest := by
  unfold readObject at hread
  split at hread
  · next behind hclose =>
      cases hread
      obtain ⟨gap, hgap, rfl⟩ := exists_gap_of_skipGap hclose
      refine ⟨[], gap ++ ['}'], .emptyObject hgap, ?_⟩
      simp
  · rw [readEntries_skipGap] at hread
    obtain ⟨sources, body, hbody, htext⟩ := h.exists_entries hread
    exact ⟨sources, body, .object hbody, htext⟩

theorem readsTrees_of_below {rounds depth : Nat}
    (h : ∀ below, depth = below + 1 → ReadsTrees rounds below) : ReadsTrees rounds depth := by
  intro text rest v hread
  unfold readValue at hread
  split at hread
  · next hskip =>
      cases hread
      obtain ⟨gap, hgap, rfl⟩ := exists_gap_of_skipGap hskip
      exact ⟨gap, _, _, hgap, .null, rfl⟩
  · next hskip =>
      cases hread
      obtain ⟨gap, hgap, rfl⟩ := exists_gap_of_skipGap hskip
      exact ⟨gap, _, _, hgap, .isTrue, rfl⟩
  · next hskip =>
      cases hread
      obtain ⟨gap, hgap, rfl⟩ := exists_gap_of_skipGap hskip
      exact ⟨gap, _, _, hgap, .isFalse, rfl⟩
  · next inside hskip =>
      obtain ⟨gap, hgap, rfl⟩ := exists_gap_of_skipGap hskip
      split at hread
      · next hstring =>
          cases hread
          obtain ⟨parts, rfl⟩ := exists_parts_of_readStringFrom none [] inside hstring
          refine ⟨gap, _, quoted parts, hgap, .string, ?_⟩
          simp [quoted]
      · cases hread
  · next inside hskip =>
      obtain ⟨gap, hgap, rfl⟩ := exists_gap_of_skipGap hskip
      split at hread
      · cases hread
      · next below =>
          split at hread
          · cases hread
          · next hlist =>
              cases hread
              obtain ⟨sources, body, hbody, rfl⟩ := ReadsTrees.exists_array (h below rfl) hlist
              exact ⟨gap, _, _, hgap, hbody, rfl⟩
  · next inside hskip =>
      obtain ⟨gap, hgap, rfl⟩ := exists_gap_of_skipGap hskip
      split at hread
      · cases hread
      · next below =>
          split at hread
          · cases hread
          · next hobject =>
              cases hread
              obtain ⟨sources, body, hbody, rfl⟩ := ReadsTrees.exists_object (h below rfl) hobject
              exact ⟨gap, _, _, hgap, hbody, rfl⟩
  · split at hread
    · next hnumber =>
        cases hread
        obtain ⟨form, hform⟩ := exists_form_of_readNumber hnumber
        obtain ⟨gap, hgap, htext⟩ := exists_gap text
        rw [hform] at htext
        exact ⟨gap, _, _, hgap, .number, htext⟩
    · cases hread

theorem readsTrees (rounds depth : Nat) : ReadsTrees rounds depth := by
  induction depth with
  | zero => exact readsTrees_of_below fun below heq => absurd heq (Nat.succ_ne_zero below).symm
  | succ depth ih => exact readsTrees_of_below fun below heq => Nat.succ.inj heq ▸ ih

/-! ## Whole texts -/

/-- A text is read as a value if and only if it is a tree of that value in plain layout. -/
theorem parse_eq_ok_iff {text : List Char} {v : Value} :
    parse text = .ok v ↔ ∃ s, Writes .plain s text ∧ s.value? maxDepth = some v := by
  constructor
  · intro h
    have hwrites : ∃ s, Writes .plain s text := by
      unfold parse readAll at h
      split at h
      · cases h
      · next v' rest hread =>
          split at h
          · next hend =>
              obtain ⟨gap, s, body, hgap, hbody, rfl⟩ := readsTrees _ _ _ _ _ hread
              obtain ⟨back, hback, hrest⟩ := exists_gap rest
              rw [List.isEmpty_iff.1 hend, List.append_nil] at hrest
              exact ⟨s, gap, body, rest, hgap, hbody, hrest ▸ hback, rfl⟩
          · cases h
    obtain ⟨s, hs⟩ := hwrites
    rw [parse_of_writes hs] at h
    cases hvalue : s.value? maxDepth with
    | none => rw [hvalue] at h; cases h
    | some v' =>
        rw [hvalue] at h
        cases h
        exact ⟨s, hs, hvalue⟩
  · rintro ⟨s, hs, hvalue⟩
    rw [parse_of_writes hs, hvalue]

end TreeLint.Json
