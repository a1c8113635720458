import TreeLint.Proofs.WrittenScalars

/-!
# Reading what a text spells

A text spells a value if it is what a writer puts down for the value, with blanks wherever JSON lets
them stand. Every layout of a value is such a text, so what is proved of reading here holds for all
of them: a value is read from a text that spells it, and what follows the text is left alone.

Of what follows only its first character matters, and only behind a number, which would run on into
digits. The number of rounds is no limit, because each round of a list or object uses up at least
the character that ends an entry; the depth is one, and the nesting of the value has to stay within
it.
-/

namespace TreeLint.Json

/-! ## Texts that spell a value -/

/-- A text of blanks. -/
def Blank (text : List Char) : Prop := ∀ c ∈ text, isGap c = true

mutual

/-- A text spells a value, with blanks in front of it and wherever else JSON lets them stand. -/
inductive Spells : Value → List Char → Prop where
  | behind {v : Value} {gap text : List Char} (hgap : Blank gap) (h : Spells v text) :
      Spells v (gap ++ text)
  | null : Spells .null ['n', 'u', 'l', 'l']
  | isTrue : Spells (.bool true) ['t', 'r', 'u', 'e']
  | isFalse : Spells (.bool false) ['f', 'a', 'l', 's', 'e']
  | number {n : Number} (h : n.Kept) : Spells (.number n) (writeNumber n)
  | string {s : String} : Spells (.string s) (writeString s)
  | emptyArray {gap : List Char} (hgap : Blank gap) : Spells (.array []) ('[' :: (gap ++ [']']))
  | array {text : List Char} {items : List Value} (h : SpellsItems items text) :
      Spells (.array items) ('[' :: text)
  | emptyObject {gap : List Char} (hgap : Blank gap) :
      Spells (.object []) ('{' :: (gap ++ ['}']))
  | object {text : List Char} {entries : List (String × Value)} (h : SpellsEntries entries text) :
      Spells (.object entries) ('{' :: text)

/-- A text spells the items of a list, from behind its opening bracket on. -/
inductive SpellsItems : List Value → List Char → Prop where
  | last {item : Value} {text gap : List Char} (h : Spells item text) (hgap : Blank gap) :
      SpellsItems [item] (text ++ (gap ++ [']']))
  | cons {item : Value} {items : List Value} {text gap others : List Char} (h : Spells item text)
      (hgap : Blank gap) (hitems : SpellsItems items others) :
      SpellsItems (item :: items) (text ++ (gap ++ ',' :: others))

/-- A text spells the entries of an object, from behind its opening brace on. -/
inductive SpellsEntries : List (String × Value) → List Char → Prop where
  | last {key : String} {value : Value} {front middle text gap : List Char} (hfront : Blank front)
      (hmiddle : Blank middle) (h : Spells value text) (hgap : Blank gap) :
      SpellsEntries [(key, value)]
        (front ++ (writeString key ++ (middle ++ ':' :: (text ++ (gap ++ ['}'])))))
  | cons {key : String} {value : Value} {entries : List (String × Value)}
      {front middle text gap others : List Char} (hfront : Blank front) (hmiddle : Blank middle)
      (h : Spells value text) (hgap : Blank gap) (hentries : SpellsEntries entries others) :
      SpellsEntries ((key, value) :: entries)
        (front ++ (writeString key ++ (middle ++ ':' :: (text ++ (gap ++ ',' :: others)))))

end

namespace Value

mutual

/-- How many lists and objects of a value stand inside each other at most. -/
def nesting : Value → Nat
  | .array items => nestingItems items + 1
  | .object entries => nestingEntries entries + 1
  | _ => 0

def nestingItems : List Value → Nat
  | [] => 0
  | item :: rest => max item.nesting (nestingItems rest)

def nestingEntries : List (String × Value) → Nat
  | [] => 0
  | (_, value) :: rest => max value.nesting (nestingEntries rest)

end

end Value

/-! ## Blanks -/

theorem skipGap_append {gap : List Char} (h : Blank gap) (text : List Char) :
    skipGap (gap ++ text) = skipGap text := List.dropWhile_append_of_pos h

theorem skipGap_cons {c : Char} (h : isGap c = false) (text : List Char) :
    skipGap (c :: text) = c :: text :=
  List.dropWhile_cons_of_neg (by rw [h]; exact Bool.false_ne_true)

theorem skipGap_gap {gap : List Char} (h : Blank gap) {c : Char} (hc : isGap c = false)
    (text : List Char) : skipGap (gap ++ c :: text) = c :: text := by
  rw [skipGap_append h, skipGap_cons hc]

theorem skipGap_skipGap (text : List Char) : skipGap (skipGap text) = skipGap text := by
  induction text with
  | nil => rfl
  | cons c rest ih =>
      cases hc : isGap c with
      | true =>
          have hskip : skipGap (c :: rest) = skipGap rest := List.dropWhile_cons_of_pos hc
          rw [hskip, ih]
      | false => rw [skipGap_cons hc, skipGap_cons hc]

theorem endsNumber_nil : EndsNumber [] := fun _ h => by cases h

theorem ends_of_isGap {c : Char} (h : isGap c = true) :
    isDigit c = false ∧ c ≠ '.' ∧ c ≠ 'e' ∧ c ≠ 'E' := by
  simp only [isGap, Bool.or_eq_true, beq_iff_eq] at h
  rcases h with ((rfl | rfl) | rfl) | rfl <;> decide

theorem endsNumber_blank {gap : List Char} (h : Blank gap) : EndsNumber gap :=
  fun c hc => ends_of_isGap (h c (List.mem_of_mem_head? hc))

theorem endsNumber_gap {gap : List Char} (hgap : Blank gap) {c : Char}
    (hc : c = ',' ∨ c = ']' ∨ c = '}') (rest : List Char) : EndsNumber (gap ++ c :: rest) := by
  intro d hd
  cases gap with
  | nil =>
      cases hd
      rcases hc with rfl | rfl | rfl <;> decide
  | cons first gap =>
      cases hd
      exact ends_of_isGap (hgap _ List.mem_cons_self)

/-- A character that numbers start with. -/
def StartsNumber (c : Char) : Prop := c = '-' ∨ isDigit c = true

instance (c : Char) : Decidable (StartsNumber c) :=
  inferInstanceAs (Decidable (c = '-' ∨ isDigit c = true))

theorem exists_writeNumber_eq_cons (n : Number) :
    ∃ c tail, writeNumber n = c :: tail ∧ StartsNumber c := by
  have hwritten : ∀ (negative : Bool) (n : Nat) (rest : List Char),
      ∃ c tail, sign negative ++ (Nat.toDigits 10 n ++ rest) = c :: tail ∧ StartsNumber c := by
    intro negative n rest
    obtain ⟨c, digits, hcons⟩ := exists_toDigits_eq_cons n
    cases negative with
    | true => exact ⟨'-', _, rfl, .inl rfl⟩
    | false =>
        rw [hcons]
        exact ⟨c, _, rfl, .inr (isDigit_of_mem_toDigits (hcons ▸ List.mem_cons_self))⟩
  cases n with
  | integer value =>
      obtain ⟨negative, n, hn, -⟩ := writeNumber_integer value
      obtain ⟨c, tail, hcons, hc⟩ := hwritten negative n []
      rw [List.append_nil] at hcons
      exact ⟨c, tail, hn.trans hcons, hc⟩
  | decimal negative digits exponent =>
      obtain ⟨c, tail, hcons, hc⟩ := hwritten negative digits ('e' :: (toString exponent).toList)
      rw [← toList_toString, ← List.append_assoc] at hcons
      exact ⟨c, tail, hcons, hc⟩

theorem StartsNumber.ne {c d : Char} (h : StartsNumber c) (hd : ¬ StartsNumber d) : c ≠ d :=
  fun heq => hd (heq ▸ h)

theorem StartsNumber.isGap_eq {c : Char} (h : StartsNumber c) : isGap c = false := by
  simp only [isGap, Bool.or_eq_false_iff, beq_eq_false_iff_ne]
  exact ⟨⟨⟨h.ne (by decide), h.ne (by decide)⟩, h.ne (by decide)⟩, h.ne (by decide)⟩

/-- What a value is spelled with first, behind the blanks, closes nothing. -/
theorem Spells.exists_skipGap_eq_cons {v : Value} {text : List Char} (rest : List Char) :
    Spells v text → ∃ c tail, skipGap (text ++ rest) = c :: tail ∧ c ≠ ']'
  | .behind hgap h => by
      rw [List.append_assoc, skipGap_append hgap]
      exact h.exists_skipGap_eq_cons rest
  | @number n _ => by
      obtain ⟨c, tail, hcons, hc⟩ := exists_writeNumber_eq_cons n
      rw [hcons, List.cons_append, skipGap_cons hc.isGap_eq]
      exact ⟨c, _, rfl, hc.ne (by decide)⟩
  | .null | .isTrue | .isFalse | .string | .emptyArray _ | .array _ | .emptyObject _ | .object _ =>
      ⟨_, _, skipGap_cons rfl _, by decide⟩

/-! ## Readers -/

theorem readValue_skipGap (rounds depth : Nat) (text : List Char) :
    readValue rounds depth (skipGap text) = readValue rounds depth text := by
  unfold readValue
  rw [skipGap_skipGap]

theorem readElements_skipGap (rounds depth n : Nat) (taken : List Value) (text : List Char) :
    readElements (collect (readValue rounds depth)) n taken (skipGap text) =
      readElements (collect (readValue rounds depth)) n taken text := by
  cases n with
  | zero => rfl
  | succ n => rw [readElements, readElements, collect, collect, readValue_skipGap]

theorem readEntries_skipGap (rounds depth n : Nat) (taken : List (String × Value))
    (text : List Char) :
    readEntries readString (fun key => collect (withKey key (readValue rounds depth))) n taken
        (skipGap text) =
      readEntries readString (fun key => collect (withKey key (readValue rounds depth))) n taken
        text := by
  cases n with
  | zero => rfl
  | succ n => rw [readEntries, readEntries, readString, readString, skipGap_skipGap]

/-- Whether a list has items is decided by the first character behind the blanks. -/
theorem readList_eq_readElements {σ : Type} (element : σ → Reader σ) (rounds : Nat) (state : σ)
    {text tail : List Char} {c : Char} (htext : skipGap text = c :: tail) (hc : c ≠ ']') :
    readList element rounds state text = readElements element rounds state (skipGap text) := by
  rw [readList, htext]
  split
  · next h => exact absurd (List.cons.inj h).1 hc
  · rfl

theorem readObject_eq_readEntries {κ σ : Type} (key : Reader κ) (entry : κ → σ → Reader σ)
    (rounds : Nat) (state : σ) {text tail : List Char} {c : Char}
    (htext : skipGap text = c :: tail) (hc : c ≠ '}') :
    readObject key entry rounds state text = readEntries key entry rounds state (skipGap text) := by
  rw [readObject, htext]
  split
  · next h => exact absurd (List.cons.inj h).1 hc
  · rfl

theorem readString_writeString {front : List Char} (h : Blank front) (s : String)
    (rest : List Char) : readString (front ++ (writeString s ++ rest)) = .ok (s, rest) := by
  rw [readString, writeString, List.cons_append, skipGap_gap h rfl, List.append_assoc,
    List.singleton_append]
  simp only [readStringFrom_writeString]

theorem readValue_append {gap : List Char} (h : Blank gap) (rounds depth : Nat)
    (text : List Char) : readValue rounds depth (gap ++ text) = readValue rounds depth text := by
  rw [← readValue_skipGap, skipGap_append h, readValue_skipGap]

theorem readValue_writeString (rounds depth : Nat) (s : String) (rest : List Char) :
    readValue rounds depth (writeString s ++ rest) = .ok (.string s, rest) := by
  rw [readValue, writeString, List.cons_append, skipGap_cons rfl, List.append_assoc,
    List.singleton_append]
  simp only [readStringFrom_writeString]

theorem readValue_eq_readNumber (rounds depth : Nat) {c : Char} (hc : StartsNumber c)
    (text : List Char) : readValue rounds depth (c :: text) =
      match readNumber (c :: text) with
      | some (number, rest) => .ok (.number number, rest)
      | none => .error .malformed := by
  rw [readValue, skipGap_cons hc.isGap_eq]
  split
  · next heq => exact absurd (List.cons.inj heq).1 (hc.ne (by decide))
  · next heq => exact absurd (List.cons.inj heq).1 (hc.ne (by decide))
  · next heq => exact absurd (List.cons.inj heq).1 (hc.ne (by decide))
  · next heq => exact absurd (List.cons.inj heq).1 (hc.ne (by decide))
  · next heq => exact absurd (List.cons.inj heq).1 (hc.ne (by decide))
  · next heq => exact absurd (List.cons.inj heq).1 (hc.ne (by decide))
  · rfl

theorem readValue_writeNumber (rounds depth : Nat) {n : Number} (hn : n.Kept) {rest : List Char}
    (hrest : EndsNumber rest) :
    readValue rounds depth (writeNumber n ++ rest) = .ok (.number n, rest) := by
  obtain ⟨c, tail, hcons, hc⟩ := exists_writeNumber_eq_cons n
  have hread := readNumber_writeNumber hn hrest
  rw [hcons, List.cons_append] at hread
  rw [hcons, List.cons_append, readValue_eq_readNumber rounds depth hc, hread]

theorem readValue_array {rounds depth : Nat} {text rest : List Char} {items : List Value}
    (h : readList (collect (readValue rounds depth)) rounds [] text =
      .ok (items.reverse, rest)) :
    readValue rounds (depth + 1) ('[' :: text) = .ok (.array items, rest) := by
  rw [readValue, skipGap_cons rfl]
  simp only [h, List.reverse_reverse]

theorem readValue_object {rounds depth : Nat} {text rest : List Char}
    {entries : List (String × Value)}
    (h : readObject readString (fun key => collect (withKey key (readValue rounds depth))) rounds []
      text = .ok (entries.reverse, rest)) :
    readValue rounds (depth + 1) ('{' :: text) = .ok (.object entries, rest) := by
  rw [readValue, skipGap_cons rfl]
  simp only [h, List.reverse_reverse]

theorem exists_depth {n depth : Nat} (h : n + 1 ≤ depth) : ∃ d, depth = d + 1 ∧ n ≤ d :=
  ⟨depth - 1, by omega, by omega⟩

theorem SpellsEntries.exists_skipGap_eq_cons {entries : List (String × Value)} {text : List Char}
    (h : SpellsEntries entries text) (rest : List Char) :
    ∃ tail, skipGap (text ++ rest) = '"' :: tail := by
  cases h with
  | last hfront =>
    rw [List.append_assoc, skipGap_append hfront]
    exact ⟨_, rfl⟩
  | cons hfront =>
    rw [List.append_assoc, skipGap_append hfront]
    exact ⟨_, rfl⟩

theorem SpellsItems.exists_skipGap_eq_cons {items : List Value} {text : List Char}
    (h : SpellsItems items text) (rest : List Char) :
    ∃ c tail, skipGap (text ++ rest) = c :: tail ∧ c ≠ ']' := by
  cases h with
  | last h =>
    rw [List.append_assoc]
    exact h.exists_skipGap_eq_cons _
  | cons h =>
    rw [List.append_assoc]
    exact h.exists_skipGap_eq_cons _

mutual

/-- A value is read from a text that spells it, up to what follows the text. -/
theorem readValue_spells {rounds : Nat} : {v : Value} → {text : List Char} → Spells v text →
    {depth : Nat} → v.nesting ≤ depth → text.length ≤ rounds → {rest : List Char} →
    EndsNumber rest → readValue rounds depth (text ++ rest) = .ok (v, rest)
  | _, _, .behind hgap h, _, hdepth, hrounds, _, hrest => by
      rw [List.length_append] at hrounds
      rw [List.append_assoc, readValue_append hgap]
      exact readValue_spells h hdepth (by omega) hrest
  | _, _, .null, _, _, _, _, _ => by
      rw [readValue]
      rfl
  | _, _, .isTrue, _, _, _, _, _ => by
      rw [readValue]
      rfl
  | _, _, .isFalse, _, _, _, _, _ => by
      rw [readValue]
      rfl
  | _, _, .number h, depth, _, _, _, hrest => readValue_writeNumber rounds depth h hrest
  | _, _, .string, depth, _, _, rest, _ => readValue_writeString rounds depth _ rest
  | _, _, .emptyArray hgap, _, hdepth, _, _, _ => by
      obtain ⟨depth, rfl, -⟩ := exists_depth hdepth
      rw [List.cons_append, List.append_assoc]
      refine readValue_array ?_
      rw [readList, List.singleton_append, skipGap_gap hgap rfl]
      rfl
  | _, _, .array h, _, hdepth, hrounds, rest, _ => by
      rw [Value.nesting] at hdepth
      obtain ⟨depth, rfl, hinside⟩ := exists_depth hdepth
      rw [List.length_cons] at hrounds
      obtain ⟨c, tail, htext, hc⟩ := h.exists_skipGap_eq_cons rest
      have hread := readElements_spells h hinside (by omega : _ ≤ rounds) (by omega : _ ≤ rounds)
        [] rest
      rw [List.cons_append]
      refine readValue_array ?_
      rw [readList_eq_readElements _ _ _ htext hc, readElements_skipGap, hread, List.append_nil]
  | _, _, .emptyObject hgap, _, hdepth, _, _, _ => by
      obtain ⟨depth, rfl, -⟩ := exists_depth hdepth
      rw [List.cons_append, List.append_assoc]
      refine readValue_object ?_
      rw [readObject, List.singleton_append, skipGap_gap hgap rfl]
      rfl
  | _, _, .object h, _, hdepth, hrounds, rest, _ => by
      rw [Value.nesting] at hdepth
      obtain ⟨depth, rfl, hinside⟩ := exists_depth hdepth
      rw [List.length_cons] at hrounds
      obtain ⟨tail, htext⟩ := h.exists_skipGap_eq_cons rest
      have hread := readEntries_spells h hinside (by omega : _ ≤ rounds) (by omega : _ ≤ rounds)
        [] rest
      rw [List.cons_append]
      refine readValue_object ?_
      rw [readObject_eq_readEntries _ _ _ _ htext (by decide), readEntries_skipGap, hread,
        List.append_nil]

theorem readElements_spells {rounds : Nat} : {items : List Value} → {text : List Char} →
    SpellsItems items text → {depth n : Nat} → Value.nestingItems items ≤ depth →
    text.length ≤ rounds → text.length ≤ n → (taken : List Value) → (rest : List Char) →
    readElements (collect (readValue rounds depth)) n taken (text ++ rest) =
      .ok (items.reverse ++ taken, rest)
  | _, _, @SpellsItems.last _ _ gap h hgap, _, n, hdepth, hrounds, hn, taken, rest => by
      rw [Value.nestingItems, Nat.max_le] at hdepth
      simp only [List.length_append, List.length_singleton] at hrounds hn
      obtain ⟨n, rfl, -⟩ := exists_depth (by omega : gap.length + 1 ≤ n)
      have hread := readValue_spells h hdepth.1 (by omega : _ ≤ rounds)
        (endsNumber_gap hgap (.inr (.inl rfl)) rest)
      rw [readElements, collect, List.append_assoc, List.append_assoc, List.singleton_append, hread]
      simp only [skipGap_gap hgap (rfl : isGap ']' = false)]
      rfl
  | _, _, @SpellsItems.cons item _ _ _ others h hgap hitems, _, n, hdepth, hrounds, hn, taken,
      rest => by
      rw [Value.nestingItems, Nat.max_le] at hdepth
      simp only [List.length_append, List.length_cons] at hrounds hn
      obtain ⟨n, rfl, hothers⟩ := exists_depth (by omega : others.length + 1 ≤ n)
      have hread := readValue_spells h hdepth.1 (by omega : _ ≤ rounds)
        (endsNumber_gap hgap (.inl rfl) (others ++ rest))
      have hread' := readElements_spells hitems hdepth.2 (by omega : _ ≤ rounds) hothers
        (item :: taken) rest
      rw [readElements, collect, List.append_assoc, List.append_assoc, List.cons_append, hread]
      simp only [skipGap_gap hgap (rfl : isGap ',' = false)]
      rw [hread', List.reverse_cons, List.append_assoc]
      rfl

theorem readEntries_spells {rounds : Nat} : {entries : List (String × Value)} →
    {text : List Char} → SpellsEntries entries text → {depth n : Nat} →
    Value.nestingEntries entries ≤ depth → text.length ≤ rounds → text.length ≤ n →
    (taken : List (String × Value)) → (rest : List Char) →
    readEntries readString (fun key => collect (withKey key (readValue rounds depth))) n taken
      (text ++ rest) = .ok (entries.reverse ++ taken, rest)
  | _, _, @SpellsEntries.last _ _ _ _ _ gap hfront hmiddle h hgap, _, n, hdepth, hrounds, hn,
      taken, rest => by
      rw [Value.nestingEntries, Nat.max_le] at hdepth
      simp only [List.length_append, List.length_cons, List.length_nil] at hrounds hn
      obtain ⟨n, rfl, -⟩ := exists_depth (by omega : gap.length + 1 ≤ n)
      have hread := readValue_spells h hdepth.1 (by omega : _ ≤ rounds)
        (endsNumber_gap hgap (.inr (.inr rfl)) rest)
      rw [readEntries, List.append_assoc, List.append_assoc, readString_writeString hfront]
      simp only [List.append_assoc, List.cons_append, List.nil_append,
        skipGap_gap hmiddle (rfl : isGap ':' = false)]
      rw [collect, withKey, hread]
      simp only [skipGap_gap hgap (rfl : isGap '}' = false)]
      rfl
  | _, _, @SpellsEntries.cons key value _ _ _ _ _ others hfront hmiddle h hgap hentries, _, n,
      hdepth, hrounds, hn, taken, rest => by
      rw [Value.nestingEntries, Nat.max_le] at hdepth
      simp only [List.length_append, List.length_cons] at hrounds hn
      obtain ⟨n, rfl, hothers⟩ := exists_depth (by omega : others.length + 1 ≤ n)
      have hread := readValue_spells h hdepth.1 (by omega : _ ≤ rounds)
        (endsNumber_gap hgap (.inl rfl) (others ++ rest))
      have hread' := readEntries_spells hentries hdepth.2 (by omega : _ ≤ rounds) hothers
        ((key, value) :: taken) rest
      rw [readEntries, List.append_assoc, List.append_assoc, readString_writeString hfront]
      simp only [List.append_assoc, List.cons_append,
        skipGap_gap hmiddle (rfl : isGap ':' = false)]
      rw [collect, withKey, hread]
      simp only [skipGap_gap hgap (rfl : isGap ',' = false)]
      rw [hread', List.reverse_cons, List.append_assoc]
      rfl

end

/-! ## Whole texts -/

/-- A value that a text spells is read from it, unless it is nested too deeply. -/
theorem parse_of_spells {v : Value} {text : List Char} (h : Spells v text)
    (hdepth : v.nesting ≤ maxDepth) : parse text = .ok v := by
  have hread := readValue_spells h hdepth (Nat.le_refl _) endsNumber_nil
  rw [List.append_nil] at hread
  rw [parse, readAll, hread]
  rfl

/-! ## The layouts of a writer -/

namespace Value

mutual

/-- A value all of whose numbers are read back as they are. -/
def Kept : Value → Prop
  | .number n => n.Kept
  | .array items => KeptItems items
  | .object entries => KeptEntries entries
  | _ => True

def KeptItems : List Value → Prop
  | [] => True
  | item :: rest => item.Kept ∧ KeptItems rest

def KeptEntries : List (String × Value) → Prop
  | [] => True
  | (_, value) :: rest => value.Kept ∧ KeptEntries rest

end

end Value

theorem blank_nil : Blank [] := fun _ h => by cases h

theorem blank_space : Blank [' '] := by
  intro c hc
  rw [List.mem_singleton.1 hc]
  rfl

theorem blank_lineBreak (depth : Nat) : Blank (Value.lineBreak depth) := by
  intro c hc
  rcases List.mem_cons.1 hc with rfl | h
  · rfl
  · rw [List.eq_of_mem_replicate h]
    rfl

theorem Value.writeItems_cons (item next : Value) (others : List Value) :
    writeItems (item :: next :: others) = item.writeCompact ++ ',' :: writeItems (next :: others) :=
  rfl

theorem Value.writeEntries_cons (key : String) (value : Value) (next : String × Value)
    (others : List (String × Value)) :
    writeEntries ((key, value) :: next :: others) =
      writeString key ++ ':' :: value.writeCompact ++ ',' :: writeEntries (next :: others) := rfl

theorem Value.writeItemLines_cons (depth : Nat) (item next : Value) (others : List Value) :
    writeItemLines depth (item :: next :: others) =
      item.writeIndented depth ++ ',' :: lineBreak depth ++
        writeItemLines depth (next :: others) := rfl

theorem Value.writeEntryLines_cons (depth : Nat) (key : String) (value : Value)
    (next : String × Value) (others : List (String × Value)) :
    writeEntryLines depth ((key, value) :: next :: others) =
      writeString key ++ ':' :: ' ' :: value.writeIndented depth ++ ',' :: lineBreak depth ++
        writeEntryLines depth (next :: others) := rfl

mutual

/-- A value is spelled by its compact layout. -/
theorem spells_writeCompact : (v : Value) → v.Kept → Spells v v.writeCompact
  | .null, _ => .null
  | .bool true, _ => .isTrue
  | .bool false, _ => .isFalse
  | .number _, hv => .number hv
  | .string _, _ => .string
  | .array [], _ => .emptyArray blank_nil
  | .array (item :: rest), hv =>
      .array (spellsItems_writeItems (item :: rest) (List.cons_ne_nil _ _) hv)
  | .object [], _ => .emptyObject blank_nil
  | .object (entry :: rest), hv =>
      .object (spellsEntries_writeEntries (entry :: rest) (List.cons_ne_nil _ _) hv)

theorem spellsItems_writeItems : (items : List Value) → items ≠ [] → Value.KeptItems items →
    SpellsItems items (Value.writeItems items ++ [']'])
  | [], hne, _ => absurd rfl hne
  | [item], _, hv => .last (spells_writeCompact item hv.1) blank_nil
  | item :: next :: others, _, hv => by
      have hitem := spells_writeCompact item hv.1
      have hothers := spellsItems_writeItems (next :: others) (List.cons_ne_nil _ _) hv.2
      rw [Value.writeItems_cons, List.append_assoc]
      exact .cons hitem blank_nil hothers

theorem spellsEntries_writeEntries : (entries : List (String × Value)) → entries ≠ [] →
    Value.KeptEntries entries → SpellsEntries entries (Value.writeEntries entries ++ ['}'])
  | [], hne, _ => absurd rfl hne
  | [(key, value)], _, hv => by
      have hvalue := spells_writeCompact value hv.1
      rw [Value.writeEntries, List.append_assoc]
      exact .last blank_nil blank_nil hvalue blank_nil
  | (key, value) :: next :: others, _, hv => by
      have hvalue := spells_writeCompact value hv.1
      have hothers := spellsEntries_writeEntries (next :: others) (List.cons_ne_nil _ _) hv.2
      rw [Value.writeEntries_cons, List.append_assoc, List.append_assoc]
      exact .cons blank_nil blank_nil hvalue blank_nil hothers

end

mutual

/-- A value is spelled by its indented layout, at whatever depth its line starts. -/
theorem spells_writeIndented : (v : Value) → v.Kept → (depth : Nat) →
    Spells v (v.writeIndented depth)
  | .null, _, _ => .null
  | .bool true, _, _ => .isTrue
  | .bool false, _, _ => .isFalse
  | .number _, hv, _ => .number hv
  | .string _, _, _ => .string
  | .array [], _, _ => .emptyArray blank_nil
  | .array (item :: rest), hv, depth =>
      .array (spellsItems_writeItemLines (item :: rest) (List.cons_ne_nil _ _) hv (depth + 1)
        (blank_lineBreak depth))
  | .object [], _, _ => .emptyObject blank_nil
  | .object (entry :: rest), hv, depth =>
      .object (spellsEntries_writeEntryLines (entry :: rest) (List.cons_ne_nil _ _) hv (depth + 1)
        (blank_lineBreak depth))

theorem spellsItems_writeItemLines : (items : List Value) → items ≠ [] → Value.KeptItems items →
    (depth : Nat) → {gap : List Char} → Blank gap →
    SpellsItems items (Value.lineBreak depth ++ Value.writeItemLines depth items ++ gap ++ [']'])
  | [], hne, _, _, _, _ => absurd rfl hne
  | [item], _, hv, depth, gap, hgap => by
      have hitem := Spells.behind (blank_lineBreak depth) (spells_writeIndented item hv.1 depth)
      rw [Value.writeItemLines, List.append_assoc]
      exact .last hitem hgap
  | item :: next :: others, _, hv, depth, gap, hgap => by
      have hitem := Spells.behind (blank_lineBreak depth) (spells_writeIndented item hv.1 depth)
      have hothers :=
        spellsItems_writeItemLines (next :: others) (List.cons_ne_nil _ _) hv.2 depth hgap
      have htext := SpellsItems.cons hitem blank_nil hothers
      rw [Value.writeItemLines_cons]
      simpa only [List.append_assoc, List.cons_append, List.nil_append] using htext

theorem spellsEntries_writeEntryLines : (entries : List (String × Value)) → entries ≠ [] →
    Value.KeptEntries entries → (depth : Nat) → {gap : List Char} → Blank gap →
    SpellsEntries entries
      (Value.lineBreak depth ++ Value.writeEntryLines depth entries ++ gap ++ ['}'])
  | [], hne, _, _, _, _ => absurd rfl hne
  | [(key, value)], _, hv, depth, gap, hgap => by
      have hvalue := Spells.behind blank_space (spells_writeIndented value hv.1 depth)
      have htext : SpellsEntries [(key, value)] _ :=
        .last (blank_lineBreak depth) blank_nil hvalue hgap
      rw [Value.writeEntryLines]
      simpa only [List.append_assoc, List.cons_append, List.nil_append] using htext
  | (key, value) :: next :: others, _, hv, depth, gap, hgap => by
      have hvalue := Spells.behind blank_space (spells_writeIndented value hv.1 depth)
      have hothers :=
        spellsEntries_writeEntryLines (next :: others) (List.cons_ne_nil _ _) hv.2 depth hgap
      have htext : SpellsEntries ((key, value) :: next :: others) _ :=
        .cons (blank_lineBreak depth) blank_nil hvalue blank_nil hothers
      rw [Value.writeEntryLines_cons]
      simpa only [List.append_assoc, List.cons_append, List.nil_append] using htext

end

end TreeLint.Json
