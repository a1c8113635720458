import TreeLint.Proofs.JsonGrammar

/-!
# Reading by the grammar

Reading a tree in plain layout gives the value of the tree, whatever its gaps are, and refuses the
text if the tree has none. So a reader cannot tell two plain layouts of one tree apart.

Strings and numbers come first. What a reader keeps between two parts of a string is at most the
first half of a pair, and `meaning?` keeps the same.
-/

namespace TreeLint.Json

/-! ## Strings -/

theorem HexDigit.hexDigit?_eq (d : HexDigit) : hexDigit? d.1 = some d.value :=
  (Option.some_get d.2).symm

/-- Where a reader stands between two parts of a string. -/
def StringState.between : (half : Option Nat) → StringState
  | none => .plain
  | some first => .paired first

theorem readStringFrom_code_plain (a b c d : HexDigit) (taken rest : List Char) :
    readStringFrom (.code none 4 0) taken (a.1 :: b.1 :: c.1 :: d.1 :: rest) =
      if isFirstHalf (StringPart.codeOf a b c d) then
        readStringFrom (.paired (StringPart.codeOf a b c d)) taken rest
      else if isSecondHalf (StringPart.codeOf a b c d) then none
      else readStringFrom .plain (Char.ofNat (StringPart.codeOf a b c d) :: taken) rest := by
  simp [readStringFrom, HexDigit.hexDigit?_eq, StringPart.codeOf]

theorem readStringFrom_code_paired (first : Nat) (a b c d : HexDigit) (taken rest : List Char) :
    readStringFrom (.code (some first) 4 0) taken (a.1 :: b.1 :: c.1 :: d.1 :: rest) =
      if isSecondHalf (StringPart.codeOf a b c d) then
        readStringFrom .plain (Char.ofNat
          (0x10000 + (first - 0xD800) * 0x400 + (StringPart.codeOf a b c d - 0xDC00)) :: taken) rest
      else none := by
  simp [readStringFrom, HexDigit.hexDigit?_eq, StringPart.codeOf]

/-- A reader takes a part in one step. -/
theorem readStringFrom_part (half : Option Nat) (part : StringPart) (taken rest : List Char) :
    readStringFrom (.between half) taken (part.text ++ rest) =
      (part.step? half).bind fun step =>
        readStringFrom (.between step.1) (step.2.reverse ++ taken) rest := by
  cases part with
  | plain c hquote hbackslash hcontrol =>
      rw [StringPart.text, List.singleton_append]
      cases half with
      | none =>
          rw [StringState.between, readStringFrom, if_neg hquote, if_neg hbackslash,
            if_neg hcontrol]
          rfl
      | some first =>
          rw [StringState.between, readStringFrom, if_neg hbackslash]
          rfl
  | escape letter meant hescape =>
      have hletter : letter ≠ 'u' := by
        rintro rfl
        cases hescape
      rw [StringPart.text, List.cons_append, List.singleton_append]
      cases half with
      | none =>
          rw [StringState.between, readStringFrom, if_neg (by decide), if_pos rfl, readStringFrom,
            if_neg hletter, hescape]
          rfl
      | some first =>
          rw [StringState.between, readStringFrom, if_pos rfl, readStringFrom, if_neg hletter]
          rfl
  | code a b c d =>
      simp only [StringPart.text, List.cons_append, List.nil_append]
      cases half with
      | none =>
          rw [StringState.between, readStringFrom, if_neg (by decide), if_pos rfl, readStringFrom,
            if_pos rfl, readStringFrom_code_plain, StringPart.step?]
          split
          · rfl
          split <;> rfl
      | some first =>
          rw [StringState.between, readStringFrom, if_pos rfl, readStringFrom, if_pos rfl,
            readStringFrom_code_paired, StringPart.step?]
          split <;> rfl

/-- Reading parts of a string up to its closing quote. -/
theorem readStringFrom_parts (half : Option Nat) (parts : List StringPart)
    (taken rest : List Char) :
    readStringFrom (.between half) taken (parts.flatMap StringPart.text ++ '"' :: rest) =
      (StringPart.meaning? half parts).map fun cs =>
        (String.ofList (taken.reverse ++ cs), rest) := by
  induction parts generalizing half taken with
  | nil => cases half <;> simp [StringState.between, readStringFrom, StringPart.meaning?]
  | cons part parts ih =>
      rw [List.flatMap_cons, List.append_assoc, readStringFrom_part, StringPart.meaning?]
      cases part.step? half with
      | none => rfl
      | some step =>
          rw [Option.bind_some, Option.bind_some, ih, Option.map_map]
          simp only [List.reverse_append, List.reverse_reverse, List.append_assoc]
          rfl

theorem readStringFrom_quoted (parts : List StringPart) (rest : List Char) :
    readStringFrom .plain [] (parts.flatMap StringPart.text ++ ['"'] ++ rest) =
      (stringOf? parts).map fun s => (s, rest) := by
  rw [List.append_assoc, List.singleton_append]
  have hparts := readStringFrom_parts none parts [] rest
  rw [StringState.between] at hparts
  rw [hparts, stringOf?, Option.map_map]
  rfl

/-! ## Numbers -/

theorem Digits.isEmpty_eq (digits : Digits) : digits.1.isEmpty = false :=
  List.isEmpty_eq_false_iff.2 digits.2.1

theorem Digits.exists_cons (digits : Digits) :
    ∃ c rest, digits.1 = c :: rest ∧ isDigit c = true := by
  obtain ⟨c, rest, hcons⟩ := List.exists_cons_of_ne_nil digits.2.1
  exact ⟨c, rest, hcons, digits.2.2 c (hcons ▸ List.mem_cons_self)⟩

namespace NumberForm

theorem readFraction_text (fraction : Option Digits) {rest : List Char}
    (hdigit : ∀ c ∈ rest.head?, isDigit c = false) (hpoint : ∀ c ∈ rest.head?, c ≠ '.') :
    readFraction (fractionText fraction ++ rest) = some (fraction.map (·.1), rest) := by
  cases fraction with
  | none => exact readFraction_none hpoint
  | some digits =>
      obtain ⟨htake, hdrop⟩ := span_digits digits.2.2 hdigit
      show readFraction ('.' :: (digits.1 ++ rest)) = _
      rw [readFraction, htake, hdrop, digits.isEmpty_eq]
      rfl

theorem readExponent_text (exponent : Option Exponent) {rest : List Char} (h : EndsNumber rest) :
    readExponent (exponentText exponent ++ rest) = some (exponent.map Exponent.value, rest) := by
  cases exponent with
  | none => exact readExponent_none fun c hc => (h c hc).2.2
  | some e =>
      obtain ⟨capital, sign, digits⟩ := e
      obtain ⟨htake, hdrop⟩ := span_digits digits.2.2 fun c hc => (h c hc).1
      cases sign with
      | some minus =>
          cases capital <;> cases minus <;>
            simp [exponentText, Exponent.text, Exponent.mark, Exponent.signText, readExponent,
              htake, hdrop, Exponent.value, digits.2.1]
      | none =>
          obtain ⟨c, tail, hcons, hc⟩ := digits.exists_cons
          have hfirst : ∀ d, isDigit d = false → ∀ others, digits.1 ++ rest ≠ d :: others := by
            intro d hd others heq
            rw [hcons, List.cons_append] at heq
            rw [← (List.cons.inj heq).1, hc] at hd
            cases hd
          cases capital <;>
          · simp only [exponentText, Exponent.text, Exponent.mark, Exponent.signText,
              List.nil_append, List.cons_append, readExponent, if_true, Bool.false_eq_true,
              if_false]
            split
            · next heq => exact absurd heq (hfirst '-' rfl _)
            · next heq => exact absurd heq (hfirst '+' rfl _)
            · rw [htake, hdrop, digits.isEmpty_eq]
              rfl

theorem head?_exponentText_append (exponent : Option Exponent) {rest : List Char}
    (h : EndsNumber rest) :
    ∀ c ∈ (exponentText exponent ++ rest).head?, isDigit c = false ∧ c ≠ '.' := by
  intro c hc
  rcases exponent with _ | ⟨capital, sign, digits⟩
  · exact ⟨(h c hc).1, (h c hc).2.1⟩
  · have hmark : ∀ b, isDigit (Exponent.mark b) = false ∧ Exponent.mark b ≠ '.' := by decide
    cases hc
    exact hmark capital

/-- The number that is written is read. -/
theorem readNumberForm_text (form : NumberForm) {rest : List Char} (h : EndsNumber rest) :
    readNumberForm (form.text ++ rest) = some (form.number, rest) := by
  obtain ⟨negative, whole, hform, fraction, exponent⟩ := form
  have hexponent := head?_exponentText_append exponent h
  have hfraction := readFraction_text fraction (fun c hc => (hexponent c hc).1)
    fun c hc => (hexponent c hc).2
  have htail : ∀ c ∈ (fractionText fraction ++ (exponentText exponent ++ rest)).head?,
      isDigit c = false := by
    intro c hc
    cases fraction with
    | none => exact (hexponent c hc).1
    | some digits =>
        cases hc
        rfl
  have hwhole : ¬ (whole.1.isEmpty = true ∨ 1 < whole.1.length ∧ whole.1.head? = some '0') := by
    rw [whole.isEmpty_eq, or_iff_right Bool.false_ne_true]
    exact hform
  rw [text, List.append_assoc, List.append_assoc, List.append_assoc,
    readNumberForm_sign negative whole.2.2 hwhole htail, hfraction]
  simp only [readExponent_text exponent h]
  cases fraction <;> cases exponent <;> rfl

theorem readNumber_text (form : NumberForm) {rest : List Char} (h : EndsNumber rest) :
    readNumber (form.text ++ rest) =
      if form.number.isAllowed then some (form.number, rest) else none := by
  rw [readNumber, readNumberForm_text form h]

theorem exists_text_eq_cons (form : NumberForm) :
    ∃ c tail, form.text = c :: tail ∧ StartsNumber c := by
  obtain ⟨c, digits, hcons, hc⟩ := form.whole.exists_cons
  rw [text, hcons]
  cases form.negative with
  | true => exact ⟨'-', _, rfl, .inl rfl⟩
  | false => exact ⟨c, _, rfl, .inr hc⟩

end NumberForm

/-! ## Values -/

/-- What a reader answers: a value with what follows it, or that the text is malformed. -/
def answer {α : Type} (v? : Option α) (rest : List Char) : Except Refusal (α × List Char) :=
  match v? with
  | some v => .ok (v, rest)
  | none => .error .malformed

/-- A tree starts with a character that is no blank and closes nothing. -/
theorem Laid.exists_cons {m : Manner} {s : Source} {text : List Char} (h : Laid m s text) :
    ∃ c tail, text = c :: tail ∧ isGap c = false ∧ c ≠ ']' := by
  cases h with
  | @number form =>
      obtain ⟨c, tail, hcons, hc⟩ := form.exists_text_eq_cons
      exact ⟨c, tail, hcons, hc.isGap_eq, hc.ne (by decide)⟩
  | null | isTrue | isFalse | string | emptyArray _ | array _ | emptyObject _ | object _ =>
      exact ⟨_, _, rfl, rfl, by decide⟩

theorem readValue_quoted (rounds depth : Nat) (parts : List StringPart) (rest : List Char) :
    readValue rounds depth (quoted parts ++ rest) =
      answer ((stringOf? parts).map .string) rest := by
  rw [readValue, quoted, List.cons_append, skipGap_cons rfl]
  simp only [readStringFrom_quoted]
  cases stringOf? parts <;> rfl

theorem readString_quoted {front : List Char} (h : Blank front) (parts : List StringPart)
    (rest : List Char) :
    readString (front ++ (quoted parts ++ rest)) = answer (stringOf? parts) rest := by
  rw [readString, quoted, List.cons_append, skipGap_gap h rfl]
  simp only [readStringFrom_quoted]
  cases stringOf? parts <;> rfl

theorem readValue_number (rounds depth : Nat) (form : NumberForm) {rest : List Char}
    (h : EndsNumber rest) : readValue rounds depth (form.text ++ rest) =
      answer ((Source.number form).value? depth) rest := by
  obtain ⟨c, tail, hcons, hc⟩ := form.exists_text_eq_cons
  have hread := form.readNumber_text h
  rw [hcons, List.cons_append] at hread
  rw [hcons, List.cons_append, readValue_eq_readNumber rounds depth hc, hread, Source.value?]
  cases form.number.isAllowed <;> rfl

theorem readValue_array_zero (rounds : Nat) (text : List Char) :
    readValue rounds 0 ('[' :: text) = .error .malformed := by
  rw [readValue, skipGap_cons rfl]
  rfl

theorem readValue_object_zero (rounds : Nat) (text : List Char) :
    readValue rounds 0 ('{' :: text) = .error .malformed := by
  rw [readValue, skipGap_cons rfl]
  rfl

/-- Reading a list comes to what its items come to. -/
theorem readValue_array_succ {rounds depth : Nat} {text rest : List Char}
    {items? : Option (List Value)}
    (h : readList (collect (readValue rounds depth)) rounds [] text =
      answer (items?.map List.reverse) rest) :
    readValue rounds (depth + 1) ('[' :: text) = answer (items?.map .array) rest := by
  cases items? with
  | none =>
      rw [readValue, skipGap_cons rfl]
      simp only [h]
      rfl
  | some items => exact readValue_array h

theorem readValue_object_succ {rounds depth : Nat} {text rest : List Char}
    {entries? : Option (List (String × Value))}
    (h : readObject readString (fun key => collect (withKey key (readValue rounds depth))) rounds []
      text = answer (entries?.map List.reverse) rest) :
    readValue rounds (depth + 1) ('{' :: text) = answer (entries?.map .object) rest := by
  cases entries? with
  | none =>
      rw [readValue, skipGap_cons rfl]
      simp only [h]
      rfl
  | some entries => exact readValue_object h

theorem LaidItems.exists_skipGap_eq_cons {items : List Source} {text : List Char}
    (h : LaidItems .plain items text) (rest : List Char) :
    ∃ c tail, skipGap (text ++ rest) = c :: tail ∧ c ≠ ']' := by
  cases h with
  | last hfront h | cons hfront h =>
    obtain ⟨c, tail, rfl, hgap, hc⟩ := h.exists_cons
    rw [List.append_assoc, skipGap_append hfront]
    exact ⟨c, _, skipGap_cons hgap _, hc⟩

theorem LaidEntries.exists_skipGap_eq_cons {entries : List (List StringPart × Source)}
    {text : List Char} (h : LaidEntries .plain entries text) (rest : List Char) :
    ∃ tail, skipGap (text ++ rest) = '"' :: tail := by
  cases h with
  | last hfront | cons hfront =>
    rw [List.append_assoc, skipGap_append hfront]
    exact ⟨_, rfl⟩

mutual

/-- A tree in plain layout is read as the value of the tree, up to what follows the text. -/
theorem readValue_laid {rounds : Nat} : {s : Source} → {text : List Char} → Laid .plain s text →
    (depth : Nat) → text.length ≤ rounds → {rest : List Char} → EndsNumber rest →
    readValue rounds depth (text ++ rest) = answer (s.value? depth) rest
  | _, _, .null, _, _, _, _ => by
      rw [readValue]
      rfl
  | _, _, .isTrue, _, _, _, _ => by
      rw [readValue]
      rfl
  | _, _, .isFalse, _, _, _, _ => by
      rw [readValue]
      rfl
  | _, _, .number, depth, _, _, hrest => readValue_number rounds depth _ hrest
  | _, _, .string, depth, _, rest, _ => readValue_quoted rounds depth _ rest
  | _, _, .emptyArray _, 0, _, _, _ => readValue_array_zero _ _
  | _, _, .emptyArray hgap, depth + 1, _, _, _ => by
      rw [List.cons_append, List.append_assoc]
      refine @readValue_array_succ _ _ _ _ (some []) ?_
      rw [readList, List.singleton_append, skipGap_gap hgap rfl]
      rfl
  | _, _, .array _, 0, _, _, _ => readValue_array_zero _ _
  | _, _, .array h, depth + 1, hrounds, rest, _ => by
      rw [List.length_cons] at hrounds
      obtain ⟨c, tail, htext, hc⟩ := h.exists_skipGap_eq_cons rest
      have hread := readElements_laid h depth (by omega : _ ≤ rounds) (by omega : _ ≤ rounds)
        [] rest
      rw [List.cons_append]
      refine readValue_array_succ ?_
      rw [readList_eq_readElements _ _ _ htext hc, readElements_skipGap, hread]
      simp only [List.append_nil]
  | _, _, .emptyObject _, 0, _, _, _ => readValue_object_zero _ _
  | _, _, .emptyObject hgap, depth + 1, _, _, _ => by
      rw [List.cons_append, List.append_assoc]
      refine @readValue_object_succ _ _ _ _ (some []) ?_
      rw [readObject, List.singleton_append, skipGap_gap hgap rfl]
      rfl
  | _, _, .object _, 0, _, _, _ => readValue_object_zero _ _
  | _, _, .object h, depth + 1, hrounds, rest, _ => by
      rw [List.length_cons] at hrounds
      obtain ⟨tail, htext⟩ := h.exists_skipGap_eq_cons rest
      have hread := readEntries_laid h depth (by omega : _ ≤ rounds) (by omega : _ ≤ rounds)
        [] rest
      rw [List.cons_append]
      refine readValue_object_succ ?_
      rw [readObject_eq_readEntries _ _ _ _ htext (by decide), readEntries_skipGap, hread]
      simp only [List.append_nil]

theorem readElements_laid {rounds : Nat} : {items : List Source} → {text : List Char} →
    LaidItems .plain items text → (depth : Nat) → {n : Nat} → text.length ≤ rounds →
    text.length ≤ n → (taken : List Value) → (rest : List Char) →
    readElements (collect (readValue rounds depth)) n taken (text ++ rest) =
      answer ((Source.values? items depth).map fun vs => vs.reverse ++ taken) rest
  | _, _, @LaidItems.last _ item front text back hfront h hback, depth, n, hrounds, hn, taken,
      rest => by
      simp only [List.length_append, List.length_singleton] at hrounds hn
      obtain ⟨n, rfl, -⟩ := exists_depth (by omega : back.length + 1 ≤ n)
      have hread := readValue_laid h depth (by omega : _ ≤ rounds)
        (endsNumber_gap hback (.inr (.inl rfl)) rest)
      rw [readElements, collect, List.append_assoc, List.append_assoc, List.append_assoc,
        List.singleton_append, readValue_append hfront, hread, Source.values?]
      cases item.value? depth with
      | none => rfl
      | some v =>
          simp only [answer, skipGap_gap hback (rfl : isGap ']' = false)]
          rfl
  | _, _, @LaidItems.cons _ item items front text back others hfront h hback hitems, depth, n,
      hrounds, hn, taken, rest => by
      simp only [List.length_append, List.length_cons] at hrounds hn
      obtain ⟨n, rfl, hothers⟩ := exists_depth (by omega : others.length + 1 ≤ n)
      have hread := readValue_laid h depth (by omega : _ ≤ rounds)
        (endsNumber_gap hback (.inl rfl) (others ++ rest))
      rw [readElements, collect, List.append_assoc, List.append_assoc, List.append_assoc,
        List.cons_append, readValue_append hfront, hread, Source.values?]
      cases item.value? depth with
      | none => rfl
      | some v =>
          have hread' := readElements_laid hitems depth (by omega : _ ≤ rounds) hothers
            (v :: taken) rest
          simp only [answer, skipGap_gap hback (rfl : isGap ',' = false)]
          rw [hread']
          cases Source.values? items depth with
          | none => rfl
          | some vs => simp [answer]

theorem readEntries_laid {rounds : Nat} : {entries : List (List StringPart × Source)} →
    {text : List Char} → LaidEntries .plain entries text → (depth : Nat) → {n : Nat} →
    text.length ≤ rounds → text.length ≤ n → (taken : List (String × Value)) →
    (rest : List Char) →
    readEntries readString (fun key => collect (withKey key (readValue rounds depth))) n taken
        (text ++ rest) =
      answer ((Source.entryValues? entries depth).map fun vs => vs.reverse ++ taken) rest
  | _, _, @LaidEntries.last _ key value front middle gap text back hfront hmiddle hgap h hback,
      depth, n, hrounds, hn, taken, rest => by
      simp only [List.length_append, List.length_cons, List.length_nil] at hrounds hn
      obtain ⟨n, rfl, -⟩ := exists_depth (by omega : back.length + 1 ≤ n)
      have hread := readValue_laid h depth (by omega : _ ≤ rounds)
        (endsNumber_gap hback (.inr (.inr rfl)) rest)
      rw [readEntries, List.append_assoc, List.append_assoc, readString_quoted hfront,
        Source.entryValues?]
      cases stringOf? key with
      | none => rfl
      | some k =>
          simp only [answer, List.append_assoc, List.cons_append, List.nil_append,
            skipGap_gap hmiddle (rfl : isGap ':' = false)]
          rw [collect, withKey, readValue_append hgap, hread]
          cases value.value? depth with
          | none => rfl
          | some v =>
              simp only [answer, skipGap_gap hback (rfl : isGap '}' = false)]
              rfl
  | _, _, @LaidEntries.cons _ key value entries front middle gap text back others hfront hmiddle
      hgap h hback hentries, depth, n, hrounds, hn, taken, rest => by
      simp only [List.length_append, List.length_cons] at hrounds hn
      obtain ⟨n, rfl, hothers⟩ := exists_depth (by omega : others.length + 1 ≤ n)
      have hread := readValue_laid h depth (by omega : _ ≤ rounds)
        (endsNumber_gap hback (.inl rfl) (others ++ rest))
      rw [readEntries, List.append_assoc, List.append_assoc, readString_quoted hfront,
        Source.entryValues?]
      cases stringOf? key with
      | none => rfl
      | some k =>
          simp only [answer, List.append_assoc, List.cons_append,
            skipGap_gap hmiddle (rfl : isGap ':' = false)]
          rw [collect, withKey, readValue_append hgap, hread]
          cases value.value? depth with
          | none => rfl
          | some v =>
              have hread' := readEntries_laid hentries depth (by omega : _ ≤ rounds) hothers
                ((k, v) :: taken) rest
              simp only [answer, skipGap_gap hback (rfl : isGap ',' = false)]
              rw [hread']
              cases Source.entryValues? entries depth with
              | none => rfl
              | some vs => simp [answer]

end

/-! ## Whole texts -/

/-- A whole text in plain layout is read as the value of its tree. -/
theorem parse_of_writes {s : Source} {text : List Char} (h : Writes .plain s text) :
    parse text = match s.value? maxDepth with
      | some v => .ok v
      | none => .error .malformed := by
  obtain ⟨front, body, back, hfront, hbody, hback, rfl⟩ := h
  have hlength : body.length ≤ (front ++ (body ++ back)).length := by
    rw [List.length_append, List.length_append]
    omega
  have hread := readValue_laid hbody maxDepth hlength (endsNumber_blank hback)
  have hskip : skipGap (back ++ []) = [] := skipGap_append hback []
  rw [List.append_nil] at hskip
  rw [parse, readAll, readValue_append hfront, hread]
  cases s.value? maxDepth with
  | none => rfl
  | some v =>
      simp only [answer, hskip]
      rfl

end TreeLint.Json
