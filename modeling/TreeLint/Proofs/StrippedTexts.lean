import TreeLint.Json.Decorated
import TreeLint.Proofs.AcceptedTexts

/-!
# Stripping decorated texts

Stripping goes over a text once and looks back at what it has kept only at a closing bracket. So
what it makes of a part of a text does not depend on what came before, as long as the part does not
begin with a closing bracket (`Stripped`): it puts the stripped part behind what was kept, and
stands between tokens again. Gaps come to blanks, tokens to themselves. At a closing bracket a comma
is dropped, with the blanks behind it, and it is a trailing one: what an item ends with is neither a
blank nor a comma.

What is left is the same tree in plain layout. Where the layout was plain, nothing is dropped, which
is carried along by each step (`Stripped.same`).
-/

namespace TreeLint.Json

/-- Stripping a part of a text leaves another one, and the same one if its layout is plain. -/
structure Stripped (m : Manner) (text left : List Char) : Prop where
  stripFrom_eq (written rest : List Char) :
    stripFrom .code written (text ++ rest) = stripFrom .code (left.reverse ++ written) rest
  same : m = .plain → left = text

variable {m : Manner}

/-! ## Parts -/

namespace Stripped

theorem nil : Stripped m [] [] := ⟨fun _ _ => rfl, fun _ => rfl⟩

theorem append {text text' left left' : List Char} (h : Stripped m text left)
    (h' : Stripped m text' left') : Stripped m (text ++ text') (left ++ left') where
  stripFrom_eq written rest := by
    rw [List.append_assoc, h.stripFrom_eq, h'.stripFrom_eq, List.reverse_append, List.append_assoc]
  same hm := by rw [h.same hm, h'.same hm]

/-- A character that stripping keeps, and that it keeps nothing in mind by. -/
def Passes (c : Char) : Prop := c ≠ '/' ∧ c ≠ '}' ∧ c ≠ ']' ∧ c ≠ '"'

instance (c : Char) : Decidable (Passes c) :=
  inferInstanceAs (Decidable (c ≠ '/' ∧ c ≠ '}' ∧ c ≠ ']' ∧ c ≠ '"'))

theorem stripFrom_passes {c : Char} (hc : Passes c) (written rest : List Char) :
    stripFrom .code written (c :: rest) = stripFrom .code (c :: written) rest := by
  obtain ⟨hslash, hbrace, hbracket, hquote⟩ := hc
  rw [stripFrom, if_neg fun h => hslash h.1, if_neg fun h => hslash h.1,
    if_neg (not_or.2 ⟨hbrace, hbracket⟩), if_neg hquote]

theorem passes {text : List Char} (h : ∀ c ∈ text, Passes c) : Stripped m text text where
  stripFrom_eq written rest := by
    induction text generalizing written with
    | nil => rfl
    | cons c others ih =>
        obtain ⟨hc, hothers⟩ := List.forall_mem_cons.1 h
        rw [List.cons_append, stripFrom_passes hc, ih hothers, List.reverse_cons, List.append_assoc,
          List.singleton_append]
  same _ := rfl

/-- A text of characters that pass stays as it is, by computation. -/
theorem word {text : List Char} (h : text.all (fun c => decide (Passes c)) = true) :
    Stripped m text text :=
  passes fun c hc => of_decide_eq_true (List.all_eq_true.1 h c hc)

theorem cons {c : Char} {text left : List Char} (hc : Passes c) (h : Stripped m text left) :
    Stripped m (c :: text) (c :: left) :=
  (passes (List.forall_mem_singleton.2 hc)).append h

/-! ## Tokens -/

theorem stripFrom_part (part : StringPart) (written rest : List Char) :
    stripFrom .string written (part.text ++ rest) =
      stripFrom .string (part.text.reverse ++ written) rest := by
  have hdigit : ∀ d : HexDigit, d.1 ≠ '\\' ∧ d.1 ≠ '"' := by
    rintro ⟨d, hd⟩
    constructor <;> rintro rfl <;> cases hd
  cases part with
  | plain c hquote hbackslash _ =>
      rw [StringPart.text, List.singleton_append, stripFrom, if_neg hbackslash, if_neg hquote]
      rfl
  | escape letter meant _ =>
      rw [StringPart.text, List.cons_append, List.singleton_append, stripFrom, if_pos rfl,
        stripFrom]
      rfl
  | code a b c d =>
      simp only [StringPart.text, List.cons_append, List.nil_append]
      rw [stripFrom, if_pos rfl, stripFrom, stripFrom, if_neg (hdigit a).1, if_neg (hdigit a).2,
        stripFrom, if_neg (hdigit b).1, if_neg (hdigit b).2, stripFrom, if_neg (hdigit c).1,
        if_neg (hdigit c).2, stripFrom, if_neg (hdigit d).1, if_neg (hdigit d).2]
      rfl

theorem stripFrom_parts (parts : List StringPart) (written rest : List Char) :
    stripFrom .string written (parts.flatMap StringPart.text ++ rest) =
      stripFrom .string ((parts.flatMap StringPart.text).reverse ++ written) rest := by
  induction parts generalizing written with
  | nil => rfl
  | cons part parts ih =>
      rw [List.flatMap_cons, List.append_assoc, stripFrom_part, ih, List.reverse_append,
        List.append_assoc]

/-- A string stays as it is, whatever is in it. -/
theorem quoted (parts : List StringPart) : Stripped m (quoted parts) (quoted parts) where
  stripFrom_eq written rest := by
    rw [Json.quoted, List.cons_append, stripFrom, if_neg fun h => absurd h.1 (by decide),
      if_neg fun h => absurd h.1 (by decide), if_neg (by decide), if_pos rfl, List.append_assoc,
      stripFrom_parts, List.singleton_append, stripFrom, if_neg (by decide), if_pos rfl]
    simp
  same _ := rfl

theorem passes_of_isDigit {c : Char} (h : isDigit c = true) : Passes c := by
  refine ⟨?_, ?_, ?_, ?_⟩ <;> rintro rfl <;> cases h

theorem passes_of_isGap {c : Char} (h : isGap c = true) : Passes c := by
  refine ⟨?_, ?_, ?_, ?_⟩ <;> rintro rfl <;> cases h

theorem digits (digits : Digits) : Stripped m digits.1 digits.1 :=
  passes fun c hc => passes_of_isDigit (digits.2.2 c hc)

theorem number (form : NumberForm) : Stripped m form.text form.text := by
  have hsign : ∀ b, Stripped m (sign b) (sign b) := by
    rintro (_ | _) <;> exact word rfl
  have hexponentSign : ∀ minus, Stripped m (Exponent.signText minus) (Exponent.signText minus) := by
    rintro (_ | _ | _) <;> exact word rfl
  have hmark : ∀ b, Passes (Exponent.mark b) := by decide
  refine (hsign _).append ((digits _).append (.append ?_ ?_))
  · cases form.fraction with
    | none => exact nil
    | some decimals => exact .cons (by decide) (digits decimals)
  · cases form.exponent with
    | none => exact nil
    | some e => exact .cons (hmark _) ((hexponentSign _).append (digits e.digits))

/-! ## Gaps -/

theorem stripFrom_line {inside : List Char} (h : '\n' ∉ inside) (written rest : List Char) :
    stripFrom .code written ('/' :: '/' :: (inside ++ rest)) =
      stripFrom .lineComment written rest := by
  rw [stripFrom, if_pos ⟨rfl, rfl⟩, stripFrom, if_neg (by decide)]
  induction inside with
  | nil => rfl
  | cons c others ih =>
      obtain ⟨hc, hothers⟩ := not_or.1 (mt List.mem_cons.2 h)
      rw [List.cons_append, stripFrom, if_neg (Ne.symm hc), ih hothers]

theorem stripFrom_blockComment {inside : List Char} (h : ¬ ['*', '/'] <:+: inside) (star : Bool)
    (hstar : star = true → inside.head? ≠ some '/') (written rest : List Char) :
    stripFrom (.blockComment star) written (inside ++ '*' :: '/' :: rest) =
      stripFrom .code written rest := by
  -- `star` and the first character never close the comment together: that is kept by each step
  induction inside generalizing star with
  | nil =>
      rw [List.nil_append, stripFrom, if_neg (by simp), stripFrom, if_pos (by simp)]
  | cons c others ih =>
      have hc : ¬ (star = true ∧ c = '/') := by
        rintro ⟨hs, rfl⟩
        exact hstar hs rfl
      rw [List.cons_append, stripFrom, if_neg hc]
      refine ih (fun hin => h (hin.trans (List.suffix_cons c others).isInfix)) _ fun hs hhead => ?_
      obtain ⟨tail, rfl⟩ := List.head?_eq_some_iff.1 hhead
      rw [beq_iff_eq] at hs
      subst hs
      exact h ⟨[], tail, rfl⟩

theorem blank {gap : List Char} (h : Blank gap) : Stripped m gap gap :=
  passes fun c hc => passes_of_isGap (h c hc)

/-- Blanks and comments come to blanks. Of a line comment the end of its line is left. -/
theorem decoration {text : List Char} (h : Decoration text) :
    ∃ left, Blank left ∧ Stripped .decorated text left := by
  induction h with
  | nil => exact ⟨[], blank_nil, nil⟩
  | @blank c rest hc _ ih =>
      obtain ⟨left, hleft, hstrip⟩ := ih
      exact ⟨c :: left, List.forall_mem_cons.2 ⟨hc, hleft⟩, hstrip.cons (passes_of_isGap hc)⟩
  | @line inside rest hinside _ ih =>
      obtain ⟨left, hleft, hstrip⟩ := ih
      refine ⟨'\n' :: left, List.forall_mem_cons.2 ⟨rfl, hleft⟩, fun written more => ?_, nofun⟩
      simp only [List.cons_append, List.append_assoc]
      rw [stripFrom_line hinside, stripFrom, if_pos rfl, hstrip.stripFrom_eq, List.reverse_cons,
        List.append_assoc, List.singleton_append]
  | @block inside rest hinside _ ih =>
      obtain ⟨left, hleft, hstrip⟩ := ih
      refine ⟨left, hleft, fun written more => ?_, nofun⟩
      simp only [List.cons_append, List.append_assoc]
      rw [stripFrom, if_neg (by simp), if_pos ⟨rfl, rfl⟩, stripFrom,
        stripFrom_blockComment hinside false nofun, hstrip.stripFrom_eq]

theorem gap {text : List Char} (h : m.Gap text) : ∃ left, Blank left ∧ Stripped m text left := by
  cases m with
  | plain => exact ⟨text, h, blank h⟩
  | decorated => exact decoration h

end Stripped

/-! ## Closing brackets -/

/-- A text whose last character is neither a blank nor a comma. -/
def Settled (text : List Char) : Prop :=
  ∃ front c, text = front ++ [c] ∧ Text.isBlank c = false ∧ c ≠ ','

theorem settled_singleton {c : Char} (hblank : Text.isBlank c = false) (hcomma : c ≠ ',') :
    Settled [c] := ⟨[], c, rfl, hblank, hcomma⟩

theorem Settled.append {text : List Char} (h : Settled text) (front : List Char) :
    Settled (front ++ text) := by
  obtain ⟨inside, c, rfl, hc⟩ := h
  exact ⟨front ++ inside, c, (List.append_assoc _ _ _).symm, hc⟩

theorem isBlank_of_isGap {c : Char} (h : isGap c = true) : Text.isBlank c = true := by
  simp only [isGap, Bool.or_eq_true, beq_iff_eq] at h
  rcases h with ((rfl | rfl) | rfl) | rfl <;> decide

theorem settled_of_isDigit {c : Char} (h : isDigit c = true) :
    Text.isBlank c = false ∧ c ≠ ',' := by
  refine ⟨?_, ?_⟩
  · have hrange : 48 ≤ c.toNat ∧ c.toNat ≤ 57 := by
      simpa [isDigit, Char.le_def, UInt32.le_iff_toNat_le] using h
    simp [Text.isBlank, Text.blankRanges]
    omega
  · rintro rfl
    cases h

theorem dropWhile_reverse_blank {gap : List Char} (h : Blank gap) (written : List Char) :
    (gap.reverse ++ written).dropWhile Text.isBlank = written.dropWhile Text.isBlank :=
  List.dropWhile_append_of_pos fun c hc => isBlank_of_isGap (h c (List.mem_reverse.1 hc))

/-- Behind a text that ends with no comma there is none to drop. -/
theorem dropComma_of_settled {text gap : List Char} (h : Settled text) (hgap : Blank gap)
    (written : List Char) : dropComma (gap.reverse ++ (text.reverse ++ written)) =
      gap.reverse ++ (text.reverse ++ written) := by
  obtain ⟨front, c, rfl, hblank, hcomma⟩ := h
  have hc : ¬ Text.isBlank c = true := by rw [hblank]; exact Bool.false_ne_true
  rw [dropComma, dropWhile_reverse_blank hgap, List.reverse_append, List.reverse_singleton,
    List.singleton_append, List.cons_append, List.dropWhile_cons_of_neg hc]
  split
  · next heq => exact absurd (List.cons.inj heq).1 hcomma
  · rfl

theorem dropComma_comma {gap : List Char} (h : Blank gap) (written : List Char) :
    dropComma (gap.reverse ++ ',' :: written) = written := by
  rw [dropComma, dropWhile_reverse_blank h, List.dropWhile_cons_of_neg (by decide)]
  rfl

theorem stripFrom_closing {c : Char} (hc : c = '}' ∨ c = ']') (written rest : List Char) :
    stripFrom .code written (c :: rest) = stripFrom .code (c :: dropComma written) rest := by
  have hslash : c ≠ '/' := by rcases hc with rfl | rfl <;> decide
  rw [stripFrom, if_neg fun h => hslash h.1, if_neg fun h => hslash h.1, if_pos hc]

namespace Stripped

/-- A bracket that closes behind blanks stays where it is. -/
theorem closed_gap {c : Char} {text left gap gap' : List Char} (h : Stripped m text left)
    (hleft : Settled left) (hgap : Stripped m gap gap') (hblank : Blank gap')
    (hc : c = '}' ∨ c = ']') : Stripped m (text ++ (gap ++ [c])) (left ++ (gap' ++ [c])) where
  stripFrom_eq written rest := by
    rw [List.append_assoc, List.append_assoc, h.stripFrom_eq, hgap.stripFrom_eq,
      List.singleton_append, stripFrom_closing hc, dropComma_of_settled hleft hblank]
    simp
  same hm := by rw [h.same hm, hgap.same hm]

/-- A bracket that closes behind the last item comes to stand behind blanks. -/
theorem closed {c : Char} {text left back : List Char} (h : Stripped m text left)
    (hleft : Settled left) (hback : m.Behind back) (hc : c = '}' ∨ c = ']') :
    ∃ gap, Blank gap ∧ Stripped m (text ++ (back ++ [c])) (left ++ (gap ++ [c])) := by
  cases m with
  | plain => exact ⟨back, hback, h.closed_gap hleft (blank hback) hback hc⟩
  | decorated =>
      rcases hback with hgap | ⟨front, behind, hfront, hbehind, rfl⟩
      · obtain ⟨gap, hblank, hgap⟩ := decoration hgap
        exact ⟨gap, hblank, h.closed_gap hleft hgap hblank hc⟩
      · obtain ⟨gap, hblank, hfront⟩ := decoration hfront
        obtain ⟨gap', hblank', hbehind⟩ := decoration hbehind
        refine ⟨gap, hblank, fun written rest => ?_, nofun⟩
        rw [List.append_assoc, List.append_assoc, List.append_assoc, h.stripFrom_eq,
          hfront.stripFrom_eq, List.cons_append, stripFrom_passes (by decide),
          hbehind.stripFrom_eq, List.singleton_append, stripFrom_closing hc,
          dropComma_comma hblank']
        simp

end Stripped

/-! ## Trees -/

theorem Digits.settled (digits : Digits) : Settled digits.1 := by
  have hne := digits.2.1
  exact ⟨digits.1.dropLast, digits.1.getLast hne, (List.dropLast_append_getLast hne).symm,
    settled_of_isDigit (digits.2.2 _ (List.getLast_mem hne))⟩

theorem NumberForm.settled (form : NumberForm) : Settled form.text := by
  obtain ⟨negative, whole, hform, fraction, exponent⟩ := form
  refine Settled.append ?_ _
  cases exponent with
  | some e =>
      have hexponent : Settled e.text := e.digits.settled.append (_ :: _)
      exact (hexponent.append _).append _
  | none =>
      cases fraction with
      | some decimals =>
          have hfraction : Settled ('.' :: decimals.1 ++ []) := by
            rw [List.append_nil]
            exact decimals.settled.append ['.']
          exact hfraction.append _
      | none =>
          show Settled (whole.1 ++ [])
          rw [List.append_nil]
          exact whole.settled

theorem LaidItems.settled {items : List Source} {text : List Char} :
    LaidItems m items text → Settled text
  | .last _ _ _ => (((settled_singleton (by decide) (by decide)).append _).append _).append _
  | .cons _ _ _ hitems => (((hitems.settled.append [',']).append _).append _).append _

theorem LaidEntries.settled {entries : List (List StringPart × Source)} {text : List Char} :
    LaidEntries m entries text → Settled text
  | .last _ _ _ _ _ => by
      have hbrace : Settled ['}'] := settled_singleton (by decide) (by decide)
      exact (((((hbrace.append _).append _).append (':' :: _)).append _).append _).append _
  | .cons _ _ _ _ _ hentries =>
      ((((((hentries.settled.append [',']).append _).append _).append (':' :: _)).append _).append
        _).append _

theorem Laid.settled {s : Source} {text : List Char} (h : Laid m s text) : Settled text := by
  cases h with
  | null => exact ⟨['n', 'u', 'l'], 'l', rfl, by decide⟩
  | isTrue => exact ⟨['t', 'r', 'u'], 'e', rfl, by decide⟩
  | isFalse => exact ⟨['f', 'a', 'l', 's'], 'e', rfl, by decide⟩
  | number => exact NumberForm.settled _
  | string => exact ⟨'"' :: _, '"', rfl, by decide⟩
  | emptyArray _ => exact ⟨'[' :: _, ']', rfl, by decide⟩
  | array hitems => exact hitems.settled.append ['[']
  | emptyObject _ => exact ⟨'{' :: _, '}', rfl, by decide⟩
  | object hentries => exact hentries.settled.append ['{']

mutual

/-- What stripping leaves of a tree is the tree in plain layout. -/
theorem Laid.stripped : {s : Source} → {text : List Char} → Laid m s text →
    ∃ left, Laid .plain s left ∧ Stripped m text left
  | _, _, .null => ⟨_, .null, .word rfl⟩
  | _, _, .isTrue => ⟨_, .isTrue, .word rfl⟩
  | _, _, .isFalse => ⟨_, .isFalse, .word rfl⟩
  | _, _, .number => ⟨_, .number, .number _⟩
  | _, _, .string => ⟨_, .string, .quoted _⟩
  | _, _, .emptyArray hgap => by
      obtain ⟨gap, hblank, hgap⟩ := Stripped.gap hgap
      have hopen : Stripped m ['['] ['['] := .word rfl
      exact ⟨_, .emptyArray hblank, hopen.closed_gap
        (settled_singleton (by decide) (by decide)) hgap hblank (.inr rfl)⟩
  | _, _, .array h => by
      obtain ⟨left, hleft, hstrip⟩ := h.stripped
      exact ⟨_, .array hleft, hstrip.cons (by decide)⟩
  | _, _, .emptyObject hgap => by
      obtain ⟨gap, hblank, hgap⟩ := Stripped.gap hgap
      have hopen : Stripped m ['{'] ['{'] := .word rfl
      exact ⟨_, .emptyObject hblank, hopen.closed_gap
        (settled_singleton (by decide) (by decide)) hgap hblank (.inl rfl)⟩
  | _, _, .object h => by
      obtain ⟨left, hleft, hstrip⟩ := h.stripped
      exact ⟨_, .object hleft, hstrip.cons (by decide)⟩

theorem LaidItems.stripped : {items : List Source} → {text : List Char} →
    LaidItems m items text → ∃ left, LaidItems .plain items left ∧ Stripped m text left
  | _, _, .last hfront h hback => by
      obtain ⟨front, hfrontBlank, hfront⟩ := Stripped.gap hfront
      obtain ⟨left, hleft, hstrip⟩ := h.stripped
      obtain ⟨gap, hgapBlank, hclosed⟩ := hstrip.closed hleft.settled hback (.inr rfl)
      exact ⟨_, .last hfrontBlank hleft hgapBlank, hfront.append hclosed⟩
  | _, _, .cons hfront h hback hitems => by
      obtain ⟨front, hfrontBlank, hfront⟩ := Stripped.gap hfront
      obtain ⟨left, hleft, hstrip⟩ := h.stripped
      obtain ⟨back, hbackBlank, hback⟩ := Stripped.gap hback
      obtain ⟨others, hothers, hitems⟩ := hitems.stripped
      exact ⟨_, .cons hfrontBlank hleft hbackBlank hothers,
        hfront.append (hstrip.append (hback.append (hitems.cons (by decide))))⟩

theorem LaidEntries.stripped : {entries : List (List StringPart × Source)} →
    {text : List Char} → LaidEntries m entries text →
    ∃ left, LaidEntries .plain entries left ∧ Stripped m text left
  | _, _, .last hfront hmiddle hgap h hback => by
      obtain ⟨front, hfrontBlank, hfront⟩ := Stripped.gap hfront
      obtain ⟨middle, hmiddleBlank, hmiddle⟩ := Stripped.gap hmiddle
      obtain ⟨gap, hgapBlank, hgap⟩ := Stripped.gap hgap
      obtain ⟨left, hleft, hstrip⟩ := h.stripped
      obtain ⟨back, hbackBlank, hclosed⟩ := hstrip.closed hleft.settled hback (.inl rfl)
      exact ⟨_, .last hfrontBlank hmiddleBlank hgapBlank hleft hbackBlank, hfront.append
        ((Stripped.quoted _).append (hmiddle.append ((hgap.append hclosed).cons (by decide))))⟩
  | _, _, .cons hfront hmiddle hgap h hback hentries => by
      obtain ⟨front, hfrontBlank, hfront⟩ := Stripped.gap hfront
      obtain ⟨middle, hmiddleBlank, hmiddle⟩ := Stripped.gap hmiddle
      obtain ⟨gap, hgapBlank, hgap⟩ := Stripped.gap hgap
      obtain ⟨left, hleft, hstrip⟩ := h.stripped
      obtain ⟨back, hbackBlank, hback⟩ := Stripped.gap hback
      obtain ⟨others, hothers, hentries⟩ := hentries.stripped
      have hbehind : Stripped m (',' :: _) (',' :: _) := hentries.cons (by decide)
      have hvalue := hgap.append (hstrip.append (hback.append hbehind))
      exact ⟨_, .cons hfrontBlank hmiddleBlank hgapBlank hleft hbackBlank hothers,
        hfront.append ((Stripped.quoted _).append (hmiddle.append (hvalue.cons (by decide))))⟩

end

/-! ## Whole texts -/

/-- What may stand at the end of a text comes to blanks. -/
theorem Manner.End.stripped {back : List Char} (h : m.End back) :
    ∃ gap, Blank gap ∧ (∀ written, stripFrom .code written back = written.reverse ++ gap) ∧
      (m = .plain → gap = back) := by
  have hgap : ∀ {text gap : List Char}, Stripped m text gap →
      ∀ written, stripFrom .code written text = written.reverse ++ gap := by
    intro text gap h written
    have hstrip := h.stripFrom_eq written []
    rw [List.append_nil] at hstrip
    rw [hstrip, stripFrom, List.reverse_append, List.reverse_reverse]
  cases m with
  | plain => exact ⟨back, h, hgap (.blank h), fun _ => rfl⟩
  | decorated =>
      rcases h with h | ⟨front, inside, hfront, hinside, rfl⟩
      · obtain ⟨gap, hblank, hstrip⟩ := Stripped.decoration h
        exact ⟨gap, hblank, hgap hstrip, nofun⟩
      · obtain ⟨gap, hblank, hstrip⟩ := Stripped.decoration hfront
        refine ⟨gap, hblank, fun written => ?_, nofun⟩
        have hline := Stripped.stripFrom_line hinside (gap.reverse ++ written) []
        rw [List.append_nil] at hline
        rw [hstrip.stripFrom_eq, hline, stripFrom, List.reverse_append, List.reverse_reverse]

/-- Stripping leaves a tree in plain layout, and a text in plain layout as it is. -/
theorem Writes.strip {s : Source} {text : List Char} (h : Writes m s text) :
    Writes .plain s (strip text) ∧ (m = .plain → strip text = text) := by
  obtain ⟨front, body, back, hfront, hbody, hback, rfl⟩ := h
  obtain ⟨front', hfrontBlank, hfront⟩ := Stripped.gap hfront
  obtain ⟨left, hleft, hbody⟩ := hbody.stripped
  obtain ⟨gap, hgapBlank, hback, hsame⟩ := hback.stripped
  have hstrip : Json.strip (front ++ (body ++ back)) = front' ++ (left ++ gap) := by
    rw [Json.strip, hfront.stripFrom_eq, hbody.stripFrom_eq, hback]
    simp
  rw [hstrip]
  exact ⟨⟨front', left, gap, hfrontBlank, hleft, hgapBlank, rfl⟩,
    fun hm => by rw [hfront.same hm, hbody.same hm, hsame hm]⟩

/-- A text that is read as it is has nothing to strip. -/
theorem strip_of_parse {text : List Char} {v : Value} (h : parse text = .ok v) :
    strip text = text := by
  obtain ⟨s, hs, -⟩ := parse_eq_ok_iff.1 h
  exact hs.strip.2 rfl

/-- Of a decorated text, stripping leaves the same tree of tokens in plain layout, which is read as
the text without decoration is. A text without decoration stays as it is. -/
theorem strip_of_decorated {s : Source} {decorated plain : List Char}
    (hdecorated : Writes .decorated s decorated) (hplain : Writes .plain s plain) :
    Writes .plain s (strip decorated) ∧ parse (strip decorated) = parse plain ∧
      strip plain = plain := by
  obtain ⟨hwrites, -⟩ := hdecorated.strip
  refine ⟨hwrites, ?_, hplain.strip.2 rfl⟩
  rw [parse_of_writes hwrites, parse_of_writes hplain]

/-- A list of a string and a word. Its string holds what would open a comment, close the list, or
close the string if it were not escaped. -/
def listSource : Source :=
  .array [.string [.plain '/' (by decide) (by decide) (by decide),
    .plain '*' (by decide) (by decide) (by decide), .plain ',' (by decide) (by decide) (by decide),
    .plain ']' (by decide) (by decide) (by decide), .escape '"' '"' rfl], .bool true]

theorem strip_of_decorated_list :
    Writes .plain listSource
        (strip "[ // ]\n\"/*,]\\\"\" /*/ \" */, true/***/ , ] //".toList) ∧
      parse (strip "[ // ]\n\"/*,]\\\"\" /*/ \" */, true/***/ , ] //".toList) =
        parse "[\"/*,]\\\"\",true]".toList ∧
      strip "[\"/*,]\\\"\",true]".toList = "[\"/*,]\\\"\",true]".toList := by
  have hspace : Decoration [' '] := .blank rfl .nil
  have hline : Decoration [' ', '/', '/', ' ', ']', '\n'] :=
    .blank rfl (@Decoration.line [' ', ']'] [] (by decide) .nil)
  have hblock : Decoration [' ', '/', '*', '/', ' ', '"', ' ', '*', '/'] :=
    .blank rfl (@Decoration.block ['/', ' ', '"', ' '] [] (by decide) .nil)
  have hcomma : Manner.decorated.Behind ['/', '*', '*', '*', '/', ' ', ',', ' '] :=
    .inr ⟨_, _, @Decoration.block ['*'] [' '] (by decide) hspace, hspace, rfl⟩
  have hend : Manner.decorated.End [' ', '/', '/'] :=
    .inr ⟨_, [], hspace, List.not_mem_nil, rfl⟩
  have hdecorated : Writes .decorated listSource
      "[ // ]\n\"/*,]\\\"\" /*/ \" */, true/***/ , ] //".toList :=
    ⟨[], _, _, .nil, .array (.cons hline .string hblock (.last hspace .isTrue hcomma)), hend, rfl⟩
  have hplain : Writes .plain listSource "[\"/*,]\\\"\",true]".toList :=
    ⟨[], _, [], blank_nil, .array (.cons blank_nil .string blank_nil
      (.last blank_nil .isTrue blank_nil)), blank_nil, rfl⟩
  exact strip_of_decorated hdecorated hplain

end TreeLint.Json
