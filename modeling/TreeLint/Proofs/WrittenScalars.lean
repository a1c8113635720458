import Mathlib.Data.List.Basic
import TreeLint.Json.Reader
import TreeLint.Json.Writer

/-!
# Written strings and numbers

Reading what was written for a string or a number gives it back and stops where the writing ends.
A string ends itself. A number does not: it would run on into digits, a point or an exponent mark,
so `EndsNumber` is what has to be known of the text behind it.

Numbers come back only if they are of a kind that a reader makes (`Number.Kept`): an integer past
64 bits would be read as a decimal, and a decimal past the doubles not at all.
-/

namespace TreeLint.Json

/-! ## Strings -/

theorem hexDigit?_hexDigit {n : Nat} (h : n < 16) : hexDigit? (hexDigit n) = some n := by
  have hall : ∀ n < 16, hexDigit? (hexDigit n) = some n := by decide
  exact hall n h

/-- A control character is read back from its numeric escape. -/
theorem readStringFrom_code {c : Char} (h : c.toNat < 0x20) (taken rest : List Char) :
    readStringFrom (.code none 4 0) taken
        ('0' :: '0' :: hexDigit (c.toNat / 16) :: hexDigit (c.toNat % 16) :: rest) =
      readStringFrom .plain (c :: taken) rest := by
  have hzero : hexDigit? '0' = some 0 := rfl
  have hhigh : hexDigit? (hexDigit (c.toNat / 16)) = some (c.toNat / 16) :=
    hexDigit?_hexDigit (by omega)
  have hlow : hexDigit? (hexDigit (c.toNat % 16)) = some (c.toNat % 16) :=
    hexDigit?_hexDigit (by omega)
  have hcode : 16 * (c.toNat / 16) + c.toNat % 16 = c.toNat := by omega
  have hfirst : isFirstHalf c.toNat = false := by
    simp only [isFirstHalf, Bool.and_eq_false_iff, decide_eq_false_iff_not]
    omega
  have hsecond : isSecondHalf c.toNat = false := by
    simp only [isSecondHalf, Bool.and_eq_false_iff, decide_eq_false_iff_not]
    omega
  simp [readStringFrom, hzero, hhigh, hlow, hcode, hfirst, hsecond, Char.ofNat_toNat]

theorem readStringFrom_writeChar (c : Char) (taken rest : List Char) :
    readStringFrom .plain taken (writeChar c ++ rest) =
      readStringFrom .plain (c :: taken) rest := by
  unfold writeChar
  split
  · next h => subst h; rfl
  split
  · next h => subst h; rfl
  split
  · next h => subst h; rfl
  split
  · next h => subst h; rfl
  split
  · next h => subst h; rfl
  split
  · next h => subst h; rfl
  split
  · next h => subst h; rfl
  split
  · next h => exact readStringFrom_code h taken rest
  · next hquote hbackslash _ _ _ _ _ hcontrol =>
      rw [List.singleton_append, readStringFrom, if_neg hquote, if_neg hbackslash,
        if_neg hcontrol]

/-- Reading the inside of a written string gives the string back. -/
theorem readStringFrom_flatMap (characters taken rest : List Char) :
    readStringFrom .plain taken (characters.flatMap writeChar ++ '"' :: rest) =
      some (String.ofList (taken.reverse ++ characters), rest) := by
  induction characters generalizing taken with
  | nil => rw [List.flatMap_nil, List.nil_append, readStringFrom, if_pos rfl, List.append_nil]
  | cons c others ih =>
      rw [List.flatMap_cons, List.append_assoc, readStringFrom_writeChar, ih, List.reverse_cons,
        List.append_assoc, List.singleton_append]

theorem readStringFrom_writeString (s : String) (rest : List Char) :
    readStringFrom .plain [] (s.toList.flatMap writeChar ++ '"' :: rest) = some (s, rest) := by
  rw [readStringFrom_flatMap, List.reverse_nil, List.nil_append, String.ofList_toList]

/-! ## Numbers -/

/-- A text that a number in front of it does not run on into. -/
def EndsNumber (rest : List Char) : Prop :=
  ∀ c ∈ rest.head?, isDigit c = false ∧ c ≠ '.' ∧ c ≠ 'e' ∧ c ≠ 'E'

/-- A number that is read back as what it was written from: an integer that fits 64 bits, or a
decimal that stays within the doubles. -/
def Number.Kept : Number → Prop
  | .integer value => -(Nat.pow 2 63 : Nat) ≤ value ∧ value < (Nat.pow 2 64 : Nat)
  | .decimal _ digits exponent => isFinite digits exponent = true

theorem digitsValue_toDigits (n : Nat) : digitsValue (Nat.toDigits 10 n) = n :=
  Nat.ofDigitChars_toDigits (by decide) (by decide)

theorem toList_toString (n : Nat) : (toString n).toList = Nat.toDigits 10 n := by
  rw [Nat.toString_eq_repr, Nat.repr_eq_ofList_toDigits, String.toList_ofList]

theorem toList_toString_ofNat (n : Nat) : (toString (n : Int)).toList = Nat.toDigits 10 n := by
  rw [Int.toString_eq_repr]
  exact (congrArg String.toList Nat.repr_eq_ofList_toDigits).trans String.toList_ofList

theorem toList_toString_neg {n : Nat} (h : 0 < n) :
    (toString (-(n : Int))).toList = '-' :: Nat.toDigits 10 n := by
  obtain ⟨m, rfl⟩ : ∃ m, n = m + 1 := ⟨n - 1, by omega⟩
  have hneg : -((m + 1 : Nat) : Int) = Int.negSucc m := rfl
  rw [hneg, Int.toString_eq_repr, Int.repr, Nat.repr_eq_ofList_toDigits, String.toList_append,
    String.toList_ofList, String.toList_ofList]
  rfl

theorem isDigit_of_mem_toDigits {n : Nat} {c : Char} (h : c ∈ Nat.toDigits 10 n) :
    isDigit c = true := by
  have hdigit := Nat.isDigit_of_mem_toDigits (by decide) (by decide) h
  simpa [isDigit, Char.isDigit, UInt32.le_iff_toNat_le, Char.le_def] using hdigit

theorem exists_toDigits_eq_cons (n : Nat) : ∃ d digits, Nat.toDigits 10 n = d :: digits :=
  List.exists_cons_of_ne_nil Nat.toDigits_ne_nil

theorem toDigits_append_ne {c : Char} (hc : isDigit c = false) (n : Nat) (rest tail : List Char) :
    Nat.toDigits 10 n ++ rest ≠ c :: tail := by
  intro h
  obtain ⟨d, digits, hcons⟩ := exists_toDigits_eq_cons n
  rw [hcons, List.cons_append] at h
  injection h with hd
  have hdigit : isDigit d = true := isDigit_of_mem_toDigits (hcons ▸ List.mem_cons_self)
  rw [hd, hc] at hdigit
  cases hdigit

theorem head?_toDigits_ne {n : Nat} (h : 0 < n) : (Nat.toDigits 10 n).head? ≠ some '0' := by
  induction n using Nat.strongRecOn with
  | ind n ih =>
      by_cases hn : n < 10
      · have hall : ∀ n < 10, 0 < n → (Nat.toDigits 10 n).head? ≠ some '0' := by decide
        exact hall n hn h
      · have hstep := Nat.toDigits_of_base_le (by decide) (Nat.le_of_not_lt hn)
        rw [hstep, List.head?_append_of_ne_nil _ Nat.toDigits_ne_nil]
        exact ih (n / 10) (by omega) (by omega)

/-- The digits of a number are no form that a reader refuses. -/
theorem toDigits_wellFormed (n : Nat) : ¬ ((Nat.toDigits 10 n).isEmpty = true ∨
    1 < (Nat.toDigits 10 n).length ∧ (Nat.toDigits 10 n).head? = some '0') := by
  rintro (hempty | ⟨hlength, hhead⟩)
  · exact Nat.toDigits_ne_nil (List.isEmpty_iff.1 hempty)
  · rcases Nat.eq_zero_or_pos n with rfl | hpos
    · cases hlength with | step h => cases h
    · exact head?_toDigits_ne hpos hhead

/-- Digits are read up to the first character that is none. -/
theorem span_digits {digits rest : List Char} (h : ∀ c ∈ digits, isDigit c = true)
    (hrest : ∀ c ∈ rest.head?, isDigit c = false) :
    (digits ++ rest).takeWhile isDigit = digits ∧ (digits ++ rest).dropWhile isDigit = rest := by
  rw [List.takeWhile_append_of_pos h, List.dropWhile_append_of_pos h]
  cases rest with
  | nil => exact ⟨List.append_nil _, rfl⟩
  | cons c rest =>
      have hc : ¬ isDigit c = true := by rw [hrest c rfl]; exact Bool.false_ne_true
      rw [List.takeWhile_cons_of_neg hc, List.dropWhile_cons_of_neg hc]
      exact ⟨List.append_nil _, rfl⟩

theorem span_toDigits (n : Nat) {rest : List Char} (hr : ∀ c ∈ rest.head?, isDigit c = false) :
    (Nat.toDigits 10 n ++ rest).takeWhile isDigit = Nat.toDigits 10 n ∧
      (Nat.toDigits 10 n ++ rest).dropWhile isDigit = rest :=
  span_digits (fun _ => isDigit_of_mem_toDigits) hr

theorem readFraction_none {rest : List Char} (h : ∀ c ∈ rest.head?, c ≠ '.') :
    readFraction rest = some (none, rest) := by
  unfold readFraction
  split
  · exact absurd rfl (h '.' rfl)
  · rfl

theorem readExponent_none {rest : List Char} (h : ∀ c ∈ rest.head?, c ≠ 'e' ∧ c ≠ 'E') :
    readExponent rest = some (none, rest) := by
  unfold readExponent
  split
  · exact absurd rfl (h 'e' rfl).1
  · exact absurd rfl (h 'E' rfl).2
  · rfl

theorem readExponent_toString (exponent : Int) {rest : List Char} (h : EndsNumber rest) :
    readExponent ('e' :: ((toString exponent).toList ++ rest)) = some (some exponent, rest) := by
  have hspan := fun n => span_toDigits n fun c hc => (h c hc).1
  have hne : ∀ n : Nat, (Nat.toDigits 10 n).isEmpty = false := fun n =>
    List.isEmpty_eq_false_iff.2 Nat.toDigits_ne_nil
  rcases Int.lt_or_le exponent 0 with hneg | hpos
  · obtain ⟨n, hn, rfl⟩ : ∃ n : Nat, 0 < n ∧ exponent = -(n : Int) :=
      ⟨exponent.natAbs, by omega, by omega⟩
    rw [toList_toString_neg hn]
    simp only [readExponent, List.cons_append, hspan, hne, digitsValue_toDigits]
    rfl
  · obtain ⟨n, rfl⟩ := Int.eq_ofNat_of_zero_le hpos
    rw [toList_toString_ofNat]
    unfold readExponent
    simp only []
    split
    · next h => exact absurd h (toDigits_append_ne rfl n rest _)
    · next h => exact absurd h (toDigits_append_ne rfl n rest _)
    · simp only [hspan, hne, digitsValue_toDigits]
      rfl

def sign (negative : Bool) : List Char := if negative then ['-'] else []

/-- A number is read up to its whole part if that has a form that a reader takes. -/
theorem readNumberForm_sign (negative : Bool) {whole tail : List Char}
    (hwhole : ∀ c ∈ whole, isDigit c = true)
    (hform : ¬ (whole.isEmpty = true ∨ 1 < whole.length ∧ whole.head? = some '0'))
    (h : ∀ c ∈ tail.head?, isDigit c = false) :
    readNumberForm (sign negative ++ (whole ++ tail)) =
      match readFraction tail with
      | none => none
      | some (fraction, rest) =>
        match readExponent rest with
        | none => none
        | some (exponent, rest) =>
          match fraction, exponent with
          | none, none => some (.ofDigits negative (digitsValue whole), rest)
          | _, _ =>
            some (.decimal negative (digitsValue (whole ++ fraction.getD []))
              (exponent.getD 0 - (fraction.getD []).length), rest) := by
  obtain ⟨htake, hdrop⟩ := span_digits hwhole h
  cases negative with
  | true =>
      simp only [sign, if_true, readNumberForm, List.cons_append, List.nil_append, htake, hdrop]
      exact if_neg hform
  | false =>
      rw [sign, if_neg Bool.false_ne_true, List.nil_append]
      unfold readNumberForm
      split
      next negative text hsign =>
        split at hsign
        · next heq =>
            cases whole with
            | nil => exact absurd (.inl rfl) hform
            | cons c others =>
                have hc := hwhole c List.mem_cons_self
                rw [(List.cons.inj heq).1] at hc
                cases hc
        · cases hsign
          simp only [htake, hdrop]
          exact if_neg hform

theorem readNumberForm_integer (negative : Bool) (n : Nat) {rest : List Char}
    (h : EndsNumber rest) : readNumberForm (sign negative ++ (Nat.toDigits 10 n ++ rest)) =
      some (.ofDigits negative n, rest) := by
  have hexponent := readExponent_none fun c hc => (h c hc).2.2
  rw [readNumberForm_sign negative (fun _ => isDigit_of_mem_toDigits) (toDigits_wellFormed n)
    fun c hc => (h c hc).1, readFraction_none fun c hc => (h c hc).2.1, digitsValue_toDigits]
  simp only [hexponent]

theorem readNumberForm_decimal (negative : Bool) (n : Nat) (exponent : Int) {rest : List Char}
    (h : EndsNumber rest) :
    readNumberForm (sign negative ++
        (Nat.toDigits 10 n ++ 'e' :: ((toString exponent).toList ++ rest))) =
      some (.decimal negative n exponent, rest) := by
  rw [readNumberForm_sign negative (fun _ => isDigit_of_mem_toDigits) (toDigits_wellFormed n)
    fun c hc => by cases hc; rfl, readFraction_none fun c hc => by cases hc; decide]
  simp only [readExponent_toString exponent h, Option.getD_none, List.append_nil,
    digitsValue_toDigits, Option.getD_some, List.length_nil, Int.natCast_zero, Int.sub_zero]

/-- A written integer is a sign and digits, and these stand for it if it fits 64 bits. -/
theorem writeNumber_integer (value : Int) : ∃ (negative : Bool) (n : Nat),
    writeNumber (.integer value) = sign negative ++ Nat.toDigits 10 n ∧
      (Number.Kept (.integer value) → Number.ofDigits negative n = .integer value) := by
  rcases Int.lt_or_le value 0 with hneg | hpos
  · obtain ⟨n, hn, rfl⟩ : ∃ n : Nat, 0 < n ∧ value = -(n : Int) :=
      ⟨value.natAbs, by omega, by omega⟩
    refine ⟨true, n, toList_toString_neg hn, fun ⟨hlow, _⟩ => ?_⟩
    rw [Number.ofDigits, if_pos rfl, if_pos ⟨hn, by omega⟩]
  · obtain ⟨n, rfl⟩ := Int.eq_ofNat_of_zero_le hpos
    refine ⟨false, n, toList_toString_ofNat n, fun ⟨_, hhigh⟩ => ?_⟩
    rw [Number.ofDigits, if_neg Bool.false_ne_true, if_pos (by omega)]

theorem readNumber_writeNumber {n : Number} (hn : n.Kept) {rest : List Char}
    (h : EndsNumber rest) : readNumber (writeNumber n ++ rest) = some (n, rest) := by
  cases n with
  | integer value =>
      obtain ⟨negative, digits, hwritten, hvalue⟩ := writeNumber_integer value
      rw [readNumber, hwritten, List.append_assoc, readNumberForm_integer negative digits h,
        hvalue hn]
      rfl
  | decimal negative digits exponent =>
      have hread := readNumberForm_decimal negative digits exponent h
      have hallowed : (Number.decimal negative digits exponent).isAllowed = true := hn
      rw [readNumber, writeNumber, toList_toString, List.append_assoc, List.append_assoc]
      simp only [sign, List.cons_append] at hread ⊢
      rw [hread]
      exact if_pos hallowed

end TreeLint.Json
