import TreeLint.Json.Value

/-!
# Reading JSON text

A reader takes characters and gives a value with the characters behind it. Lists and objects are
folds over their items and entries with a reader for each, so that a reader for values and a reader
for a particular record are built from the same two folds.

Nesting is bounded by a depth that every list and object uses up one of. The folds count down a
number of rounds that is at least the length of the text: each round takes a character, so the
count never ends before the text does.
-/

namespace TreeLint.Json

abbrev Reader (α : Type) := List Char → Except Refusal (α × List Char)

/-- The blanks of JSON. -/
def isGap (c : Char) : Bool := c == ' ' || c == '\n' || c == '\r' || c == '\t'

def skipGap (text : List Char) : List Char := text.dropWhile isGap

/-! ## Strings -/

def hexDigit? (c : Char) : Option Nat :=
  if '0' ≤ c ∧ c ≤ '9' then some (c.toNat - '0'.toNat)
  else if 'a' ≤ c ∧ c ≤ 'f' then some (c.toNat - 'a'.toNat + 10)
  else if 'A' ≤ c ∧ c ≤ 'F' then some (c.toNat - 'A'.toNat + 10)
  else none

/-- What a one-letter escape stands for. -/
def escape? : Char → Option Char
  | '"' => some '"'
  | '\\' => some '\\'
  | '/' => some '/'
  | 'b' => some '\x08'
  | 'f' => some '\x0c'
  | 'n' => some '\n'
  | 'r' => some '\r'
  | 't' => some '\t'
  | _ => none

/-- Where a reader stands inside a string. -/
inductive StringState where
  /-- Between characters. -/
  | plain
  /-- Behind a backslash. -/
  | escaped
  /-- Inside a numeric escape: the first half of a pair that waits for it, how many digits are
  still to come, and their value so far. -/
  | code (half : Option Nat) (left : Nat) (value : Nat)
  /-- Behind the first half of a pair, where only another numeric escape may stand. -/
  | paired (half : Nat)
  /-- Behind that escape's backslash. -/
  | pairedEscape (half : Nat)

def isFirstHalf (code : Nat) : Bool := 0xD800 ≤ code && code < 0xDC00

def isSecondHalf (code : Nat) : Bool := 0xDC00 ≤ code && code < 0xE000

/-- Reads the rest of a string behind its opening quote; `taken` holds the characters read so far,
last first. Control characters stand in no string, and the halves of a pair only together. -/
def readStringFrom : StringState → (taken : List Char) → List Char → Option (String × List Char)
  | _, _, [] => none
  | .plain, taken, c :: rest =>
    if c = '"' then some (String.ofList taken.reverse, rest)
    else if c = '\\' then readStringFrom .escaped taken rest
    else if c.toNat < 0x20 then none
    else readStringFrom .plain (c :: taken) rest
  | .escaped, taken, c :: rest =>
    if c = 'u' then readStringFrom (.code none 4 0) taken rest
    else
      match escape? c with
      | some meant => readStringFrom .plain (meant :: taken) rest
      | none => none
  | .code half left value, taken, c :: rest =>
    match hexDigit? c with
    | none => none
    | some digit =>
      let code := 16 * value + digit
      if 1 < left then readStringFrom (.code half (left - 1) code) taken rest
      else
        match half with
        | some first =>
          if isSecondHalf code then
            readStringFrom .plain
              (Char.ofNat (0x10000 + (first - 0xD800) * 0x400 + (code - 0xDC00)) :: taken) rest
          else none
        | none =>
          if isFirstHalf code then readStringFrom (.paired code) taken rest
          else if isSecondHalf code then none
          else readStringFrom .plain (Char.ofNat code :: taken) rest
  | .paired half, taken, c :: rest =>
    if c = '\\' then readStringFrom (.pairedEscape half) taken rest else none
  | .pairedEscape half, taken, c :: rest =>
    if c = 'u' then readStringFrom (.code (some half) 4 0) taken rest else none

def readString : Reader String := fun text =>
  match skipGap text with
  | '"' :: rest =>
    match readStringFrom .plain [] rest with
    | some result => .ok result
    | none => .error .malformed
  | _ => .error .malformed

/-- Passes over the rest of a string behind its opening quote. Only its form counts: numeric escapes
need not pair. `left` counts the hexadecimal digits still to come. -/
def skipStringFrom : (escaped : Bool) → (left : Nat) → List Char → Option (List Char)
  | _, _, [] => none
  | escaped, left, c :: rest =>
    if 0 < left then
      if (hexDigit? c).isSome then skipStringFrom false (left - 1) rest else none
    else if escaped then
      if c = 'u' then skipStringFrom false 4 rest
      else if (escape? c).isSome then skipStringFrom false 0 rest
      else none
    else if c = '"' then some rest
    else if c = '\\' then skipStringFrom true 0 rest
    else if c.toNat < 0x20 then none
    else skipStringFrom false 0 rest

/-! ## Numbers -/

def isDigit (c : Char) : Bool := '0' ≤ c && c ≤ '9'

/-- The number that decimal digits write. -/
def digitsValue (digits : List Char) : Nat :=
  digits.foldl (fun value c => 10 * value + (c.toNat - '0'.toNat)) 0

/-- The digits behind a point, if there is one; at least one digit must follow it. -/
def readFraction (text : List Char) : Option (Option (List Char) × List Char) :=
  match text with
  | '.' :: rest =>
    let digits := rest.takeWhile isDigit
    if digits.isEmpty then none else some (some digits, rest.dropWhile isDigit)
  | _ => some (none, text)

/-- The power of ten behind an exponent mark, if there is one. -/
def readExponent (text : List Char) : Option (Option Int × List Char) :=
  let afterMark : List Char → Option (Option Int × List Char) := fun rest =>
    let (negative, rest) :=
      match rest with
      | '-' :: rest => (true, rest)
      | '+' :: rest => (false, rest)
      | _ => (false, rest)
    let digits := rest.takeWhile isDigit
    if digits.isEmpty then none
    else
      let value : Int := digitsValue digits
      some (some (if negative then -value else value), rest.dropWhile isDigit)
  match text with
  | 'e' :: rest => afterMark rest
  | 'E' :: rest => afterMark rest
  | _ => some (none, text)

/-- Reads the form of a number: no sign but a minus, no zeros in front. -/
def readNumberForm (text : List Char) : Option (Number × List Char) :=
  let (negative, rest) :=
    match text with
    | '-' :: rest => (true, rest)
    | _ => (false, text)
  let whole := rest.takeWhile isDigit
  let rest := rest.dropWhile isDigit
  if whole.isEmpty ∨ (1 < whole.length ∧ whole.head? = some '0') then none
  else
    match readFraction rest with
    | none => none
    | some (fraction, rest) =>
      match readExponent rest with
      | none => none
      | some (exponent, rest) =>
        match fraction, exponent with
        | none, none => some (.ofDigits negative (digitsValue whole), rest)
        | _, _ =>
          let decimals := fraction.getD []
          some (.decimal negative (digitsValue (whole ++ decimals))
            (exponent.getD 0 - decimals.length), rest)

/-- Reads a number that stays within the doubles. -/
def readNumber (text : List Char) : Option (Number × List Char) :=
  match readNumberForm text with
  | some (number, rest) => if number.isAllowed then some (number, rest) else none
  | none => none

/-! ## Lists and objects -/

/-- Reads the items of a list from in front of an item to behind the closing bracket. -/
def readElements {σ : Type} (element : σ → Reader σ) : (rounds : Nat) → σ → Reader σ
  | 0, _, _ => .error .malformed
  | rounds + 1, state, text =>
    match element state text with
    | .error refusal => .error refusal
    | .ok (state, rest) =>
      match skipGap rest with
      | ',' :: rest => readElements element rounds state rest
      | ']' :: rest => .ok (state, rest)
      | _ => .error .malformed

def readList {σ : Type} (element : σ → Reader σ) (rounds : Nat) (state : σ) : Reader σ :=
  fun text =>
  match skipGap text with
  | ']' :: rest => .ok (state, rest)
  | text => readElements element rounds state text

/-- Reads the entries of an object from in front of a key to behind the closing brace. -/
def readEntries {κ σ : Type} (key : Reader κ) (entry : κ → σ → Reader σ) :
    (rounds : Nat) → σ → Reader σ
  | 0, _, _ => .error .malformed
  | rounds + 1, state, text =>
    match key text with
    | .error refusal => .error refusal
    | .ok (name, rest) =>
      match skipGap rest with
      | ':' :: rest =>
        match entry name state rest with
        | .error refusal => .error refusal
        | .ok (state, rest) =>
          match skipGap rest with
          | ',' :: rest => readEntries key entry rounds state rest
          | '}' :: rest => .ok (state, rest)
          | _ => .error .malformed
      | _ => .error .malformed

def readObject {κ σ : Type} (key : Reader κ) (entry : κ → σ → Reader σ) (rounds : Nat)
    (state : σ) : Reader σ := fun text =>
  match skipGap text with
  | '}' :: rest => .ok (state, rest)
  | text => readEntries key entry rounds state text

/-! ## Values -/

/-- A reader that puts what it reads in front of a list. -/
def collect {α : Type} (item : Reader α) (taken : List α) : Reader (List α) := fun text =>
  match item text with
  | .error refusal => .error refusal
  | .ok (value, rest) => .ok (value :: taken, rest)

/-- A reader that pairs what it reads with a key. -/
def withKey {α : Type} (key : String) (item : Reader α) : Reader (String × α) := fun text =>
  match item text with
  | .error refusal => .error refusal
  | .ok (value, rest) => .ok ((key, value), rest)

/-- Reads any value; at most `depth` lists and objects may stand inside each other. -/
def readValue (rounds : Nat) : (depth : Nat) → Reader Value
  | depth, text =>
    match skipGap text with
    | 'n' :: 'u' :: 'l' :: 'l' :: rest => .ok (.null, rest)
    | 't' :: 'r' :: 'u' :: 'e' :: rest => .ok (.bool true, rest)
    | 'f' :: 'a' :: 'l' :: 's' :: 'e' :: rest => .ok (.bool false, rest)
    | '"' :: rest =>
      match readStringFrom .plain [] rest with
      | some (value, rest) => .ok (.string value, rest)
      | none => .error .malformed
    | '[' :: rest =>
      match depth with
      | 0 => .error .malformed
      | depth + 1 =>
        match readList (collect (readValue rounds depth)) rounds [] rest with
        | .error refusal => .error refusal
        | .ok (items, rest) => .ok (.array items.reverse, rest)
    | '{' :: rest =>
      match depth with
      | 0 => .error .malformed
      | depth + 1 =>
        match readObject readString
          (fun key => collect (withKey key (readValue rounds depth))) rounds [] rest with
        | .error refusal => .error refusal
        | .ok (entries, rest) => .ok (.object entries.reverse, rest)
    | text =>
      match readNumber text with
      | some (number, rest) => .ok (.number number, rest)
      | none => .error .malformed

def skipString : Reader Unit := fun text =>
  match skipGap text with
  | '"' :: rest =>
    match skipStringFrom false 0 rest with
    | some rest => .ok ((), rest)
    | none => .error .malformed
  | _ => .error .malformed

/-- Passes over any value. Only its form counts: neither the size of a number nor the pairing of
numeric escapes. -/
def skipValue (rounds : Nat) : (depth : Nat) → Reader Unit
  | depth, text =>
    match skipGap text with
    | 'n' :: 'u' :: 'l' :: 'l' :: rest => .ok ((), rest)
    | 't' :: 'r' :: 'u' :: 'e' :: rest => .ok ((), rest)
    | 'f' :: 'a' :: 'l' :: 's' :: 'e' :: rest => .ok ((), rest)
    | '"' :: rest =>
      match skipStringFrom false 0 rest with
      | some rest => .ok ((), rest)
      | none => .error .malformed
    | '[' :: rest =>
      match depth with
      | 0 => .error .malformed
      | depth + 1 => readList (fun _ => skipValue rounds depth) rounds () rest
    | '{' :: rest =>
      match depth with
      | 0 => .error .malformed
      | depth + 1 => readObject skipString (fun _ _ => skipValue rounds depth) rounds () rest
    | text =>
      match readNumberForm text with
      | some (_, rest) => .ok ((), rest)
      | none => .error .malformed

/-- Runs a reader over a whole text: nothing but blanks may follow what it reads. -/
def readAll {α : Type} (reader : Reader α) (text : List Char) : Except Refusal α :=
  match reader text with
  | .error refusal => .error refusal
  | .ok (value, rest) => if (skipGap rest).isEmpty then .ok value else .error .malformed

/-- How many lists and objects of a text may stand inside each other. -/
def maxDepth : Nat := 127

def parse (text : List Char) : Except Refusal Value :=
  readAll (readValue text.length maxDepth) text

end TreeLint.Json
