import TreeLint.Proofs.SpelledValues

/-!
# The grammar of JSON

A JSON text is a tree of tokens (`Source`) with gaps between them. The tree has the tokens as they
are written: a string keeps its escapes, a number its digits and its exponent mark. So a tree says
what a text says, and two texts that are laid out from one tree denote the same value, whichever
values a reader makes of them.

There are two manners of laying a tree out. In the plain one gaps are blanks, and the texts are
those of JSON. In the decorated one gaps may hold comments, and a comma may stand behind the last
item of a list or object.
-/

namespace TreeLint.Json

/-! ## Tokens -/

abbrev HexDigit := { c : Char // (hexDigit? c).isSome = true }

def HexDigit.value (d : HexDigit) : Nat := (hexDigit? d.1).get d.2

/-- What may stand between the quotes of a string. -/
inductive StringPart where
  | plain (c : Char) (hquote : c ≠ '"') (hbackslash : c ≠ '\\') (hcontrol : ¬ c.toNat < 0x20)
  | escape (letter meant : Char) (h : escape? letter = some meant)
  | code (a b c d : HexDigit)

namespace StringPart

def text : StringPart → List Char
  | .plain c .. => [c]
  | .escape letter .. => ['\\', letter]
  | .code a b c d => ['\\', 'u', a.1, b.1, c.1, d.1]

def codeOf (a b c d : HexDigit) : Nat :=
  16 * (16 * (16 * (16 * 0 + a.value) + b.value) + c.value) + d.value

/-- What a part adds to a string, behind a numeric escape that is the first half of a pair if there
is one, and the first half that it leaves. Halves that do not pair add nothing. -/
def step? : (half : Option Nat) → StringPart → Option (Option Nat × List Char)
  | none, .plain c .. => some (none, [c])
  | none, .escape _ meant _ => some (none, [meant])
  | none, .code a b c d =>
    if isFirstHalf (codeOf a b c d) then some (some (codeOf a b c d), [])
    else if isSecondHalf (codeOf a b c d) then none
    else some (none, [Char.ofNat (codeOf a b c d)])
  | some first, .code a b c d =>
    if isSecondHalf (codeOf a b c d) then
      some (none,
        [Char.ofNat (0x10000 + (first - 0xD800) * 0x400 + (codeOf a b c d - 0xDC00))])
    else none
  | some _, _ => none

/-- The characters that parts of a string stand for. No half of a pair is left over. -/
def meaning? : (half : Option Nat) → List StringPart → Option (List Char)
  | none, [] => some []
  | some _, [] => none
  | half, part :: rest =>
    (part.step? half).bind fun step => (meaning? step.1 rest).map (step.2 ++ ·)

end StringPart

/-- A string as it is written. -/
def quoted (parts : List StringPart) : List Char := '"' :: (parts.flatMap StringPart.text ++ ['"'])

/-- The string that parts stand for. -/
def stringOf? (parts : List StringPart) : Option String :=
  (StringPart.meaning? none parts).map String.ofList

abbrev Digits := { digits : List Char // digits ≠ [] ∧ ∀ c ∈ digits, isDigit c = true }

structure Exponent where
  capital : Bool
  /-- Whether there is a sign, and whether it is a minus. -/
  sign : Option Bool
  digits : Digits

namespace Exponent

def signText : Option Bool → List Char
  | none => []
  | some true => ['-']
  | some false => ['+']

def mark (capital : Bool) : Char := if capital then 'E' else 'e'

def text (e : Exponent) : List Char := mark e.capital :: (signText e.sign ++ e.digits.1)

def value (e : Exponent) : Int :=
  if e.sign = some true then -(digitsValue e.digits.1 : Int) else digitsValue e.digits.1

end Exponent

/-- A number as it is written. -/
structure NumberForm where
  negative : Bool
  whole : Digits
  /-- No zeros in front. -/
  whole_form : ¬ (1 < whole.1.length ∧ whole.1.head? = some '0')
  fraction : Option Digits
  exponent : Option Exponent

namespace NumberForm

def fractionText : Option Digits → List Char
  | none => []
  | some digits => '.' :: digits.1

def exponentText : Option Exponent → List Char
  | none => []
  | some e => e.text

def text (n : NumberForm) : List Char :=
  sign n.negative ++ (n.whole.1 ++ (fractionText n.fraction ++ exponentText n.exponent))

/-- The number that is written. -/
def number (n : NumberForm) : Number :=
  match n.fraction, n.exponent with
  | none, none => .ofDigits n.negative (digitsValue n.whole.1)
  | fraction, exponent =>
    let decimals := (fraction.map (·.1)).getD []
    .decimal n.negative (digitsValue (n.whole.1 ++ decimals))
      ((exponent.map Exponent.value).getD 0 - decimals.length)

end NumberForm

/-! ## Trees of tokens -/

inductive Source where
  | null
  | bool (value : Bool)
  | number (form : NumberForm)
  | string (parts : List StringPart)
  | array (items : List Source)
  | object (entries : List (List StringPart × Source))

namespace Source

mutual

/-- The value that a reader with so much depth makes of a tree: nothing if the tree is nested more
deeply, or if it holds a number past the doubles or a half of a pair. -/
def value? : Source → (depth : Nat) → Option Value
  | .null, _ => some .null
  | .bool b, _ => some (.bool b)
  | .number form, _ => if form.number.isAllowed then some (.number form.number) else none
  | .string parts, _ => (stringOf? parts).map .string
  | .array _, 0 => none
  | .array items, depth + 1 => (values? items depth).map .array
  | .object _, 0 => none
  | .object entries, depth + 1 => (entryValues? entries depth).map .object

def values? : List Source → (depth : Nat) → Option (List Value)
  | [], _ => some []
  | item :: rest, depth =>
    (item.value? depth).bind fun v => (values? rest depth).map (v :: ·)

def entryValues? : List (List StringPart × Source) → (depth : Nat) → Option (List (String × Value))
  | [], _ => some []
  | (key, value) :: rest, depth =>
    (stringOf? key).bind fun k => (value.value? depth).bind fun v =>
      (entryValues? rest depth).map ((k, v) :: ·)

end

end Source

/-! ## Layouts -/

/-- How a tree may be laid out. -/
inductive Manner where
  | plain
  | decorated

/-- Blanks and comments. -/
inductive Decoration : List Char → Prop where
  | nil : Decoration []
  | blank {c : Char} {rest : List Char} (hc : isGap c = true) (h : Decoration rest) :
      Decoration (c :: rest)
  | line {inside rest : List Char} (hinside : '\n' ∉ inside) (h : Decoration rest) :
      Decoration ('/' :: '/' :: (inside ++ '\n' :: rest))
  | block {inside rest : List Char} (hinside : ¬ ['*', '/'] <:+: inside) (h : Decoration rest) :
      Decoration ('/' :: '*' :: (inside ++ '*' :: '/' :: rest))

namespace Manner

/-- What may stand between tokens. -/
def Gap : Manner → List Char → Prop
  | .plain, text => Blank text
  | .decorated, text => Decoration text

/-- What may stand between the last item and the end of a list or object. -/
def Behind : Manner → List Char → Prop
  | .plain, text => Blank text
  | .decorated, text => Decoration text ∨
    ∃ front back, Decoration front ∧ Decoration back ∧ text = front ++ ',' :: back

/-- What may stand at the end of a text. The line of a comment need not end there. -/
def End : Manner → List Char → Prop
  | .plain, text => Blank text
  | .decorated, text => Decoration text ∨
    ∃ front inside, Decoration front ∧ '\n' ∉ inside ∧ text = front ++ '/' :: '/' :: inside

end Manner

mutual

/-- A text is a tree laid out in some manner, without gaps around it. -/
inductive Laid (m : Manner) : Source → List Char → Prop where
  | null : Laid m .null ['n', 'u', 'l', 'l']
  | isTrue : Laid m (.bool true) ['t', 'r', 'u', 'e']
  | isFalse : Laid m (.bool false) ['f', 'a', 'l', 's', 'e']
  | number {form : NumberForm} : Laid m (.number form) form.text
  | string {parts : List StringPart} : Laid m (.string parts) (quoted parts)
  | emptyArray {gap : List Char} (hgap : m.Gap gap) : Laid m (.array []) ('[' :: (gap ++ [']']))
  | array {items : List Source} {text : List Char} (h : LaidItems m items text) :
      Laid m (.array items) ('[' :: text)
  | emptyObject {gap : List Char} (hgap : m.Gap gap) : Laid m (.object []) ('{' :: (gap ++ ['}']))
  | object {entries : List (List StringPart × Source)} {text : List Char}
      (h : LaidEntries m entries text) : Laid m (.object entries) ('{' :: text)

/-- The items of a list, from behind its opening bracket on. -/
inductive LaidItems (m : Manner) : List Source → List Char → Prop where
  | last {item : Source} {front text back : List Char} (hfront : m.Gap front)
      (h : Laid m item text) (hback : m.Behind back) :
      LaidItems m [item] (front ++ (text ++ (back ++ [']'])))
  | cons {item : Source} {items : List Source} {front text back others : List Char}
      (hfront : m.Gap front) (h : Laid m item text) (hback : m.Gap back)
      (hitems : LaidItems m items others) :
      LaidItems m (item :: items) (front ++ (text ++ (back ++ ',' :: others)))

/-- The entries of an object, from behind its opening brace on. -/
inductive LaidEntries (m : Manner) : List (List StringPart × Source) → List Char → Prop where
  | last {key : List StringPart} {value : Source} {front middle gap text back : List Char}
      (hfront : m.Gap front) (hmiddle : m.Gap middle) (hgap : m.Gap gap) (h : Laid m value text)
      (hback : m.Behind back) :
      LaidEntries m [(key, value)]
        (front ++ (quoted key ++ (middle ++ ':' :: (gap ++ (text ++ (back ++ ['}']))))))
  | cons {key : List StringPart} {value : Source} {entries : List (List StringPart × Source)}
      {front middle gap text back others : List Char} (hfront : m.Gap front)
      (hmiddle : m.Gap middle) (hgap : m.Gap gap) (h : Laid m value text) (hback : m.Gap back)
      (hentries : LaidEntries m entries others) :
      LaidEntries m ((key, value) :: entries)
        (front ++ (quoted key ++ (middle ++ ':' :: (gap ++ (text ++ (back ++ ',' :: others))))))

end

/-- A whole text is a tree laid out in some manner. -/
def Writes (m : Manner) (s : Source) (text : List Char) : Prop :=
  ∃ front body back, m.Gap front ∧ Laid m s body ∧ m.End back ∧ text = front ++ (body ++ back)

end TreeLint.Json
