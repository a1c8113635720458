/-!
# Numbers of a JSON text

An integer without point and exponent that fits 64 bits is kept as an integer. Everything else,
negative zero included, is a decimal, kept exactly as its digits and a power of ten.

A decimal that rounds past the largest double is refused. The rounding is the usual one of a reader
that works with 64-bit significands: as many leading digits as fit 64 bits are read, the power of
ten is rounded to a double, and so is their product. All of that is integer arithmetic, because a
power of ten below one can only make a number smaller.
-/

namespace TreeLint.Json

/-- A number as its text gave it. -/
inductive Number where
  /-- A whole number of at most 64 bits. -/
  | integer (value : Int)
  /-- The digits times a power of ten, with a sign of its own so that negative zero has one. -/
  | decimal (negative : Bool) (digits : Nat) (exponent : Int)
  deriving DecidableEq, Repr

/-- The nearest number with at most 53 binary digits in front of its zeros, ties to even. -/
def roundToDouble (n : Nat) : Nat :=
  let unit := Nat.pow 2 (n.log2 + 1 - 53)
  let quotient := n / unit
  let rest := n % unit
  if unit < 2 * rest ∨ (2 * rest = unit ∧ quotient % 2 = 1) then (quotient + 1) * unit
  else quotient * unit

/-- The digits that fit 64 bits, and how many were left out behind them. -/
def leadingDigits (digits : Nat) : (fuel : Nat) → Nat × Nat
  | 0 => (digits, 0)
  | fuel + 1 =>
    if digits < Nat.pow 2 64 then (digits, 0)
    else
      let (kept, dropped) := leadingDigits (digits / 10) fuel
      (kept, dropped + 1)

/-- Whether a decimal stays within the doubles. -/
def isFinite (digits : Nat) (exponent : Int) : Bool :=
  let (kept, dropped) := leadingDigits digits (digits.log2 + 1)
  let scale := exponent + dropped
  kept == 0 || scale < 0 ||
    (scale ≤ 308 &&
      roundToDouble (roundToDouble kept * roundToDouble (Nat.pow 10 scale.toNat)) <
        Nat.pow 2 1024)

/-- The number of a text without point and exponent. -/
def Number.ofDigits (negative : Bool) (digits : Nat) : Number :=
  if negative then
    if 0 < digits ∧ digits ≤ Nat.pow 2 63 then .integer (-digits) else .decimal true digits 0
  else if digits < Nat.pow 2 64 then .integer digits
  else .decimal false digits 0

def Number.isAllowed : Number → Bool
  | .integer _ => true
  | .decimal _ digits exponent => isFinite digits exponent

end TreeLint.Json
