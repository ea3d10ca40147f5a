/-!
# Decimal numerals

How digits are read. An integer is a numeral with an optional sign, in the range of signed 64-bit
words. A decimal fraction is read exactly, as a natural number times a power of ten; nothing is
rounded here.

**The laws** (`numeral_append_singleton`, `numeral_toDigits`): a numeral with a further digit is
worth ten times as much and the digit, and the digits of a number are worth the number.
-/

namespace FrontEnd

/-- The worth of a decimal digit. -/
def digitValue (c : Char) : Nat :=
  c.toNat - '0'.toNat

/-- **The worth of a numeral**, leading zeros included. -/
def numeral (digits : List Char) : Nat :=
  digits.foldl (fun value c => 10 * value + digitValue c) 0

/-- Whether a text is a numeral: digits only, and at least one. -/
def isNumeral (text : List Char) : Bool :=
  !text.isEmpty && text.all Char.isDigit

/-- A numeral with an optional sign. -/
def signedNumeral? (text : List Char) : Option Int :=
  match text with
  | '-' :: digits => if isNumeral digits then some (-(numeral digits : Int)) else none
  | '+' :: digits => if isNumeral digits then some (numeral digits) else none
  | digits => if isNumeral digits then some (numeral digits) else none

/-- **The integer that a text writes**, if it is a signed numeral in the range of 64 bits. -/
def integer? (text : String) : Option Int :=
  (signedNumeral? text.toList).filter fun n => -0x8000000000000000 ≤ n && n < 0x8000000000000000

/-- **A decimal fraction**: `digits` times ten to the power `exponent`. -/
structure Fraction where
  digits : Nat
  exponent : Int
deriving DecidableEq, Repr

/-- The power of ten that follows the digits of a fraction, `0` where none is written. -/
def exponentPart? : List Char → Option Int
  | [] => some 0
  | c :: rest => if c = 'e' ∨ c = 'E' then signedNumeral? rest else none

/-- The digits after the point that a text begins with, if it begins with a point, and the rest. -/
def fractionDigits : List Char → List Char × List Char
  | '.' :: rest => rest.span Char.isDigit
  | rest => ([], rest)

/-- **The decimal fraction that a text writes**: digits with at most one point among or beside
them, at least one digit, and an optional power of ten. -/
def fraction? (text : List Char) : Option Fraction :=
  let (whole, afterWhole) := text.span Char.isDigit
  let (decimals, afterDigits) := fractionDigits afterWhole
  if whole.isEmpty && decimals.isEmpty then none
  else
    (exponentPart? afterDigits).map fun power =>
      ⟨numeral (whole ++ decimals), power - decimals.length⟩

/-- A further digit makes a numeral worth ten times as much and the digit. -/
theorem numeral_append_singleton (digits : List Char) (c : Char) :
    numeral (digits ++ [c]) = 10 * numeral digits + digitValue c := by
  simp [numeral]

/-- A digit character is worth its digit. -/
theorem digitValue_digitChar {n : Nat} (h : n < 10) : digitValue (Nat.digitChar n) = n := by
  have all : ∀ m < 10, digitValue (Nat.digitChar m) = m := by decide
  exact all n h

/-- **The digits of a number are worth the number.** -/
theorem numeral_toDigits (n : Nat) : numeral (Nat.toDigits 10 n) = n := by
  induction n using Nat.strongRecOn with
  | ind n ih =>
    by_cases small : n < 10
    · rw [Nat.toDigits_of_lt_base small]
      simp [numeral, digitValue_digitChar small]
    · have front := Nat.toDigits_append_toDigits (b := 10) (n := n / 10) (d := n % 10) (by decide)
        (Nat.div_pos (Nat.le_of_not_lt small) (by decide)) (Nat.mod_lt _ (by decide))
      rw [Nat.div_add_mod, Nat.toDigits_of_lt_base (Nat.mod_lt _ (by decide))] at front
      rw [← front, numeral_append_singleton, ih (n / 10) (Nat.div_lt_self (by omega) (by decide)),
        digitValue_digitChar (Nat.mod_lt _ (by decide)), Nat.div_add_mod]

end FrontEnd
