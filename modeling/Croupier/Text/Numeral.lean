/-
Decimal numerals: whole numbers as they are typed.

A numeral is some blanks, a sign or none, and at least one digit, up to the end
of the text.
-/

import Croupier.Text.Ascii

namespace Croupier.Text

def isDigit (byte : UInt8) : Bool :=
  48 ≤ byte && byte ≤ 57

def digitsValue (digits : List UInt8) : Nat :=
  digits.foldl (fun value digit => value * 10 + (digit.toNat - 48)) 0

/-- The sign in front of digits, and what follows it. -/
def sign : List UInt8 → Bool × List UInt8
  | 43 :: rest => (false, rest)
  | 45 :: rest => (true, rest)
  | rest => (false, rest)

/-- The parts of a numeral: whether it is negative, and its magnitude. -/
def numeral? (text : List UInt8) : Option (Bool × Nat) :=
  let (negative, digits) := sign (text.dropWhile isBlank)
  if digits.isEmpty || !digits.all isDigit then
    none
  else
    some (negative, digitsValue digits)

/-- A whole number of 32 bits. -/
def integer? (text : List UInt8) : Option Int := do
  let (negative, magnitude) ← numeral? text
  let value : Int := if negative then -magnitude else magnitude
  if -0x80000000 ≤ value ∧ value < 0x80000000 then some value else none

/-- An unsigned number of 64 bits. A text that begins with a minus sign is
refused; behind blanks a minus sign means the negation modulo 2^64. -/
def word? (text : List UInt8) : Option UInt64 := do
  if text.head? = some 45 then
    none
  let (negative, magnitude) ← numeral? text
  if magnitude < UInt64.size then
    some (if negative then -magnitude.toUInt64 else magnitude.toUInt64)
  else
    none

end Croupier.Text
