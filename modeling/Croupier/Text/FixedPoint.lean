/-
Fixed-point notation of binary floating-point numbers.

A finite number is a whole number times a power of two. It is multiplied by the
power of ten that the places ask for and rounded to the nearest whole number, a
half to the even neighbour, all in exact arithmetic.
-/

import Croupier.Binary64

namespace Croupier.FixedPoint

/-- A quotient rounded to the nearest whole number, a half to the even
neighbour. -/
def roundDiv (numerator denominator : Nat) : Nat :=
  let quotient := numerator / denominator
  let twice := 2 * (numerator % denominator)
  if twice > denominator ∨ twice = denominator ∧ quotient % 2 = 1 then
    quotient + 1
  else
    quotient

/-- The magnitude of a finite number times a power of ten, rounded. -/
def scaled (number : Binary64) (places : Nat) : Nat :=
  let exponent := number.exponentBits
  let fraction := number.fractionBits
  let mantissa := if exponent = 0 then fraction else fraction + 0x10000000000000
  let shift := max exponent 1
  if shift ≥ 1075 then
    mantissa * Nat.pow 2 (shift - 1075) * Nat.pow 10 places
  else
    roundDiv (mantissa * Nat.pow 10 places) (Nat.pow 2 (1075 - shift))

/-- A number of so many places behind the point, given in units of the last
place. -/
def withPoint (units places : Nat) : String :=
  let whole := toString (units / Nat.pow 10 places)
  if places = 0 then
    whole
  else
    let fraction := toString (units % Nat.pow 10 places)
    whole ++ "."
      ++ String.ofList (List.replicate (places - fraction.length) '0')
      ++ fraction

/-- How many places there are if a negative number of places is asked for. -/
def defaultPlaces : Nat := 6

/-- The notation of a number. What is not finite is written as a word; the sign
is written in any case. -/
def format (number : Binary64) (places : Int) : String :=
  let mark := if number.negative then "-" else ""
  if number.isNaN then
    mark ++ "nan"
  else if number.isSpecial then
    mark ++ "inf"
  else
    let places := if places < 0 then defaultPlaces else places.toNat
    mark ++ withPoint (scaled number places) places

/-- The notation of a fraction as a percentage. -/
def percent (fraction : Binary64) (places : Int) : String :=
  format (fraction * Binary64.ofFloat 100.0) places ++ "%"

end Croupier.FixedPoint
