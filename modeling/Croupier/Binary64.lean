/-
Binary floating-point numbers by their 64 bits.

A value that is not a number still has a sign and a payload, which arithmetic
hands on: the first operand that is not a number is the result, made quiet. An
operation that has no result on numbers gives one fixed value that is not a
number, with its sign set.
-/

namespace Croupier

/-- A sign bit, eleven bits of exponent and fifty-two bits of fraction. -/
structure Binary64 where
  bits : UInt64
  deriving DecidableEq, Repr, Inhabited

namespace Binary64

/-! ### Parts -/

def negative (number : Binary64) : Bool :=
  number.bits >>> 63 ≠ 0

def exponentBits (number : Binary64) : Nat :=
  ((number.bits >>> 52) &&& 0x7FF).toNat

def fractionBits (number : Binary64) : Nat :=
  (number.bits &&& 0xFFFFFFFFFFFFF).toNat

/-- Whether the exponent is that of the infinities, to which no number but those
belongs. -/
def isSpecial (number : Binary64) : Bool :=
  number.exponentBits = 0x7FF

/-- Whether the bits stand for no number, finite or infinite. -/
def isNaN (number : Binary64) : Bool :=
  number.isSpecial && number.fractionBits ≠ 0

/-! ### Conversion -/

def ofFloat (number : Float) : Binary64 :=
  ⟨number.toBits⟩

def toFloat (number : Binary64) : Float :=
  Float.ofBits number.bits

instance : Coe Float Binary64 := ⟨ofFloat⟩

/-! ### Arithmetic -/

/-- What is left of a value that is not a number after any operation. -/
def quiet (number : Binary64) : Binary64 :=
  ⟨number.bits ||| 0x0008000000000000⟩

/-- The result of an operation that has none. -/
def invalid : Binary64 :=
  ⟨0xFFF8000000000000⟩

/-- The result of an operation on two numbers. -/
def combine (operation : Float → Float → Float) (left right : Binary64) :
    Binary64 :=
  if left.isNaN then
    left.quiet
  else if right.isNaN then
    right.quiet
  else
    let result := ofFloat (operation left.toFloat right.toFloat)
    if result.isNaN then invalid else result

instance : Add Binary64 := ⟨combine (· + ·)⟩

instance : Mul Binary64 := ⟨combine (· * ·)⟩

theorem combine_of_isNaN {operation : Float → Float → Float}
    {left right : Binary64} (noNumber : left.isNaN = true) :
    combine operation left right = left.quiet := by
  simp [combine, noNumber]

end Binary64

end Croupier
