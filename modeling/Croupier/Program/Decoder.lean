/-
Reading compiled bytes from left to right.

A decoder starts at a cursor and either fails with a cause at the cursor or
returns a value and the cursor behind it. Numbers are big-endian, signed ones
in two's complement.
-/

import Croupier.Program.ParseError

namespace Croupier

/-- A section that is being read, the offset of the next byte, and the bytes
from there to the end of the program. -/
structure Cursor where
  place : Section
  offset : Nat
  rest : List UInt8
  deriving Repr

/-- A reader of compiled bytes. -/
abbrev Decoder := StateT Cursor (Except ParseError)

namespace Decoder

variable {α : Type}

/-- Gives up for a cause at the cursor. -/
def fail (cause : ParseCause) : Decoder α :=
  fun cursor => .error ⟨cursor.place, cursor.offset, cause⟩

/-- How many bytes are left. -/
def remaining : Decoder Nat :=
  fun cursor => .ok (cursor.rest.length, cursor)

/-- The next bytes, exactly so many. Nothing is read if there are fewer. -/
def take (count : Nat) : Decoder (List UInt8) :=
  fun cursor =>
    let taken := cursor.rest.take count
    if taken.length < count then
      fail .truncated cursor
    else
      .ok (taken,
        { cursor with
          offset := cursor.offset + count
          rest := cursor.rest.drop count })

/-- The number that big-endian digits in base 256 denote. -/
def unsigned (digits : List UInt8) : Nat :=
  digits.foldl (fun value digit => value * 256 + digit.toNat) 0

/-- The number that big-endian digits in base 256 denote in two's complement. -/
def signed (digits : List UInt8) : Int :=
  let value := unsigned digits
  if value < 128 * Nat.pow 256 (digits.length - 1) then
    value
  else
    (value : Int) - (Nat.pow 256 digits.length : Nat)

def byte : Decoder UInt8 := do
  let taken ← take 1
  return taken.headD 0

/-- One byte as a number. -/
def small : Decoder Nat := do
  let digit ← byte
  return digit.toNat

/-- One byte as a truth value; only zero is false. -/
def flag : Decoder Bool := do
  let digit ← byte
  return digit ≠ 0

/-- An unsigned number of so many bytes. -/
def natural (width : Nat) : Decoder Nat := do
  let digits ← take width
  return unsigned digits

/-- A signed number of so many bytes. -/
def integer (width : Nat) : Decoder Int := do
  let digits ← take width
  return signed digits

/-- Gives up for a cause unless the condition holds. -/
def require (condition : Bool) (cause : ParseCause) : Decoder Unit :=
  if condition then pure () else fail cause

/-- The same decoder so many times over. -/
def times (decoder : Decoder α) : (count : Nat) → Decoder (List α)
  | 0 => pure []
  | count + 1 => do
      let first ← decoder
      let rest ← times decoder count
      return first :: rest

end Decoder

end Croupier
