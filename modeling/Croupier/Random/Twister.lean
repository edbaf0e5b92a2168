/-
The 64-bit Mersenne Twister: a reproducible source of raw 64-bit words.

The recurrence works on blocks of 312 words. A generator that was only seeded
keeps its seed and expands it when the first word is wanted, so copying or
seeding a generator that is never drawn from costs nothing.
-/

namespace Croupier

/-- A generator is freshly seeded, or it is some words into a block. -/
inductive Generator where
  | seeded (seed : UInt64)
  | running (block : Array UInt64) (used : Nat)
  deriving DecidableEq, Repr

namespace Generator

/-- The seed of a generator that nobody seeded. -/
def standardSeed : UInt64 := 5489

instance : Inhabited Generator := ⟨.seeded standardSeed⟩

/-- Words in a block. -/
def blockSize : Nat := 312

/-- Distance between a word and the later word it is mixed with. -/
def mixDistance : Nat := 156

/-- The upper 33 bits of a word. -/
def upperBits : UInt64 := 0xFFFFFFFF80000000

/-- The lower 31 bits of a word. -/
def lowerBits : UInt64 := 0x7FFFFFFF

/-- The coefficients of the twist. -/
def twistWord : UInt64 := 0xB5026F5AA96619E9

/-- The multiplier between the words of a seeded block. -/
def seedWord : UInt64 := 6364136223846793005

/-- Spreads a seed over a block, each word scrambled out of the one before. -/
def seedBlock (seed : UInt64) : Array UInt64 :=
  (blockSize - 1).fold
    (fun index _ block =>
      let last : UInt64 := block.getD index 0
      let folded : UInt64 := last ^^^ (last >>> 62)
      block.push (seedWord * folded + (index + 1).toUInt64))
    ((Array.mkEmpty blockSize).push seed)

/-- Replaces one word of the block by its successor in the recurrence. -/
def twistAt (block : Array UInt64) (index : Nat) : Array UInt64 :=
  let joined := (block.getD index 0 &&& upperBits)
    ||| (block.getD ((index + 1) % blockSize) 0 &&& lowerBits)
  let twisted := (joined >>> 1)
    ^^^ (if joined &&& 1 = 0 then 0 else twistWord)
  block.setIfInBounds index
    (block.getD ((index + mixDistance) % blockSize) 0 ^^^ twisted)

/-- The block that follows a block. -/
def twist (block : Array UInt64) : Array UInt64 :=
  blockSize.fold (fun index _ block => twistAt block index) block

/-- Spreads the bits of a word of the block over the word that is handed out. -/
def temper (word : UInt64) : UInt64 :=
  let word := word ^^^ ((word >>> 29) &&& 0x5555555555555555)
  let word := word ^^^ ((word <<< 17) &&& 0x71D67FFFEDA60000)
  let word := word ^^^ ((word <<< 37) &&& 0xFFF7EEE000000000)
  word ^^^ (word >>> 43)

/-- Hands out the next word of a block, or the first word of the block after it
once all words are used. -/
def nextInBlock (block : Array UInt64) (used : Nat) : UInt64 × Generator :=
  if used < blockSize then
    (temper (block.getD used 0), .running block (used + 1))
  else
    let block := twist block
    (temper (block.getD 0 0), .running block 1)

/-- The next raw word, and the generator after it. -/
def next : Generator → UInt64 × Generator
  | seeded seed => nextInBlock (seedBlock seed) blockSize
  | running block used => nextInBlock block used

end Generator

end Croupier
