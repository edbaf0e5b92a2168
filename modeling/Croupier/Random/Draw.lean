/-
Bounded draws and shuffles from any source of raw 64-bit words.

A bounded draw takes raw words until one lies below the largest multiple of the
bound that it may use, and answers with the residue of that word. Every residue
therefore stands for equally many acceptable words. A shuffle swaps each place,
from the last one down, with a drawn place at or below it.

The source is a state and a step on it, so that the same definitions serve the
generator of a table and an arbitrary stream of words.
-/

import Croupier.Random.Twister

namespace Croupier.Draw

variable {σ : Type} {α : Type}

/-- The first word that a draw below the bound refuses: the largest 64-bit word
reduced to a multiple of the bound. -/
def limit (bound : UInt64) : UInt64 :=
  0xFFFFFFFFFFFFFFFF - 0xFFFFFFFFFFFFFFFF % bound

/-- The first word below the limit among the raw words of a source, with the
source after it. Where no word is below the limit the search does not end, and
nothing is known about it. -/
def firstBelow (next : σ → UInt64 × σ) (limit : UInt64) (source : σ) :
    UInt64 × σ := Id.run do
  let mut (word, source) := next source
  while limit ≤ word do
    (word, source) := next source
  return (word, source)

/-- A number below the bound, each with the same chance. At least half of all
words are below the limit. A bound of zero leaves no number to draw and the
source untouched. -/
def below (next : σ → UInt64 × σ) (bound : Nat) (source : σ) : Nat × σ :=
  let bound := bound.toUInt64
  if bound = 0 then
    (0, source)
  else
    let (word, source) := firstBelow next (limit bound) source
    ((word % bound).toNat, source)

/-- The places that a shuffle swaps the places `last`, `last - 1`, …, `1` with,
in this order. -/
def places (next : σ → UInt64 × σ) : (last : Nat) → σ → List Nat × σ
  | 0, source => ([], source)
  | last + 1, source =>
      let (place, source) := below next (last + 2) source
      let (rest, source) := places next last source
      (place :: rest, source)

/-- Swaps the places `last`, `last - 1`, …, `1` with the given ones. -/
def arrange (items : Array α) : (last : Nat) → (places : List Nat) → Array α
  | 0, _ => items
  | _, [] => items
  | last + 1, place :: rest =>
      arrange (items.swapIfInBounds (last + 1) place) last rest

/-- The items in a drawn order. -/
def shuffle (next : σ → UInt64 × σ) (items : List α) (source : σ) :
    List α × σ :=
  let (places, source) := places next (items.length - 1) source
  ((arrange items.toArray (items.length - 1) places).toList, source)

end Croupier.Draw

namespace Croupier.Generator

/-- A number below the bound, drawn from the generator. -/
def below (generator : Generator) (bound : Nat) : Nat × Generator :=
  Draw.below next bound generator

/-- The items in an order drawn from the generator. -/
def shuffle {α : Type} (generator : Generator) (items : List α) :
    List α × Generator :=
  Draw.shuffle next items generator

end Croupier.Generator
