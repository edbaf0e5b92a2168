/-
Independent seeds out of one base seed.

Each stream number selects a point of a sequence with constant stride, and the
point is scrambled by an invertible mixing of its bits.
-/

namespace Croupier.Seed

/-- The stride between neighbouring streams. -/
def stride : UInt64 := 0x9E3779B97F4A7C15

/-- Folds the upper bits of a word onto its lower bits. -/
def fold (word shift : UInt64) : UInt64 :=
  word ^^^ (word >>> shift)

/-- An invertible scrambling of all bits of a word. -/
def mix (word : UInt64) : UInt64 :=
  let word := fold word 30 * 0xBF58476D1CE4E5B9
  let word := fold word 27 * 0x94D049BB133111EB
  fold word 31

/-- The seed of a stream under a base seed. -/
def derive (base stream : UInt64) : UInt64 :=
  mix (base + (stream + 1) * stride)

end Croupier.Seed
