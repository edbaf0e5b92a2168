/-
Derived seeds never collide.

Scrambling is a chain of steps that can each be undone: only zero folds to zero, and a product with
an odd number can be divided by it modulo the number of words. So neither two streams under one base
seed nor two base seeds with one stream have a derived seed in common, and no two strategies of a
game begin alike, nor does the strategy of a seat in two games of a batch.
-/

import Croupier.Match.Summary
import Mathlib.Algebra.Group.Units.Defs
import Mathlib.Data.List.Nodup
import Mathlib.Data.UInt

namespace Croupier.Seed

/-! ### Scrambling -/

theorem fold_xor (left right shift : UInt64) :
    fold (left ^^^ right) shift = fold left shift ^^^ fold right shift := by
  unfold fold
  rw [UInt64.shiftRight_xor]
  ac_rfl

/-- A word that folds to zero is its own shift, which is smaller unless it is zero. -/
theorem eq_zero_of_fold_eq_zero {word shift : UInt64} (positive : 0 < shift.toNat % 64)
    (folded : fold word shift = 0) : word = 0 := by
  have shifted : word.toNat = word.toNat / 2 ^ (shift.toNat % 64) := by
    rw [← Nat.shiftRight_eq_div_pow, ← UInt64.toNat_shiftRight]
    exact congrArg UInt64.toNat (UInt64.xor_eq_zero_iff.mp folded)
  apply UInt64.toNat_inj.mp
  by_contra some
  have smaller : word.toNat / 2 ^ (shift.toNat % 64) < word.toNat :=
    Nat.div_lt_self (Nat.pos_of_ne_zero some) (Nat.one_lt_two_pow positive.ne')
  omega

theorem fold_injective {shift : UInt64} (positive : 0 < shift.toNat % 64) :
    Function.Injective (fold · shift) := by
  intro left right same
  have difference : fold (left ^^^ right) shift = 0 := by
    rw [fold_xor, UInt64.xor_eq_zero_iff]
    exact same
  exact UInt64.xor_eq_zero_iff.mp (eq_zero_of_fold_eq_zero positive difference)

theorem mul_injective {factor : UInt64} (inverse : UInt64) (inverts : factor * inverse = 1) :
    Function.Injective (· * factor) :=
  (IsUnit.of_mul_eq_one inverse inverts).mul_left_injective

theorem mix_injective : Function.Injective mix := by
  have first : Function.Injective (· * (0xBF58476D1CE4E5B9 : UInt64)) :=
    mul_injective 0x96DE1B173F119089 (by decide)
  have second : Function.Injective (· * (0x94D049BB133111EB : UInt64)) :=
    mul_injective 0x319642B2D24D8EC3 (by decide)
  intro left right same
  have outer := fold_injective (by decide) same
  have inner := fold_injective (by decide) (second outer)
  exact fold_injective (by decide) (first inner)

/-! ### Streams and bases -/

theorem derive_injective (base : UInt64) : Function.Injective (derive base) := by
  intro left right same
  have points := (UInt64.add_right_inj base).mp (mix_injective same)
  have strides : Function.Injective (· * stride) := mul_injective 0xF1DE83E19937733D (by decide)
  exact (UInt64.add_left_inj 1).mp (strides points)

theorem derive_left_injective (stream : UInt64) : Function.Injective (derive · stream) := by
  intro left right same
  exact (UInt64.add_left_inj _).mp (mix_injective same)

/-! ### Seats and games -/

/-- The seeds of the strategies in a game, in the order of the seats. -/
def ofSeats (base : UInt64) (seats : Nat) : List UInt64 :=
  (List.range seats).map fun seat => derive base seat.toUInt64

theorem generators_begin (program : Program) (settings : Settings) (seed : UInt64) (seats : Nat) :
    (Watch.begin program settings seed seats).strategists.map (·.generator) =
      (ofSeats seed seats).map .seeded := by
  unfold Watch.begin ofSeats
  rw [List.map_map, List.map_map]
  rfl

/-- Numbers that fit into a word are told apart by their words. -/
theorem nodup_map_range {count : Nat} (fits : count ≤ 2 ^ 64) {seed : UInt64 → UInt64}
    (injective : Function.Injective seed) :
    ((List.range count).map fun index => seed index.toUInt64).Nodup := by
  refine List.Nodup.map_on ?_ List.nodup_range
  intro left leftBelow right rightBelow same
  have words := congrArg UInt64.toNat (injective same)
  rw [Nat.toUInt64_eq, Nat.toUInt64_eq, UInt64.toNat_ofNat', UInt64.toNat_ofNat'] at words
  rw [List.mem_range] at leftBelow rightBelow
  omega

theorem nodup_seeds {settings : Settings} (fits : settings.games ≤ 2 ^ 64) :
    settings.seeds.Nodup :=
  nodup_map_range (by omega) fun _ _ => (UInt64.add_right_inj settings.seed).mp

/-- Different streams have different seeds under any base, and different bases in any stream. Hence
the strategies of a game begin with seeds that all differ, and in no two games of a batch does the
strategy of a seat begin with the same seed. -/
theorem derive_apart :
    (∀ base, Function.Injective (derive base)) ∧
    (∀ stream, Function.Injective (derive · stream)) ∧
    (∀ (program : Program) (settings : Settings) (seed : UInt64) (seats : Nat),
      (Watch.begin program settings seed seats).strategists.map (·.generator) =
        (ofSeats seed seats).map .seeded ∧
      (seats ≤ 2 ^ 64 → (ofSeats seed seats).Nodup)) ∧
    ∀ (settings : Settings) (seats : Nat), settings.games ≤ 2 ^ 64 →
      settings.seeds.Pairwise fun earlier later =>
        ∀ seat < seats, (ofSeats earlier seats)[seat]? ≠ (ofSeats later seats)[seat]? := by
  refine ⟨derive_injective, derive_left_injective, ?_, ?_⟩
  · intro program settings seed seats
    exact ⟨generators_begin program settings seed seats,
      fun seated => nodup_map_range seated (derive_injective seed)⟩
  · intro settings seats games
    refine (nodup_seeds games).imp ?_
    intro earlier later different seat inside same
    unfold ofSeats at same
    rw [List.getElem?_map, List.getElem?_map, List.getElem?_range inside] at same
    exact different (derive_left_injective seat.toUInt64 (Option.some.inj same))

theorem derive_apart_fourSeats :
    (4 ≤ 2 ^ 64 ∧ (3 : Int) ≤ 2 ^ 64) ∧ (ofSeats 7 4).Nodup ∧
    (({ games := 3, seed := 6 } : Settings).seeds).Pairwise fun earlier later =>
      ∀ seat < 4, (ofSeats earlier 4)[seat]? ≠ (ofSeats later 4)[seat]? := by
  have seated : 4 ≤ 2 ^ 64 := by decide
  have games : (3 : Int) ≤ 2 ^ 64 := by decide
  obtain ⟨_, _, inGame, inBatch⟩ := derive_apart
  exact ⟨⟨seated, games⟩, (inGame {} {} 7 4).2 seated,
    inBatch { games := 3, seed := 6 } 4 games⟩

end Croupier.Seed
