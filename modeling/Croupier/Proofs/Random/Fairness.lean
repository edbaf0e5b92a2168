/-
A shuffle is fair: each order of the items comes from exactly one choice of places.

No swap below a place moves what lies there, so the item that comes last is the one that the first
place names. Items that all differ therefore show which places were drawn, one after the other from
the last place down.
-/

import Croupier.Proofs.Random.Shuffles

namespace Croupier.Draw

open scoped Nat

variable {α : Type} {items : Array α} {last : Nat}

/-! ### What the swaps leave alone -/

theorem getElem?_arrange_of_lt {places : List Nat} (fits : Fits last places) {place : Nat}
    (behind : last < place) : (arrange items last places)[place]? = items[place]? := by
  induction last generalizing items places with
  | zero => rfl
  | succ last ih =>
      cases places with
      | nil => cases fits
      | cons drawn rest =>
          obtain ⟨inside, fits⟩ := fits
          have untouched : (items.swapIfInBounds (last + 1) drawn)[place]? = items[place]? := by
            grind
          exact (ih fits (Nat.lt_of_succ_lt behind)).trans untouched

/-- The item at the last place is the one that the first swap takes there. -/
theorem getElem?_arrange_last {drawn : Nat} {rest : List Nat}
    (fits : Fits (last + 1) (drawn :: rest)) (within : last + 1 < items.size) :
    (arrange items (last + 1) (drawn :: rest))[last + 1]? = items[drawn]? := by
  obtain ⟨inside, fits⟩ := fits
  have swapped : (items.swapIfInBounds (last + 1) drawn)[last + 1]? = items[drawn]? := by
    grind
  exact (getElem?_arrange_of_lt fits (Nat.lt_succ_self last)).trans swapped

/-! ### Places out of orders -/

/-- Items that all differ are in another order for any other places. -/
theorem injOn_arrange (distinct : items.toList.Nodup) (inside : last ≤ items.size - 1) :
    Set.InjOn (arrange items last) { places | Fits last places } := by
  -- The first place can be read off the item that comes last. It fixes the first swap, after which
  -- the items still differ, and the others are read off below the last place.
  induction last generalizing items with
  | zero =>
      intro left leftFits right rightFits _
      cases leftFits
      cases rightFits
      rfl
  | succ last ih =>
      intro left leftFits right rightFits same
      cases left with
      | nil => cases leftFits
      | cons drawn rest =>
          cases right with
          | nil => cases rightFits
          | cons other others =>
              have within : last + 1 < items.size := by omega
              have named : items[drawn]? = items[other]? := by
                rw [← getElem?_arrange_last leftFits within, same,
                  getElem?_arrange_last rightFits within]
              have first : drawn = other := by
                refine (List.getElem?_inj ?_ distinct).mp ?_
                · rw [Array.length_toList]
                  exact leftFits.1.trans_lt within
                · rwa [Array.getElem?_toList, Array.getElem?_toList]
              subst other
              have differ : (items.swapIfInBounds (last + 1) drawn).toList.Nodup := by
                rw [Array.toList_swapIfInBounds]
                exact (List.swap_perm items.toList _ _).nodup_iff.mpr distinct
              have below : last ≤ (items.swapIfInBounds (last + 1) drawn).size - 1 := by
                rw [Array.size_swapIfInBounds]
                omega
              exact congrArg (drawn :: ·) (ih differ below leftFits.2 rightFits.2 same)

/-- The order that the given places bring the items into. -/
def order (items : List α) (places : List Nat) : List α :=
  (arrange items.toArray (items.length - 1) places).toList

theorem order_perm (items : List α) (places : List Nat) : (order items places).Perm items :=
  (arrange_perm places _ items.toArray).toList

theorem bijOn_order {items : List α} (distinct : items.Nodup) :
    Set.BijOn (order items) { places | Fits (items.length - 1) places }
      { ordered | ordered.Perm items } := by
  refine ⟨fun places _ => order_perm items places, ?_, ?_⟩
  · intro left leftFits right rightFits same
    exact injOn_arrange distinct (by rw [List.size_toArray]) leftFits rightFits
      (Array.toList_inj.mp same)
  · intro ordered permuted
    obtain ⟨places, fits, arranged⟩ := exists_fits_arrange_iff.mpr permuted
    exact ⟨places, fits, arranged.symm⟩

/-- Items that all differ have as many orders as the factorial of their number. -/
theorem ncard_perm {items : List α} (distinct : items.Nodup) :
    { ordered : List α | ordered.Perm items }.ncard = items.length ! := by
  have listed : { ordered : List α | ordered.Perm items } =
      (⟨items.permutations, items.nodup_permutations distinct⟩ : Finset (List α)) := by
    ext ordered
    exact List.mem_permutations.symm
  rw [listed, Set.ncard_coe_finset]
  exact items.length_permutations

/-- A shuffle from any source puts the items into the order that the drawn places lead to, a
permutation of them. Any places that fit may be drawn, one after the other from the words of a
source, and for items that all differ each order comes from exactly one choice of places. -/
theorem shuffle_fair (items : List α) :
    (∀ {σ : Type} (next : σ → UInt64 × σ) (source : σ),
      Fits (items.length - 1) (places next (items.length - 1) source).1 ∧
      (shuffle next items source).1 = order items (places next (items.length - 1) source).1 ∧
      (shuffle next items source).1.Perm items) ∧
    (items.length < 2 ^ 64 → ∀ places, Fits (items.length - 1) places →
      shuffle fromWords items (places.map Nat.toUInt64) = (order items places, [])) ∧
    (items.Nodup →
      Set.BijOn (order items) { places | Fits (items.length - 1) places }
        { ordered | ordered.Perm items } ∧
      { ordered : List α | ordered.Perm items }.ncard = items.length !) := by
  refine ⟨fun next source => ?_, fun small places fits => ?_, fun distinct => ?_⟩
  · exact ⟨fits_places next _ source, rfl, order_perm items _⟩
  · unfold shuffle
    rw [places_fromWords fits (by omega)]
    rfl
  · exact ⟨bijOn_order distinct, ncard_perm distinct⟩

theorem shuffle_fair_threeItems :
    ([7, 8, 9].Nodup ∧ [7, 8, 9].length < 2 ^ 64 ∧ Fits ([7, 8, 9].length - 1) [0, 1]) ∧
    shuffle fromWords [7, 8, 9] [0, 1] = ([9, 8, 7], []) ∧
    Set.BijOn (order [7, 8, 9]) { places | Fits 2 places } { ordered | ordered.Perm [7, 8, 9] } ∧
    { ordered : List Nat | ordered.Perm [7, 8, 9] }.ncard = 6 := by
  have distinct : [7, 8, 9].Nodup := by decide
  have fits : Fits 2 [0, 1] := ⟨by decide, by decide, rfl⟩
  obtain ⟨_, drawn, fair⟩ := shuffle_fair [7, 8, 9]
  obtain ⟨bijective, count⟩ := fair distinct
  exact ⟨⟨distinct, by decide, fits⟩, drawn (by decide) [0, 1] fits, bijective, count⟩

end Croupier.Draw
