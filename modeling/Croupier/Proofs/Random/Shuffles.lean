/-
Which orders a shuffle can lead to.

Whatever the raw words, every place is swapped with one at or below it. Places that meet this lead
to every order of the items and to no other: the item that is to come last lies at or below the last
place, from where one swap takes it there, and the other items are arranged below it.
-/

import Croupier.Proofs.Play.Deal
import Croupier.Proofs.Random.Draws
import Croupier.Proofs.Strategy.Choose

namespace Croupier.Draw

variable {σ : Type} {α : Type}

/-! ### Places -/

/-- Whether a shuffle of the places up to the last one may draw these: for each of them, from the
last one down, a place at or below it. -/
def Fits : (last : Nat) → (places : List Nat) → Prop
  | 0, places => places = []
  | _ + 1, [] => False
  | last + 1, place :: rest => place ≤ last + 1 ∧ Fits last rest

theorem fits_places (next : σ → UInt64 × σ) (last : Nat) (source : σ) :
    Fits last (places next last source).1 := by
  induction last generalizing source with
  | zero => rfl
  | succ last ih =>
      have drawn : (below next (last + 2) source).1 < last + 2 := below_lt (Nat.succ_pos _)
      unfold places
      dsimp only
      exact ⟨Nat.le_of_lt_succ drawn, ih _⟩

/-- A word that is below the bound is what the draw answers. -/
theorem below_fromWords {place bound : Nat} (less : place < bound) (small : bound < 2 ^ 64)
    (rest : List UInt64) : below fromWords bound (place.toUInt64 :: rest) = (place, rest) := by
  have word : place.toUInt64.toNat = place := UInt64.toNat_ofNat_of_lt' (less.trans small)
  have cut : bound.toUInt64.toNat = bound := UInt64.toNat_ofNat_of_lt' small
  have answers : Answers bound place.toUInt64 place := by
    refine (answers_iff (Nat.zero_lt_of_lt less) small).mpr ⟨?_, ?_⟩
    · apply lt_limit
      rw [UInt64.lt_iff_toNat_lt, word, cut]
      exact less
    · rw [word, Nat.mod_eq_of_lt less]
  exact answers fromWords _ _ rfl

/-- Some raw words lead to any places that a shuffle may draw. -/
theorem places_fromWords {last : Nat} {places : List Nat} (fits : Fits last places)
    (small : last + 1 < 2 ^ 64) :
    Draw.places fromWords last (places.map Nat.toUInt64) = (places, []) := by
  induction last generalizing places with
  | zero =>
      cases fits
      rfl
  | succ last ih =>
      cases places with
      | nil => cases fits
      | cons place rest =>
          obtain ⟨inside, fits⟩ := fits
          unfold Draw.places
          rw [List.map_cons, below_fromWords (Nat.lt_succ_of_le inside) small]
          dsimp only
          rw [ih fits (by omega)]

/-! ### Orders -/

/-- Items of which those behind a place are in order already are the same up to there. -/
theorem take_perm_take {items target : Array α} {last : Nat}
    (settled : ∀ place, last < place → items[place]? = target[place]?)
    (permuted : target.Perm items) :
    (target.toList.take (last + 1)).Perm (items.toList.take (last + 1)) := by
  have behind : items.toList.drop (last + 1) = target.toList.drop (last + 1) := by
    apply List.ext_getElem?
    intro place
    rw [List.getElem?_drop, List.getElem?_drop, Array.getElem?_toList, Array.getElem?_toList]
    exact settled _ (by omega)
  have whole := permuted.toList
  rw [← List.take_append_drop (last + 1) target.toList,
    ← List.take_append_drop (last + 1) items.toList, behind] at whole
  exact (List.perm_append_right_iff _).mp whole

theorem getElem?_zero_of_take_perm {items target : List α}
    (same : (items.take 1).Perm (target.take 1)) : items[0]? = target[0]? := by
  cases items with
  | nil =>
      have none := same.nil_eq
      cases target with
      | nil => rfl
      | cons item rest => cases none
  | cons item rest =>
      cases target with
      | nil => cases same.eq_nil
      | cons wanted behind =>
          have one : [item].Perm [wanted] := same
          rw [List.singleton_perm_singleton] at one
          rw [one]
          rfl

/-- A shuffle from a place down leads to every order that keeps what is behind the place. -/
theorem exists_fits_arrange {target : Array α} (last : Nat) :
    ∀ items : Array α, last ≤ items.size - 1 →
      (∀ place, last < place → items[place]? = target[place]?) → target.Perm items →
        ∃ places, Fits last places ∧ arrange items last places = target := by
  induction last with
  | zero =>
      intro items _ settled permuted
      refine ⟨[], rfl, ?_⟩
      change items = target
      apply Array.ext_getElem?
      intro place
      rcases Nat.eq_zero_or_pos place with rfl | above
      · have first := take_perm_take settled permuted
        rw [← Array.getElem?_toList, ← Array.getElem?_toList]
        exact getElem?_zero_of_take_perm first.symm
      · exact settled place above
  | succ last ih =>
      intro items inside settled permuted
      have size := permuted.size_eq
      have within : last + 1 < items.size := by omega
      -- What is to come last lies at or below the last place.
      have wanted : target[last + 1] ∈ items.toList.take (last + 2) := by
        refine (take_perm_take settled permuted).mem_iff.mp ?_
        exact List.mem_take_iff_getElem.mpr ⟨last + 1, by simp; omega, rfl⟩
      obtain ⟨place, below, there⟩ := List.mem_take_iff_getElem.mp wanted
      have listed : place < items.size := by
        rw [Array.length_toList] at below
        omega
      have swapped : items.swapIfInBounds (last + 1) place =
          items.swap (last + 1) place within listed := by
        rw [Array.swapIfInBounds_def, dif_pos within, dif_pos listed]
      have settles : ∀ other, last < other →
          (items.swap (last + 1) place within listed)[other]? = target[other]? := by
        intro other above
        rcases Nat.eq_or_lt_of_le above with rfl | behind
        · rw [Array.getElem?_eq_getElem (by rwa [Array.size_swap]), Array.getElem_swap_left,
            Array.getElem?_eq_getElem (by rwa [size])]
          exact congrArg some there
        · rw [Array.getElem?_swap, if_neg (by omega), if_neg (by omega)]
          exact settled other behind
      obtain ⟨places, fits, arranged⟩ := ih (items.swap (last + 1) place within listed)
        (by rw [Array.size_swap]; omega) settles
        (permuted.trans (Array.swap_perm within listed).symm)
      refine ⟨place :: places, ⟨by omega, fits⟩, ?_⟩
      change arrange (items.swapIfInBounds (last + 1) place) last places = target
      rw [swapped, arranged]

/-- The orders that a shuffle can lead to are all there are. -/
theorem exists_fits_arrange_iff {items target : List α} :
    (∃ places, Fits (items.length - 1) places ∧
      target = (arrange items.toArray (items.length - 1) places).toList) ↔
        target.Perm items := by
  constructor
  · rintro ⟨places, _, rfl⟩
    exact (arrange_perm places _ items.toArray).toList
  · intro permuted
    have behind : ∀ place, items.length - 1 < place →
        items.toArray[place]? = target.toArray[place]? := by
      intro place above
      rw [List.getElem?_toArray, List.getElem?_toArray, List.getElem?_eq_none (by omega),
        List.getElem?_eq_none (by rw [permuted.length_eq]; omega)]
    obtain ⟨places, fits, arranged⟩ :=
      exists_fits_arrange (items.length - 1) items.toArray le_rfl behind permuted.toArray
    exact ⟨places, fits, congrArg Array.toList arranged.symm⟩

end Croupier.Draw
