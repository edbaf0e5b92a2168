/-
Cards in order, and values of hands that do not go by the order of their cards.

Cards are ordered by rank and suit, so there is one way to sort them in either direction. What a
hand is worth is made of counts, of questions asked of every card and of sums: all of these are the
same for a hand in another order.
-/

import Croupier.Hand.Value
import Mathlib

namespace Croupier

/-! ### Sorted lists -/

/-- An order in which different things never tie sorts the same things into the same list. -/
theorem mergeSort_eq_of_antisymm {α : Type} {atMost : α → α → Bool} {left right : List α}
    (transitive : ∀ first second third, atMost first second = true → atMost second third = true →
      atMost first third = true)
    (total : ∀ first second, (atMost first second || atMost second first) = true)
    (antisymmetric : ∀ {first second}, atMost first second = true → atMost second first = true →
      first = second)
    (same : left.Perm right) : left.mergeSort atMost = right.mergeSort atMost := by
  have permuted : (left.mergeSort atMost).Perm (right.mergeSort atMost) :=
    (List.mergeSort_perm left _).trans (same.trans (List.mergeSort_perm right _).symm)
  exact permuted.eq_of_pairwise (fun _ _ _ _ => antisymmetric)
    (List.pairwise_mergeSort transitive total left)
    (List.pairwise_mergeSort transitive total right)

/-! ### Sorted cards -/

namespace Card

theorem atMost_iff {left right : Card} : left.atMost right = true ↔ left.index ≤ right.index := by
  simp only [atMost, decide_eq_true_eq]

theorem atMost_antisymm {left right : Card} (lower : left.atMost right = true)
    (upper : right.atMost left = true) : left = right :=
  index_injective (Nat.le_antisymm (atMost_iff.mp lower) (atMost_iff.mp upper))

theorem atMost_trans (first second third : Card) (lower : first.atMost second = true)
    (upper : second.atMost third = true) : first.atMost third = true :=
  atMost_iff.mpr (Nat.le_trans (atMost_iff.mp lower) (atMost_iff.mp upper))

theorem atMost_total (left right : Card) : (left.atMost right || right.atMost left) = true := by
  simp only [Bool.or_eq_true, atMost_iff]
  exact Nat.le_total _ _

theorem mergeSort_eq_of_perm {left right : List Card} (same : left.Perm right) :
    left.mergeSort atMost = right.mergeSort atMost :=
  mergeSort_eq_of_antisymm atMost_trans atMost_total atMost_antisymm same

theorem pairwise_mergeSort_descending (cards : List Card) :
    (cards.mergeSort fun left right => right.atMost left).Pairwise
      fun left right => right.atMost left = true := by
  refine List.pairwise_mergeSort ?_ ?_ cards
  · intro first second third upper lower
    exact atMost_trans third second first lower upper
  · intro left right
    exact atMost_total right left

theorem mergeSort_descending_eq {cards sorted : List Card} (same : cards.Perm sorted)
    (descending : sorted.Pairwise fun left right => right.atMost left = true) :
    cards.mergeSort (fun left right => right.atMost left) = sorted :=
  ((List.mergeSort_perm cards _).trans same).eq_of_pairwise
    (fun _ _ _ _ upper lower => atMost_antisymm lower upper)
    (pairwise_mergeSort_descending cards) descending

end Card

namespace Hand

variable {hand other : List Card}

/-! ### Shapes -/

theorem rankCount_cons (card : Card) (hand : List Card) (rank : Rank) :
    rankCount (card :: hand) rank = rankCount hand rank + if card.rank = rank then 1 else 0 := by
  simp only [rankCount, List.countP_cons, decide_eq_true_eq]

theorem rankCount_of_perm (same : hand.Perm other) : rankCount hand = rankCount other :=
  funext fun _ => same.countP_eq _

theorem suitCount_of_perm (same : hand.Perm other) : suitCount hand = suitCount other :=
  funext fun _ => same.countP_eq _

theorem largestSet_of_perm (same : hand.Perm other) : largestSet hand = largestSet other := by
  simp only [largestSet, rankCount_of_perm same]

theorem largestFlush_of_perm (same : hand.Perm other) : largestFlush hand = largestFlush other := by
  simp only [largestFlush, suitCount_of_perm same]

theorem longestRun_of_perm (same : hand.Perm other) : longestRun hand = longestRun other := by
  simp only [longestRun, same.any_eq]

theorem matching_comm (left right : Card) : matching left right = matching right left := by
  simp only [matching, eq_comm]

theorem hasMatchingPair_eq_false_iff :
    hasMatchingPair hand = false ↔ hand.Pairwise fun left right => matching left right = false := by
  induction hand with
  | nil => simp [hasMatchingPair]
  | cons card rest ih =>
      simp only [hasMatchingPair, Bool.or_eq_false_iff, ih, List.any_eq_false, List.pairwise_cons,
        Bool.not_eq_true]

theorem hasMatchingPair_of_perm (same : hand.Perm other) :
    hasMatchingPair hand = hasMatchingPair other := by
  rw [Bool.eq_iff_iff, ← not_iff_not, Bool.not_eq_true, Bool.not_eq_true]
  simp only [hasMatchingPair_eq_false_iff]
  exact same.pairwise_iff fun apart => (matching_comm _ _).trans apart

theorem total_of_perm {left right : List Int} (same : left.Perm right) :
    total left = total right := by
  induction same with
  | nil => rfl
  | cons number _ ih => simp only [total_cons, ih]
  | swap first second rest =>
      simp only [total_cons]
      omega
  | trans _ _ first second => exact first.trans second

theorem pointTotal_of_perm (same : hand.Perm other) : pointTotal hand = pointTotal other := by
  funext limit
  simp only [pointTotal, rankCount_of_perm same, total_of_perm (same.map cardValue)]

/-! ### Poker hands of up to five cards -/

theorem isFlush_iff :
    isFlush hand = true ↔ ∀ left ∈ hand, ∀ right ∈ hand, left.suit = right.suit := by
  cases hand with
  | nil => simp [isFlush]
  | cons card rest =>
      simp only [isFlush, List.all_eq_true, decide_eq_true_eq]
      constructor
      · intro suited
        have all : ∀ left ∈ card :: rest, left.suit = card.suit := fun left member =>
          (List.mem_cons.mp member).elim (congrArg Card.suit) (suited left)
        exact fun left first right second => (all left first).trans (all right second).symm
      · intro suited left member
        exact suited left (List.mem_cons_of_mem card member) card List.mem_cons_self

theorem isFlush_of_perm (same : hand.Perm other) : isFlush hand = isFlush other := by
  rw [Bool.eq_iff_iff]
  simp only [isFlush_iff, same.mem_iff]

theorem groups_of_perm (same : hand.Perm other) : groups hand = groups other := by
  simp only [groups, rankCount_of_perm same]

theorem rank_of_perm (same : hand.Perm other) : rank hand = rank other := by
  simp only [rank, category, distinctCategory, groups_of_perm same, isFlush_of_perm same]

end Hand

/-! ### Patterns -/

theorem HandPattern.value_of_perm {hand other : List Card} (same : hand.Perm other)
    (pattern : HandPattern) : pattern.value hand = pattern.value other := by
  simp only [HandPattern.value, Hand.largestSet_of_perm same, Hand.longestRun_of_perm same,
    Hand.hasMatchingPair_of_perm same, Hand.largestFlush_of_perm same, Hand.pointTotal_of_perm same]

theorem patternValue_of_perm {hand other : List Card} (same : hand.Perm other)
    (patterns : List HandPattern) : patternValue patterns hand = patternValue patterns other := by
  simp only [patternValue, HandPattern.value_of_perm same]

end Croupier
