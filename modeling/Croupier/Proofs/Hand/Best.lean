/-
The best five cards of a hand.

The search looks at every choice of five cards and at nothing else, so what it finds is the greatest
rank of all of them. Of a hand that is too long for that it takes the ten highest cards; which those
are goes by the cards alone, and so does everything else that a hand is worth.
-/

import Croupier.Proofs.Hand.Order

namespace Croupier

namespace Hand

variable {hand other : List Card} {count : Nat}

/-! ### Choices -/

theorem mem_choose_iff {α : Type} {chosen items : List α} :
    chosen ∈ choose count items ↔ chosen.Sublist items ∧ chosen.length = count := by
  induction items generalizing count chosen with
  | nil =>
      cases count with
      | zero => simp [choose]
      | succ count =>
          simp only [choose, List.not_mem_nil, List.sublist_nil, false_iff, not_and]
          rintro rfl
          simp
  | cons item rest ih =>
      cases count with
      | zero =>
          simp only [choose, List.mem_singleton, List.length_eq_zero_iff]
          exact ⟨fun none => ⟨none ▸ List.nil_sublist _, none⟩, And.right⟩
      | succ count =>
          simp only [choose, List.mem_append, List.mem_map, ih, List.sublist_cons_iff]
          constructor
          · rintro (⟨others, ⟨within, rfl⟩, rfl⟩ | ⟨within, size⟩)
            · exact ⟨.inr ⟨others, rfl, within⟩, rfl⟩
            · exact ⟨.inl within, size⟩
          · rintro ⟨within | ⟨others, rfl, within⟩, size⟩
            · exact .inr ⟨within, size⟩
            · exact .inl ⟨others, ⟨within, Nat.succ.inj size⟩, rfl⟩

theorem foldl_max_le_iff {α : Type} (value : α → Nat) (items : List α) (first bound : Nat) :
    items.foldl (fun best item => max best (value item)) first ≤ bound ↔
      first ≤ bound ∧ ∀ item ∈ items, value item ≤ bound := by
  induction items generalizing first with
  | nil => simp
  | cons item rest ih =>
      simp only [List.foldl_cons, ih, max_le_iff, List.forall_mem_cons, and_assoc]

/-! ### Hands of six to ten cards -/

theorem bestRank_le_iff (least : 6 ≤ hand.length) (most : hand.length ≤ 10) (bound : Nat) :
    bestRank hand ≤ bound ↔ ∀ five, five.Sublist hand → five.length = 5 → rank five ≤ bound := by
  have some : ¬hand.isEmpty = true := by
    rw [List.isEmpty_iff_length_eq_zero]
    omega
  have whole : strongest hand = hand := if_pos most
  rw [bestRank, if_neg some, if_neg (by omega), whole, foldl_max_le_iff]
  simp only [mem_choose_iff, Nat.zero_le, true_and, and_imp]

theorem bestRank_isGreatest (least : 6 ≤ hand.length) (most : hand.length ≤ 10) :
    IsGreatest {strength | ∃ five : List Card,
      five.Sublist hand ∧ five.length = 5 ∧ rank five = strength} (bestRank hand) := by
  have atMost := (bestRank_le_iff least most (bestRank hand)).mp (Nat.le_refl _)
  constructor
  · -- If no choice reached the best rank, all of them would be lower, and so would the best rank.
    by_contra missed
    have lower : ∀ five, five.Sublist hand → five.length = 5 → rank five < bestRank hand :=
      fun five within size => Nat.lt_of_le_of_ne (atMost five within size) fun reached =>
        missed ⟨five, within, size, reached⟩
    have some := lower (hand.take 5) (List.take_sublist 5 hand) (by rw [List.length_take]; omega)
    have less := (bestRank_le_iff least most (bestRank hand - 1)).mpr fun five within size =>
      Nat.le_sub_one_of_lt (lower five within size)
    omega
  · rintro strength ⟨five, within, size, rfl⟩
    exact atMost five within size

theorem bestRank_eq_rank (some : hand ≠ []) (few : hand.length ≤ 5) :
    bestRank hand = rank hand := by
  rw [bestRank, if_neg (by rwa [List.isEmpty_iff]), if_pos few]

theorem rank_le_bestRank {five : List Card} (within : five.Sublist hand) (size : five.length = 5)
    (most : hand.length ≤ 10) : rank five ≤ bestRank hand := by
  have least := within.length_le
  rcases Nat.eq_or_lt_of_le (size ▸ least) with equal | more
  · obtain rfl := within.eq_of_length (size.trans equal)
    exact Nat.le_of_eq (bestRank_eq_rank (List.ne_nil_of_length_eq_add_one size) (by omega)).symm
  · exact (bestRank_le_iff more most _).mp (Nat.le_refl _) five within size

theorem exists_best_five (least : 5 ≤ hand.length) (most : hand.length ≤ 10) :
    ∃ five, five.Sublist hand ∧ five.length = 5 ∧ rank five = bestRank hand := by
  rcases Nat.eq_or_lt_of_le least with size | more
  · have some : hand ≠ [] := List.ne_nil_of_length_eq_add_one size.symm
    exact ⟨hand, .refl hand, size.symm, (bestRank_eq_rank some size.ge).symm⟩
  · exact (bestRank_isGreatest more most).1

theorem bestRank_le_of_perm (same : hand.Perm other) (least : 6 ≤ hand.length)
    (most : hand.length ≤ 10) : bestRank hand ≤ bestRank other := by
  have size := same.length_eq
  rw [bestRank_le_iff least most]
  intro five within length
  obtain ⟨moved, permuted, there⟩ := List.exists_perm_sublist within same
  have looked := @bestRank_le_iff other (by omega) (by omega) (bestRank other)
  rw [rank_of_perm permuted.symm]
  exact looked.mp (Nat.le_refl _) moved there (permuted.length_eq.trans length)

/-! ### Longer hands -/

/-- So many cards of a hand, none of the others being higher than any of them. -/
structure Highest (count : Nat) (hand top : List Card) : Prop where
  size : top.length = count
  above : ∃ rest, hand.Perm (top ++ rest) ∧
    ∀ high ∈ top, ∀ low ∈ rest, low.atMost high = true

theorem Highest.of_perm {top : List Card} (highest : Highest count hand top)
    (same : hand.Perm other) : Highest count other top := by
  obtain ⟨size, rest, whole, above⟩ := highest
  exact ⟨size, rest, same.symm.trans whole, above⟩

theorem highest_strongest (long : maxExhaustive < hand.length) :
    Highest maxExhaustive hand (strongest hand) := by
  have sorted := List.mergeSort_perm hand fun left right => right.atMost left
  have descending := Card.pairwise_mergeSort_descending hand
  rw [strongest, if_neg (Nat.not_le_of_lt long)]
  rw [← List.take_append_drop maxExhaustive (hand.mergeSort _)] at sorted descending
  refine ⟨?_, _, sorted.symm, (List.pairwise_append.mp descending).2.2⟩
  rw [List.length_take, List.length_mergeSort]
  omega

theorem Highest.perm_strongest {top : List Card} (long : maxExhaustive < hand.length)
    (highest : Highest maxExhaustive hand top) : top.Perm (strongest hand) := by
  obtain ⟨size, rest, whole, above⟩ := highest
  have upper := List.mergeSort_perm top fun left right => right.atMost left
  have lower := List.mergeSort_perm rest fun left right => right.atMost left
  have sorted := Card.mergeSort_descending_eq (whole.trans (upper.append lower).symm)
    (List.pairwise_append.mpr ⟨Card.pairwise_mergeSort_descending top,
      Card.pairwise_mergeSort_descending rest, fun high member low behind =>
        above high (upper.mem_iff.mp member) low (lower.mem_iff.mp behind)⟩)
  rw [strongest, if_neg (Nat.not_le_of_lt long), sorted,
    List.take_left' (upper.length_eq.trans size)]
  exact upper.symm

theorem bestRank_strongest (long : maxExhaustive < hand.length) :
    bestRank (strongest hand) = bestRank hand := by
  have size : (strongest hand).length = 10 := (highest_strongest long).size
  have whole : strongest (strongest hand) = strongest hand := if_pos size.le
  have some : ¬hand.isEmpty = true := by
    rw [List.isEmpty_iff_length_eq_zero]
    omega
  have someOf : ¬(strongest hand).isEmpty = true := by
    rw [List.isEmpty_iff_length_eq_zero, size]
    decide
  have more : ¬hand.length ≤ 5 := fun few => absurd long (by unfold maxExhaustive; omega)
  rw [bestRank, if_neg someOf, if_neg (by omega), whole, bestRank, if_neg some, if_neg more]

/-! ### Hands in any order -/

theorem bestRank_of_perm (same : hand.Perm other) : bestRank hand = bestRank other := by
  have medium {left right : List Card} (same : left.Perm right) (least : 6 ≤ left.length)
      (most : left.length ≤ 10) : bestRank left = bestRank right := by
    have size := same.length_eq
    exact Nat.le_antisymm (bestRank_le_of_perm same least most)
      (bestRank_le_of_perm same.symm (by omega) (by omega))
  have size := same.length_eq
  by_cases few : hand.length ≤ 5
  · simp only [bestRank, List.isEmpty_iff_length_eq_zero, size, if_pos (size ▸ few),
      rank_of_perm same]
  · by_cases most : hand.length ≤ 10
    · exact medium same (by omega) most
    · have long : maxExhaustive < hand.length := Nat.lt_of_not_le most
      have otherLong : maxExhaustive < other.length := size ▸ long
      have highest := highest_strongest long
      have tops := (highest.of_perm same).perm_strongest otherLong
      have ten : (strongest hand).length = 10 := highest.size
      rw [← bestRank_strongest long, ← bestRank_strongest otherLong]
      exact medium tops (by omega) (by omega)

end Hand

theorem Program.handValue_of_perm {hand other : List Card} (same : hand.Perm other)
    (program : Program) : program.handValue hand = program.handValue other := by
  simp only [handValue, Hand.bestRank_of_perm same, patternValue_of_perm same]

namespace Hand

end Hand

end Croupier
