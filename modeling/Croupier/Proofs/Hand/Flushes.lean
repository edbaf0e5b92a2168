/-
Which hands are at least a flush.

Five cards are if they are of one suit and of five ranks, or if they have four pairs of cards of one
rank; a longer hand is if some five of its cards are. With two decks a suit can be held five times
in fewer ranks. Cards like that count for their pairs alone.
-/

import Croupier.Proofs.Hand.Best
import Croupier.Proofs.Hand.Categories

namespace Croupier.Hand

variable {hand five : List Card}

/-! ### Five cards -/

theorem flush_le_rank_iff (size : five.length = 5) :
    Category.flush.strength ≤ strengthOf (rank five) ↔
      pairCount five = 0 ∧ isFlush five = true ∨ 4 ≤ pairCount five := by
  have many : ∀ paired ∈ pairings, Category.flush.strength ≤ paired.2.strength ↔ 4 ≤ paired.1 := by
    decide
  rw [strengthOf_rank]
  rcases category_cases (Nat.le_of_eq size) with ⟨none, distinct⟩ | ⟨paired, ⟨some, listed⟩, eq⟩
  · rw [distinct, flush_le_distinctCategory_iff ((length_ranksByGroup none).trans size), none]
    simp
  · rw [eq, many _ listed, or_iff_right fun unpaired => Nat.ne_of_gt some unpaired.1]

/-- Four cards of one rank, or three of one and two of another. -/
def FourOrFull (hand : List Card) : Prop :=
  (∃ rank, 4 ≤ rankCount hand rank) ∨
    ∃ triple double, triple ≠ double ∧ 3 ≤ rankCount hand triple ∧ 2 ≤ rankCount hand double

theorem FourOrFull.four_le_pairCount (many : FourOrFull hand) : 4 ≤ pairCount hand := by
  rw [← sum_groups_eq_pairCount]
  rcases many with ⟨rank, four⟩ | ⟨triple, double, apart, three, two⟩
  · rw [sum_groups_eq (Nat.choose · 2) rfl rank]
    have six : Nat.choose 4 2 ≤ (rankCount hand rank).choose 2 := Nat.choose_le_choose 2 four
    exact Nat.le_add_right_of_le (Nat.le_trans (by decide) six)
  · rw [sum_groups_eq (Nat.choose · 2) rfl triple]
    have member : (rankCount hand double, double) ∈ otherGroups triple hand :=
      mem_otherGroups_iff.mpr ⟨⟨by omega, rfl⟩, apart.symm⟩
    have more : (rankCount hand double).choose 2 ≤
        ((otherGroups triple hand).map fun group => group.1.choose 2).sum :=
      List.single_le_sum (fun _ _ => Nat.zero_le _) _ (List.mem_map_of_mem member)
    have most : Nat.choose 3 2 ≤ (rankCount hand triple).choose 2 := Nat.choose_le_choose 2 three
    have one : Nat.choose 2 2 ≤ (rankCount hand double).choose 2 := Nat.choose_le_choose 2 two
    exact Nat.add_le_add most (Nat.le_trans one more)

/-- Five cards in groups of at most two have at most two pairs. -/
theorem two_mul_pairCount_le (small : ∀ group ∈ groups hand, group.1 ≤ 2) :
    2 * pairCount hand ≤ hand.length := by
  rw [← sum_groups_eq_pairCount, ← sum_groups_eq_length, ← List.sum_map_mul_left]
  refine List.sum_le_sum fun group member => ?_
  have filled := (mem_groups_iff.mp member).1
  have few := small group member
  interval_cases group.1 <;> decide

theorem fourOrFull_of_four_le (size : five.length = 5) (many : 4 ≤ pairCount five) :
    FourOrFull five := by
  by_contra neither
  rw [FourOrFull, not_or, not_exists] at neither
  obtain ⟨noFour, noFull⟩ := neither
  by_cases small : ∀ group ∈ groups five, group.1 ≤ 2
  · have few := two_mul_pairCount_le small
    omega
  · simp only [not_forall, Nat.not_le] at small
    obtain ⟨⟨count, triple⟩, member, three⟩ := small
    have counted : count = rankCount five triple := (mem_groups_iff.mp member).2
    subst counted
    -- Beside three cards of a rank all others are single, so there are just three pairs.
    have single : ∀ count ∈ (otherGroups triple five).map (·.1), count ≤ 1 := by
      intro count there
      obtain ⟨⟨_, double⟩, other, rfl⟩ := List.mem_map.mp there
      obtain ⟨⟨-, counted⟩, apart⟩ := mem_otherGroups_iff.mp other
      by_contra two
      exact noFull ⟨triple, double, apart.symm, three, counted ▸ Nat.lt_of_not_le two⟩
    have none : ((otherGroups triple five).map fun group => group.1.choose 2).sum = 0 :=
      (congrArg List.sum List.map_map.symm).trans (pairs_of_single single)
    rw [← sum_groups_eq_pairCount, sum_groups_eq (Nat.choose · 2) rfl triple, none,
      Nat.add_zero] at many
    have most : (rankCount five triple).choose 2 ≤ Nat.choose 3 2 :=
      Nat.choose_le_choose 2 (Nat.le_of_not_lt (noFour triple))
    exact absurd (Nat.le_trans many most) (by decide)

/-! ### Choices of five -/

theorem exists_sublist_between {few : List Card} {size : Nat} (within : few.Sublist hand)
    (least : few.length ≤ size) (most : size ≤ hand.length) :
    ∃ chosen, few.Sublist chosen ∧ chosen.Sublist hand ∧ chosen.length = size := by
  induction within generalizing size with
  | slnil => exact ⟨[], .slnil, .slnil, (Nat.le_zero.mp most).symm⟩
  | cons card within ih =>
      rcases Nat.le_succ_iff.mp most with enough | all
      · obtain ⟨chosen, holds, there, length⟩ := ih least enough
        exact ⟨chosen, holds, there.cons card, length⟩
      · exact ⟨_, within.cons card, .refl _, all.symm⟩
  | cons_cons card within ih =>
      cases size with
      | zero => exact absurd least (Nat.not_succ_le_zero _)
      | succ size =>
          obtain ⟨chosen, holds, there, rfl⟩ :=
            ih (Nat.le_of_succ_le_succ least) (Nat.le_of_succ_le_succ most)
          exact ⟨card :: chosen, holds.cons_cons card, there.cons_cons card, rfl⟩

/-- So many cards of a rank. -/
def cardsOf (hand : List Card) (rank : Rank) (count : Nat) : List Card :=
  (hand.filter fun card => card.rank = rank).take count

theorem length_cardsOf {rank : Rank} {count : Nat} (enough : count ≤ rankCount hand rank) :
    (cardsOf hand rank count).length = count := by
  rw [cardsOf, List.length_take, ← List.countP_eq_length_filter]
  exact Nat.min_eq_left enough

theorem rankCount_cardsOf {rank : Rank} {count : Nat} (enough : count ≤ rankCount hand rank) :
    rankCount (cardsOf hand rank count) rank = count := by
  refine Eq.trans ?_ (length_cardsOf enough)
  refine List.countP_eq_length.mpr fun card member => ?_
  exact (List.mem_filter.mp (List.mem_of_mem_take member)).2

theorem cardsOf_append_subperm {triple double : Rank} (apart : triple ≠ double) (three two : Nat) :
    (cardsOf hand triple three ++ cardsOf hand double two).Subperm hand := by
  have others : (hand.filter fun card => card.rank = double).Sublist
      (hand.filter fun card => !decide (card.rank = triple)) := by
    refine List.monotone_filter_right hand fun card same => ?_
    simp only [decide_eq_true_eq, Bool.not_eq_true', decide_eq_false_iff_not] at same ⊢
    exact same ▸ apart.symm
  have pieces : (cardsOf hand triple three ++ cardsOf hand double two).Sublist _ :=
    (List.take_sublist _ _).append ((List.take_sublist _ _).trans others)
  exact pieces.subperm.trans (List.filter_append_perm _ hand).subperm

theorem FourOrFull.mono {few : List Card} (within : few.Sublist hand) (many : FourOrFull few) :
    FourOrFull hand := by
  have more (rank : Rank) : rankCount few rank ≤ rankCount hand rank := within.countP_le
  rcases many with ⟨rank, four⟩ | ⟨triple, double, apart, three, two⟩
  · exact .inl ⟨rank, Nat.le_trans four (more rank)⟩
  · exact .inr ⟨triple, double, apart, Nat.le_trans three (more triple),
      Nat.le_trans two (more double)⟩

theorem FourOrFull.exists_five (least : 5 ≤ hand.length) (many : FourOrFull hand) :
    ∃ five, five.Sublist hand ∧ five.length = 5 ∧ FourOrFull five := by
  rcases many with ⟨rank, four⟩ | ⟨triple, double, apart, three, two⟩
  · have within : (cardsOf hand rank 4).Sublist hand :=
      (List.take_sublist _ _).trans List.filter_sublist
    obtain ⟨five, holds, there, size⟩ :=
      exists_sublist_between within (by rw [length_cardsOf four]; decide) least
    have held : FourOrFull (cardsOf hand rank 4) := .inl ⟨rank, (rankCount_cardsOf four).ge⟩
    exact ⟨five, there, size, held.mono holds⟩
  · obtain ⟨five, same, there⟩ := @cardsOf_append_subperm hand _ _ apart 3 2
    refine ⟨five, there, ?_, .inr ⟨triple, double, apart, ?_, ?_⟩⟩
    · rw [same.length_eq, List.length_append, length_cardsOf three, length_cardsOf two]
    · rw [rankCount_of_perm same]
      exact Nat.le_trans (rankCount_cardsOf three).ge (List.sublist_append_left _ _).countP_le
    · rw [rankCount_of_perm same]
      exact Nat.le_trans (rankCount_cardsOf two).ge (List.sublist_append_right _ _).countP_le

theorem pairCount_eq_zero_iff :
    pairCount hand = 0 ↔ hand.Pairwise fun left right => left.rank ≠ right.rank := by
  induction hand with
  | nil => simp [pairCount]
  | cons card rest ih =>
      rw [pairCount, Nat.add_eq_zero_iff, ih, List.pairwise_cons, rankCount, List.countP_eq_zero]
      simp only [decide_eq_true_eq, ne_eq, @eq_comm _ _ card.rank]

/-- Five different cards of a suit. -/
theorem exists_flush_iff :
    (∃ five, five.Sublist hand ∧ five.length = 5 ∧ pairCount five = 0 ∧ isFlush five = true) ↔
      ∃ suit, 5 ≤ suitCount hand.dedup suit := by
  constructor
  · rintro ⟨five, within, size, unpaired, flush⟩
    have nodup : five.Nodup :=
      (pairCount_eq_zero_iff.mp unpaired).imp fun apart same => apart (congrArg Card.rank same)
    have subset : five ⊆ hand.dedup := fun card member =>
      List.mem_dedup.mpr (within.subset member)
    obtain ⟨first, member⟩ := List.exists_mem_of_length_pos (l := five) (by omega)
    have suited : suitCount five first.suit = 5 := by
      refine size ▸ List.countP_eq_length.mpr fun card there => ?_
      exact decide_eq_true (isFlush_iff.mp flush card there first member)
    exact ⟨first.suit, suited ▸ (nodup.subperm subset).countP_le _⟩
  · rintro ⟨suit, enough⟩
    set suited := hand.dedup.filter fun card => card.suit = suit
    have within : (suited.take 5).Sublist hand.dedup :=
      (List.take_sublist 5 suited).trans List.filter_sublist
    have same {card : Card} (member : card ∈ suited.take 5) : card.suit = suit :=
      of_decide_eq_true (List.mem_filter.mp (List.mem_of_mem_take member)).2
    have nodup : (suited.take 5).Nodup := within.nodup (List.nodup_dedup hand)
    refine ⟨suited.take 5, within.trans (List.dedup_sublist hand), ?_, ?_, ?_⟩
    · rw [List.length_take, ← List.countP_eq_length_filter]
      exact Nat.min_eq_left enough
    · refine pairCount_eq_zero_iff.mpr (nodup.pairwise_of_forall_ne ?_)
      rintro ⟨_, leftSuit⟩ first ⟨_, rightSuit⟩ second apart rfl
      exact apart (congrArg _ ((same first).trans (same second).symm))
    · exact isFlush_iff.mpr fun left first right second => (same first).trans (same second).symm

/-! ### Longer hands -/

theorem le_strengthOf_bestRank_iff (least : 5 ≤ hand.length) (most : hand.length ≤ 10)
    (strength : Nat) :
    strength ≤ strengthOf (bestRank hand) ↔
      ∃ five, five.Sublist hand ∧ five.length = 5 ∧ strength ≤ strengthOf (rank five) := by
  obtain ⟨best, within, size, reached⟩ := exists_best_five least most
  rw [← reached]
  constructor
  · exact fun strong => ⟨best, within, size, strong⟩
  · rintro ⟨five, there, length, strong⟩
    refine Nat.le_trans strong (Nat.le_of_not_lt fun weaker => ?_)
    rw [strengthOf_rank, strengthOf_rank] at weaker
    have worse := rank_lt_of_strength_lt weaker
    rw [reached] at worse
    exact absurd (rank_le_bestRank there length most) (Nat.not_le_of_lt worse)

/-- A hand of five to ten cards is ranked as a flush or as something stronger if and only if it has
five different cards of a suit, or four cards of a rank, or three of one rank and two of
another. -/
theorem flush_le_bestRank_iff (least : 5 ≤ hand.length) (most : hand.length ≤ 10) :
    Category.flush.strength ≤ strengthOf (bestRank hand) ↔
      (∃ suit, 5 ≤ suitCount hand.dedup suit) ∨ FourOrFull hand := by
  rw [le_strengthOf_bestRank_iff least most, ← exists_flush_iff]
  constructor
  · rintro ⟨five, within, size, strong⟩
    rcases (flush_le_rank_iff size).mp strong with ⟨unpaired, flush⟩ | many
    · exact .inl ⟨five, within, size, unpaired, flush⟩
    · exact .inr ((fourOrFull_of_four_le size many).mono within)
  · rintro (⟨five, within, size, flush⟩ | many)
    · exact ⟨five, within, size, (flush_le_rank_iff size).mpr (.inl flush)⟩
    · obtain ⟨five, within, size, held⟩ := many.exists_five least
      exact ⟨five, within, size, (flush_le_rank_iff size).mpr (.inr held.four_le_pairCount)⟩

/-- Six hearts in five ranks, and a club. -/
theorem flush_le_bestRank_iff_sixHearts :
    let hand : List Card :=
      [⟨.two, .hearts⟩, ⟨.two, .hearts⟩, ⟨.five, .hearts⟩, ⟨.nine, .hearts⟩, ⟨.jack, .hearts⟩,
        ⟨.king, .hearts⟩, ⟨.three, .clubs⟩]
    (5 ≤ hand.length ∧ hand.length ≤ 10) ∧ 5 ≤ suitCount hand.dedup .hearts ∧
      Category.flush.strength ≤ strengthOf (bestRank hand) := by
  intro hand
  have suited : 5 ≤ suitCount hand.dedup .hearts := by decide
  exact ⟨by decide, suited,
    (flush_le_bestRank_iff (by decide) (by decide)).mpr (.inl ⟨.hearts, suited⟩)⟩

/-- Five hearts from two decks, two of which are the same card, are ranked as a pair. -/
theorem suited_pair_below_flush :
    let hand : List Card :=
      [⟨.two, .hearts⟩, ⟨.two, .hearts⟩, ⟨.five, .hearts⟩, ⟨.nine, .hearts⟩, ⟨.king, .hearts⟩]
    (5 ≤ hand.length ∧ hand.length ≤ 10) ∧ hand.Subperm (Card.all ++ Card.all) ∧
      5 ≤ suitCount hand .hearts ∧ strengthOf (bestRank hand) = Category.pair.strength ∧
      ¬Category.flush.strength ≤ strengthOf (bestRank hand) := by
  decide +kernel

end Croupier.Hand
