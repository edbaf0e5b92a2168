/-
Hands that grow.

Up to five cards, a further card of a rank that the hand holds makes more pairs and so a stronger
category. A card of another rank takes its place among the single cards; the ranks behind it give
way to lower ones, so no tie breaks worse. From five cards on, a larger hand has all the choices of
five that a smaller one has.
-/

import Croupier.Proofs.Hand.Best
import Croupier.Proofs.Hand.Categories

namespace Croupier.Hand

variable {hand larger : List Card} {card : Card}

/-! ### A card of another rank -/

theorem tieBreaker_le_insert {rank : Rank} {after : List Rank}
    (below : ∀ other ∈ after, other.index < rank.index) (before : List Rank) (places : Nat) :
    tieBreaker places (before ++ after) ≤ tieBreaker places (before ++ rank :: after) := by
  induction before generalizing places with
  | nil =>
      cases places with
      | zero => exact Nat.le_refl 0
      | succ places =>
          cases after with
          | nil => exact Nat.zero_le _
          | cons next rest =>
              -- The new rank is the higher digit of the place where the two first differ.
              have lower := below next List.mem_cons_self
              have first := tieBreaker_cons_lt (tieBreaker_lt places rest) lower
              exact Nat.le_trans (Nat.le_of_lt first) (Nat.le_add_right _ _)
  | cons first before ih =>
      cases places with
      | zero => exact Nat.le_refl 0
      | succ places => exact Nat.add_le_add_left (ih places) _

/-- A card of a new rank is a group of its own, behind which there are single cards of lower ranks
only. -/
theorem exists_groups_split (fresh : rankCount hand card.rank = 0) :
    ∃ before after, groups (card :: hand) = before ++ (1, card.rank) :: after ∧
      groups hand = before ++ after ∧ ∀ group ∈ after, group.2.index < card.rank.index := by
  have counted : rankCount (card :: hand) card.rank = 1 := by
    rw [rankCount_cons, if_pos rfl, fresh]
  obtain ⟨before, after, split⟩ :=
    List.append_of_mem ((@mem_groups_iff _ (1, card.rank)).mpr ⟨Nat.one_pos, counted.symm⟩)
  have sorted := descending_groups (card :: hand)
  have nodup := sorted.nodup
  rw [split] at sorted nodup
  have held {group : Nat × Rank} (member : group ∈ before ++ after) :
      0 < group.1 ∧ group.1 = rankCount (card :: hand) group.2 := by
    refine mem_groups_iff.mp (split ▸ ?_)
    exact List.mem_append.mpr ((List.mem_append.mp member).imp_right (List.mem_cons_of_mem _))
  have others : ∀ group ∈ before ++ after, decide (group.2 ≠ card.rank) = true := by
    rintro ⟨size, rank⟩ member
    refine decide_eq_true fun same => ?_
    obtain ⟨-, one⟩ := held member
    dsimp only at same one
    rw [same, counted] at one
    exact (List.nodup_cons.mp (List.nodup_middle.mp nodup)).1 (one ▸ same ▸ member)
  refine ⟨before, after, split, ?_, fun group behind => ?_⟩
  · rw [← otherGroups_of_fresh fresh, otherGroups, split, List.filter_append,
      List.filter_cons_of_neg (by simp), ← List.filter_append, List.filter_eq_self.mpr others]
  · have lower := (List.pairwise_cons.mp (List.pairwise_append.mp sorted).2.1).1 group behind
    have single := (held (List.mem_append_right before behind)).1
    exact ((height_lt_iff.mp lower).resolve_left (Nat.not_lt_of_le single)).2

theorem tieBreaker_le_of_fresh (fresh : rankCount hand card.rank = 0) :
    tieBreaker 5 (ranksByGroup hand) ≤ tieBreaker 5 (ranksByGroup (card :: hand)) := by
  obtain ⟨before, after, split, without, below⟩ := exists_groups_split fresh
  rw [ranksByGroup, ranksByGroup, split, without, List.map_append, List.map_append, List.map_cons]
  refine tieBreaker_le_insert (fun other member => ?_) _ 5
  obtain ⟨group, behind, rfl⟩ := List.mem_map.mp member
  exact below group behind

/-! ### Fewer than five cards -/

theorem category_of_short (short : hand.length ≤ 4) :
    ∃ paired, (pairCount hand, paired) ∈ pairings ∧
      category hand = (paired, ranksByGroup hand) := by
  rcases category_cases (Nat.le_succ_of_le short) with
    ⟨unpaired, distinct⟩ | ⟨paired, ⟨-, listed⟩, category⟩
  · have few := length_ranksByGroup_le hand
    rw [distinctCategory_of_short (by omega)] at distinct
    exact ⟨.highCard, unpaired ▸ List.mem_cons_self, distinct⟩
  · exact ⟨paired, listed, category⟩

theorem rank_lt_of_held (short : hand.length ≤ 4) (held : 0 < rankCount hand card.rank) :
    rank hand < rank (card :: hand) := by
  have few : (card :: hand).length ≤ 5 := Nat.succ_le_succ short
  have more : pairCount hand < pairCount (card :: hand) := Nat.lt_add_of_pos_left held
  obtain ⟨before, listed, was⟩ := category_of_short short
  rcases category_cases few with ⟨unpaired, -⟩ | ⟨after, ⟨-, listedAfter⟩, becomes⟩
  · omega
  · apply rank_lt_of_strength_lt
    rw [was, becomes]
    exact strength_lt_of_pairings listed listedAfter more

theorem rank_le_of_fresh (short : hand.length ≤ 4) (fresh : rankCount hand card.rank = 0) :
    rank hand ≤ rank (card :: hand) := by
  have few : (card :: hand).length ≤ 5 := Nat.succ_le_succ short
  have same : pairCount (card :: hand) = pairCount hand := by
    rw [pairCount, fresh, Nat.zero_add]
  obtain ⟨before, listed, was⟩ := category_of_short short
  -- Either the category stays, and no tie breaks worse, or five cards make a straight or a flush.
  have stays {after : Category} (listedAfter : (pairCount hand, after) ∈ pairings)
      (becomes : category (card :: hand) = (after, ranksByGroup (card :: hand))) :
      rank hand ≤ rank (card :: hand) := by
    rw [rank_eq, rank_eq, was, becomes, eq_of_pairings listed listedAfter]
    exact Nat.add_le_add_left (tieBreaker_le_of_fresh fresh) _
  rcases category_cases few with ⟨unpaired, distinct⟩ | ⟨after, ⟨-, listedAfter⟩, becomes⟩
  · rw [same] at unpaired
    have none : (pairCount hand, .highCard) ∈ pairings := unpaired ▸ List.mem_cons_self
    rcases distinctCategory_cases (card :: hand) (ranksByGroup (card :: hand)) with high | strong
    · exact stays none (distinct.trans high)
    · apply Nat.le_of_lt
      apply rank_lt_of_strength_lt
      rw [was, eq_of_pairings listed none, distinct]
      have above : Category.highCard.strength < Category.straight.strength := by decide
      exact Nat.lt_of_lt_of_le above strong
  · exact stays (same ▸ listedAfter) becomes

theorem rank_le_cons (short : hand.length ≤ 4) (card : Card) : rank hand ≤ rank (card :: hand) := by
  rcases Nat.eq_zero_or_pos (rankCount hand card.rank) with fresh | held
  · exact rank_le_of_fresh short fresh
  · exact Nat.le_of_lt (rank_lt_of_held short held)

/-! ### Hands of any length -/

theorem bestRank_le_cons (few : hand.length ≤ 9) (card : Card) :
    bestRank hand ≤ bestRank (card :: hand) := by
  have most : (card :: hand).length ≤ 10 := Nat.succ_le_succ few
  by_cases none : hand = []
  · subst none
    exact Nat.zero_le _
  · rcases Nat.lt_or_ge hand.length 5 with short | least
    · rw [bestRank_eq_rank none (Nat.le_of_lt short),
        bestRank_eq_rank (List.cons_ne_nil card hand) short]
      exact rank_le_cons (Nat.le_of_lt_succ short) card
    · obtain ⟨five, within, size, reached⟩ := exists_best_five least (Nat.le_succ_of_le few)
      exact reached ▸ rank_le_bestRank (within.cons card) size most

/-- Wherever a further card goes in a hand of at most nine, the best rank is no lower with it. It is
higher if the hand has fewer than five cards and holds one of that rank. -/
theorem bestRank_le_of_further (few : hand.length ≤ 9) (further : larger.Perm (card :: hand)) :
    bestRank hand ≤ bestRank larger ∧
      (hand.length ≤ 4 → 0 < rankCount hand card.rank → bestRank hand < bestRank larger) := by
  rw [bestRank_of_perm further]
  refine ⟨bestRank_le_cons few card, fun short held => ?_⟩
  have some : hand ≠ [] := by
    rintro rfl
    exact Nat.lt_irrefl 0 held
  rw [bestRank_eq_rank some (by omega), bestRank_eq_rank (List.cons_ne_nil card hand)
    (Nat.succ_le_succ short)]
  exact rank_lt_of_held short held

/-- A fifth club among four makes a straight flush, a second nine beside another a pair, and a tenth
card may come in anywhere. -/
theorem bestRank_le_of_further_clubs :
    let clubs : List Card := [⟨.two, .clubs⟩, ⟨.three, .clubs⟩, ⟨.four, .clubs⟩, ⟨.five, .clubs⟩]
    let fifth : Card := ⟨.six, .clubs⟩
    let nine : Card := ⟨.nine, .hearts⟩
    (clubs.length ≤ 9 ∧ (clubs.take 2 ++ fifth :: clubs.drop 2).Perm (fifth :: clubs) ∧
      bestRank clubs ≤ bestRank (clubs.take 2 ++ fifth :: clubs.drop 2)) ∧
      (0 < rankCount [nine] .nine ∧ bestRank [nine] < bestRank [⟨.nine, .clubs⟩, nine]) ∧
      (clubs ++ nine :: clubs).length ≤ 9 ∧
      bestRank (clubs ++ nine :: clubs) ≤ bestRank (clubs ++ nine :: clubs ++ [fifth]) := by
  intro clubs fifth nine
  have among : (clubs.take 2 ++ fifth :: clubs.drop 2).Perm (fifth :: clubs) := List.perm_middle
  have behind : (clubs ++ nine :: clubs ++ [fifth]).Perm (fifth :: (clubs ++ nine :: clubs)) :=
    List.perm_append_singleton fifth _
  have held : 0 < rankCount [nine] .nine := by decide
  refine ⟨⟨by decide, among, (bestRank_le_of_further (by decide) among).1⟩, ⟨held, ?_⟩, by decide,
    (bestRank_le_of_further (by decide) behind).1⟩
  exact (bestRank_le_of_further (by decide) (.refl _)).2 (by decide) held

end Croupier.Hand
