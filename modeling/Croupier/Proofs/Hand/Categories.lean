/-
The category of up to five cards.

Cards of one rank make a category that goes by one number: how many pairs of cards of one rank there
are. Only a hand without such a pair can be a straight or a flush. In the number that ranks a hand
the category stands above everything that breaks ties.
-/

import Croupier.Proofs.Hand.Groups

namespace Croupier.Hand

variable {hand other : List Card} {ranks : List Rank} {counts : List Nat}

/-! ### Cards of one rank -/

/-- The categories that cards of one rank make, each with how many pairs of such cards it has. -/
def pairings : List (Nat × Category) :=
  [(0, .highCard), (1, .pair), (2, .twoPair), (3, .threeOfAKind), (4, .fullHouse),
    (6, .fourOfAKind), (10, .fiveOfAKind)]

theorem eq_of_pairings {pairs : Nat} {left right : Category} (leftListed : (pairs, left) ∈ pairings)
    (rightListed : (pairs, right) ∈ pairings) : left = right := by
  have apart : ∀ left ∈ pairings, ∀ right ∈ pairings, left.1 = right.1 → left.2 = right.2 := by
    decide
  exact apart _ leftListed _ rightListed rfl

theorem strength_lt_of_pairings {fewer more : Nat} {weak strong : Category}
    (weakListed : (fewer, weak) ∈ pairings) (strongListed : (more, strong) ∈ pairings)
    (less : fewer < more) : weak.strength < strong.strength := by
  have ascending : ∀ weak ∈ pairings, ∀ strong ∈ pairings, weak.1 < strong.1 →
      weak.2.strength < strong.2.strength := by
    decide
  exact ascending _ weakListed _ strongListed less

/-- The ranks of a hand in the order in which they break ties. -/
def ranksByGroup (hand : List Card) : List Rank :=
  (groups hand).map (·.2)

theorem groupSizes_pos {count : Nat} (member : count ∈ (groups hand).map (·.1)) : 0 < count := by
  obtain ⟨group, there, rfl⟩ := List.mem_map.mp member
  exact (mem_groups_iff.mp there).1

theorem pairwise_groupSizes (hand : List Card) :
    ((groups hand).map (·.1)).Pairwise fun upper lower => lower ≤ upper :=
  List.pairwise_map.mpr <| (descending_groups hand).imp fun lower =>
    (height_lt_iff.mp lower).elim Nat.le_of_lt fun same => Nat.le_of_eq same.1

theorem single_of_first {first : Nat} {rest : List Nat}
    (sorted : (first :: rest).Pairwise fun upper lower => lower ≤ upper) (single : first ≤ 1) :
    ∀ count ∈ first :: rest, count ≤ 1 := by
  rw [List.forall_mem_cons]
  exact ⟨single, fun count member =>
    Nat.le_trans ((List.pairwise_cons.mp sorted).1 count member) single⟩

theorem single_of_sum (few : counts.sum ≤ 1) : ∀ count ∈ counts, count ≤ 1 := fun _ member =>
  Nat.le_trans (List.single_le_sum (fun _ _ => Nat.zero_le _) _ member) few

theorem single_behind {first : Nat} {rest : List Nat}
    (sorted : (first :: rest).Pairwise fun upper lower => lower ≤ upper)
    (few : (first :: rest).sum ≤ 5) (unpaired : ∀ lower, rest ≠ 2 :: lower) :
    ∀ count ∈ rest, count ≤ 1 := by
  cases rest with
  | nil => exact fun _ member => absurd member List.not_mem_nil
  | cons second lower =>
      have least := (List.pairwise_cons.mp sorted).1 second List.mem_cons_self
      have other : second ≠ 2 := fun same => unpaired lower (same ▸ rfl)
      rw [List.sum_cons, List.sum_cons] at few
      -- Five cards have no room for a second group of three.
      exact single_of_first (List.pairwise_cons.mp sorted).2 (by omega)

theorem pairs_of_single (single : ∀ count ∈ counts, count ≤ 1) :
    (counts.map (Nat.choose · 2)).sum = 0 := by
  refine List.sum_eq_zero fun pairs member => ?_
  obtain ⟨count, there, rfl⟩ := List.mem_map.mp member
  exact Nat.choose_eq_zero_of_lt (Nat.lt_succ_of_le (single count there))

theorem paired_of_leading (leading : List Nat) {rest : List Nat} {paired : Category}
    (single : ∀ count ∈ rest, count ≤ 1)
    (listed : 0 < (leading.map (Nat.choose · 2)).sum ∧
      ((leading.map (Nat.choose · 2)).sum, paired) ∈ pairings) :
    0 < ((leading ++ rest).map (Nat.choose · 2)).sum ∧
      (((leading ++ rest).map (Nat.choose · 2)).sum, paired) ∈ pairings := by
  rw [List.map_append, List.sum_append, pairs_of_single single, Nat.add_zero]
  exact listed

/-- Either no two cards are of one rank, or the category goes by the number of pairs that are. -/
theorem category_cases (few : hand.length ≤ 5) :
    pairCount hand = 0 ∧ category hand = distinctCategory hand (ranksByGroup hand) ∨
      ∃ paired, (0 < pairCount hand ∧ (pairCount hand, paired) ∈ pairings) ∧
        category hand = (paired, ranksByGroup hand) := by
  have size : ((groups hand).map (·.1)).sum ≤ 5 := sum_groups_eq_length hand ▸ few
  have pairs : (((groups hand).map (·.1)).map (Nat.choose · 2)).sum = pairCount hand := by
    rw [List.map_map]
    exact sum_groups_eq_pairCount hand
  have sorted := pairwise_groupSizes hand
  rw [category, ← pairs]
  generalize (groups hand).map (·.1) = counts at size sorted ⊢
  -- The cases are those of the definition, which looks at the two largest groups.
  split
  case h_1 rest =>
    have single : ∀ count ∈ rest, count ≤ 1 := single_of_sum (by rw [List.sum_cons] at size; omega)
    exact .inr ⟨_, paired_of_leading [5] single (by decide), rfl⟩
  case h_2 rest =>
    have single : ∀ count ∈ rest, count ≤ 1 := single_of_sum (by rw [List.sum_cons] at size; omega)
    exact .inr ⟨_, paired_of_leading [4] single (by decide), rfl⟩
  case h_3 rest =>
    have single : ∀ count ∈ rest, count ≤ 1 :=
      single_of_sum (by rw [List.sum_cons, List.sum_cons] at size; omega)
    exact .inr ⟨_, paired_of_leading [3, 2] single (by decide), rfl⟩
  case h_4 rest other =>
    have single := single_behind sorted size fun lower same => other lower (same ▸ rfl)
    exact .inr ⟨_, paired_of_leading [3] single (by decide), rfl⟩
  case h_5 rest =>
    have single : ∀ count ∈ rest, count ≤ 1 :=
      single_of_sum (by rw [List.sum_cons, List.sum_cons] at size; omega)
    exact .inr ⟨_, paired_of_leading [2, 2] single (by decide), rfl⟩
  case h_6 rest other =>
    have single := single_behind sorted size fun lower same => other lower (same ▸ rfl)
    exact .inr ⟨_, paired_of_leading [2] single (by decide), rfl⟩
  case h_7 _ five four _ three _ two =>
    have single : ∀ count ∈ counts, count ≤ 1 := by
      cases counts with
      | nil => exact fun _ member => absurd member List.not_mem_nil
      | cons first rest =>
          rw [List.sum_cons] at size
          have large : first ≠ 5 ∧ first ≠ 4 ∧ first ≠ 3 ∧ first ≠ 2 :=
            ⟨fun same => five rest (same ▸ rfl), fun same => four rest (same ▸ rfl),
              fun same => three rest (same ▸ rfl), fun same => two rest (same ▸ rfl)⟩
          exact single_of_first sorted (by omega)
    exact .inl ⟨pairs_of_single single, rfl⟩

/-! ### Cards of different ranks -/

theorem length_ranksByGroup_le (hand : List Card) : (ranksByGroup hand).length ≤ hand.length := by
  rw [ranksByGroup, List.length_map, ← List.length_map (·.1), ← sum_groups_eq_length hand]
  exact List.length_le_sum_of_one_le _ fun _ member => groupSizes_pos member

theorem length_ranksByGroup (unpaired : pairCount hand = 0) :
    (ranksByGroup hand).length = hand.length := by
  have ones : (groups hand).map (·.1) = List.replicate (groups hand).length 1 := by
    refine List.eq_replicate_iff.mpr ⟨List.length_map _, fun count member => ?_⟩
    obtain ⟨group, there, rfl⟩ := List.mem_map.mp member
    rw [← sum_groups_eq_pairCount, List.sum_eq_zero_iff] at unpaired
    have none := unpaired _ (List.mem_map_of_mem there)
    have some := groupSizes_pos member
    rw [Nat.choose_eq_zero_iff] at none
    omega
  rw [ranksByGroup, List.length_map, ← sum_groups_eq_length hand, ones, List.sum_replicate,
    smul_eq_mul, Nat.mul_one]

theorem distinctCategory_of_short (short : ranks.length < 5) :
    distinctCategory hand ranks = (.highCard, ranks) := by
  unfold distinctCategory
  split
  · simp at short
  · rfl

theorem distinctCategory_cases (hand : List Card) (ranks : List Rank) :
    distinctCategory hand ranks = (.highCard, ranks) ∨
      Category.straight.strength ≤ (distinctCategory hand ranks).1.strength := by
  unfold distinctCategory
  split
  · dsimp only
    split_ifs
    all_goals simp [Category.strength]
  · exact .inl rfl

theorem flush_le_distinctCategory_iff (five : ranks.length = 5) :
    Category.flush.strength ≤ (distinctCategory hand ranks).1.strength ↔ isFlush hand = true := by
  match ranks, five with
  | [top, second, third, fourth, last], _ =>
      unfold distinctCategory
      dsimp only
      cases isFlush hand
      · simp only [Bool.and_false, Bool.false_eq_true, if_false, iff_false]
        split_ifs
        all_goals simp [Category.strength]
      · simp only [Bool.and_true, if_true, iff_true]
        split_ifs
        all_goals simp [Category.strength]

/-! ### The number -/

theorem rank_eq (hand : List Card) :
    rank hand = (category hand).1.strength * strengthStep + tieBreaker 5 (category hand).2 :=
  rfl

theorem tieBreaker_cons_lt {places digit : Nat} {rank : Rank}
    (behind : tieBreaker places ranks < Nat.pow 16 places) (lower : rank.index < digit) :
    tieBreaker (places + 1) (rank :: ranks) < digit * Nat.pow 16 places :=
  calc rank.index * Nat.pow 16 places + tieBreaker places ranks
    _ < rank.index * Nat.pow 16 places + Nat.pow 16 places := Nat.add_lt_add_left behind _
    _ = (rank.index + 1) * Nat.pow 16 places := (Nat.succ_mul _ _).symm
    _ ≤ digit * Nat.pow 16 places := Nat.mul_le_mul_right _ lower

theorem tieBreaker_lt (places : Nat) (ranks : List Rank) :
    tieBreaker places ranks < Nat.pow 16 places := by
  induction places generalizing ranks with
  | zero => exact Nat.one_pos
  | succ places ih =>
      cases ranks with
      | nil => exact Nat.pow_pos (by decide)
      | cons rank rest =>
          have digit : rank.index < 16 := Nat.lt_trans rank.index_lt_count (by decide)
          have first := tieBreaker_cons_lt (ih rest) digit
          rwa [Nat.pow_eq, ← Nat.pow_succ'] at first

theorem ties_lt_strengthStep (hand : List Card) :
    tieBreaker 5 (category hand).2 < strengthStep :=
  tieBreaker_lt 5 _

/-- The strength of the category in the number of a hand, which is in bits 20 to 23. -/
def strengthOf (number : Nat) : Nat :=
  number / strengthStep % 16

theorem strengthOf_rank (hand : List Card) :
    strengthOf (rank hand) = (category hand).1.strength := by
  have ties := ties_lt_strengthStep hand
  have strength : (category hand).1.strength < 16 := by
    cases (category hand).1 <;> decide
  rw [strengthOf, rank_eq]
  unfold strengthStep at *
  omega

theorem rank_lt_of_strength_lt
    (weaker : (category hand).1.strength < (category other).1.strength) :
    rank hand < rank other := by
  have ties := ties_lt_strengthStep hand
  rw [rank_eq, rank_eq]
  unfold strengthStep at *
  omega

end Croupier.Hand
