/-
What cards and contracts are worth at most.

The points for cards are a sum over the cards, so no pile of them is worth more than its best card
as many times as it has cards. A contract scores for a bid that is no higher than a deck has cards,
and for overtricks.
-/

import Croupier.Proofs.Tricks.Points

namespace Croupier

theorem Card.mem_all (card : Card) : card ∈ Card.all := by
  have suit : card.suit ∈ Suit.all := by cases card.suit <;> decide
  exact List.mem_flatMap.mpr ⟨card.rank, card.rank.mem_all, List.mem_map.mpr ⟨_, suit, rfl⟩⟩

namespace ContractValues

variable {values : ContractValues} {player : Player}

/-- The most that the contract of a single participant scores or costs, overtricks apart. -/
def mostPoints (values : ContractValues) : Nat :=
  max values.nilBonus.natAbs values.nilPenalty.natAbs
    + standardDeckSize * max values.pointsPerTrickBid.natAbs values.failedContractPenalty.natAbs
    + values.bagPenalty.natAbs

theorem natAbs_nilPoints_le (values : ContractValues) (player : Player) :
    (values.nilPoints player).natAbs ≤ max values.nilBonus.natAbs values.nilPenalty.natAbs := by
  unfold nilPoints
  split
  · exact Nat.zero_le _
  · split
    · exact Nat.le_max_left _ _
    · rw [Int.natAbs_neg]
      exact Nat.le_max_right _ _

theorem natAbs_points_le (values : ContractValues) (bid : player.bid ≤ standardDeckSize)
    (bags : Int) :
    (values.score [player] bags).points.natAbs ≤
      values.mostPoints + values.overtrickPoints.natAbs * player.tricks.natAbs := by
  have nilPoints := values.natAbs_nilPoints_le player
  have contracted : 0 ≤ player.contract ∧ player.contract.natAbs ≤ standardDeckSize := by
    unfold Player.contract
    split <;> omega
  have counted : player.contractTricks.natAbs ≤ player.tricks.natAbs := by
    unfold Player.contractTricks
    split <;> omega
  have made : (player.contract * values.pointsPerTrickBid).natAbs ≤ standardDeckSize *
      max values.pointsPerTrickBid.natAbs values.failedContractPenalty.natAbs := by
    rw [Int.natAbs_mul]
    exact Nat.mul_le_mul contracted.2 (Nat.le_max_left _ _)
  have failed : (player.contract * values.failedContractPenalty).natAbs ≤ standardDeckSize *
      max values.pointsPerTrickBid.natAbs values.failedContractPenalty.natAbs := by
    rw [Int.natAbs_mul]
    exact Nat.mul_le_mul contracted.2 (Nat.le_max_right _ _)
  have beyond (enough : player.contractTricks ≥ player.contract) :
      ((player.contractTricks - player.contract) * values.overtrickPoints).natAbs ≤
        values.overtrickPoints.natAbs * player.tricks.natAbs := by
    rw [Int.natAbs_mul, Nat.mul_comm]
    exact Nat.mul_le_mul_left _ (by omega)
  unfold ContractValues.score mostPoints
  simp only [List.map_cons, List.map_nil, total_cons, total_nil, Int.add_zero]
  split
  · rename_i enough
    have beyond := beyond enough
    split
    · dsimp only
      omega
    · dsimp only
      omega
  · dsimp only
    omega

end ContractValues

namespace Program

variable {program : Program}

/-- The most points that a single card gives or takes. -/
def mostCardPoints (program : Program) : Nat :=
  (Card.all.map fun card => (program.cardPoints [card]).natAbs).max?.getD 0

theorem natAbs_cardPoints_singleton_le (program : Program) (card : Card) :
    (program.cardPoints [card]).natAbs ≤ program.mostCardPoints := by
  have listed : (program.cardPoints [card]).natAbs ∈
      Card.all.map fun card => (program.cardPoints [card]).natAbs :=
    List.mem_map_of_mem card.mem_all
  unfold mostCardPoints
  cases most : (Card.all.map fun card => (program.cardPoints [card]).natAbs).max? with
  | none =>
      rw [List.max?_eq_none_iff.mp most] at listed
      cases listed
  | some points => exact (List.max?_eq_some_iff.mp most).2 _ listed

theorem natAbs_cardPoints_le (program : Program) (cards : List Card) :
    ((program.cardPoints cards).natAbs : Int) ≤ program.mostCardPoints * cards.length := by
  induction cards with
  | nil =>
      have none := program.cardPoints_append [] []
      rw [List.append_nil] at none
      rw [List.length_nil]
      omega
  | cons card rest ih =>
      have first := program.natAbs_cardPoints_singleton_le card
      rw [← List.singleton_append, cardPoints_append, List.length_append, List.length_singleton,
        Int.natCast_add, Int.mul_add]
      omega

/-- Whether participants score contracts of their own. -/
def scoresAlone (program : Program) : Bool :=
  program.hasPhase .bidding && !program.header.teamMode

/-- The most that a participant scores for the contract of a hand, overtricks apart. -/
def mostContract (program : Program) : Nat :=
  if program.scoresAlone then program.contractValues.mostPoints else 0

/-- What an overtrick adds to a score or takes from it. -/
def overtrickWorth (program : Program) : Nat :=
  if program.scoresAlone then program.contractValues.overtrickPoints.natAbs else 0

/-- What a single action adds to a score or takes from it at most, if not now then when the middle
is taken and the contract scored. -/
def mostPerAction (program : Program) : Nat :=
  2 * program.mostCardPoints + program.overtrickWorth

end Program

end Croupier
