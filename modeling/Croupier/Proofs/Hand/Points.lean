/-
Point totals with soft aces.

An ace counts one or eleven, so that a hand has several totals; each ace that gives way lowers the
total by ten. Aces give way one after the other as long as the total is above the limit. What they
come to is the greatest total within the limit, or the least of all if none is.
-/

import Croupier.Proofs.Hand.Order

namespace Croupier

/-- What a card of a rank may count. -/
def Rank.pointChoices : Rank → List Int
  | two => [2]
  | three => [3]
  | four => [4]
  | five => [5]
  | six => [6]
  | seven => [7]
  | eight => [8]
  | nine => [9]
  | ten => [10]
  | jack => [10]
  | queen => [10]
  | king => [10]
  | ace => [1, 11]

namespace Hand

/-- The totals of a hand, every card of which counts one of the things it may count. -/
def pointTotals : List Card → List Int
  | [] => [0]
  | card :: rest =>
      card.rank.pointChoices.flatMap fun points => (pointTotals rest).map (points + ·)

variable {hand : List Card}

/-! ### All totals -/

theorem mem_pointChoices_iff {card : Card} {points : Int} :
    points ∈ card.rank.pointChoices ↔
      points = cardValue card ∨ card.rank = .ace ∧ points = cardValue card - 10 := by
  obtain ⟨rank, suit⟩ := card
  cases rank <;> simp [Rank.pointChoices, cardValue, Rank.index, or_comm]

theorem mem_pointTotals_iff {points : Int} :
    points ∈ pointTotals hand ↔
      ∃ soft ≤ rankCount hand .ace, points = total (hand.map cardValue) - 10 * soft := by
  induction hand generalizing points with
  | nil => simp [pointTotals, rankCount]
  | cons card rest ih =>
      simp only [pointTotals, List.mem_flatMap, List.mem_map, ih, mem_pointChoices_iff,
        List.map_cons, total_cons, rankCount_cons]
      constructor
      · rintro ⟨_, rfl | ⟨ace, rfl⟩, _, ⟨soft, few, rfl⟩, rfl⟩
        · exact ⟨soft, Nat.le_trans few (Nat.le_add_right _ _), by omega⟩
        · rw [if_pos ace]
          exact ⟨soft + 1, Nat.succ_le_succ few, by push_cast; omega⟩
      · rintro ⟨soft, few, rfl⟩
        by_cases within : soft ≤ rankCount rest .ace
        · exact ⟨_, .inl rfl, _, ⟨soft, within, rfl⟩, by omega⟩
        · -- Only with this card there are that many aces, so it is one and gives way.
          have ace : card.rank = .ace := by
            by_contra other
            rw [if_neg other] at few
            exact within few
          rw [if_pos ace] at few
          refine ⟨_, .inr ⟨ace, rfl⟩, _, ⟨soft - 1, by omega, rfl⟩, ?_⟩
          omega

/-! ### Giving way -/

/-- No ace gives way in vain: the total was above the limit before each of them did, and is within
it if there is one left. -/
theorem soften_spec (limit : Int) (softAces : Nat) (total : Int) :
    ∃ soft ≤ softAces, soften limit softAces total = total - 10 * soft ∧
      (soft < softAces → total - 10 * soft ≤ limit) ∧
        ∀ fewer < soft, limit < total - 10 * fewer := by
  induction softAces generalizing total with
  | zero => exact ⟨0, Nat.le_refl 0, by simp [soften], by omega, by omega⟩
  | succ softAces ih =>
      rw [soften]
      split
      case isTrue above =>
        obtain ⟨soft, few, reached, fits, needed⟩ := ih (total - 10)
        refine ⟨soft + 1, Nat.succ_le_succ few, by omega, fun left => ?_, fun fewer less => ?_⟩
        · have := fits (Nat.lt_of_succ_lt_succ left)
          omega
        · cases fewer with
          | zero => omega
          | succ fewer =>
              have := needed fewer (Nat.lt_of_succ_lt_succ less)
              omega
      case isFalse fits => exact ⟨0, Nat.zero_le _, by simp, by omega, by omega⟩

/-- If some total of a hand is within the limit, the greatest of those is taken, and otherwise the
least total that there is. -/
theorem pointTotal_of_limit (hand : List Card) (limit : Int) :
    ((∃ points ∈ pointTotals hand, points ≤ limit) →
      IsGreatest {points | points ∈ pointTotals hand ∧ points ≤ limit} (pointTotal hand limit)) ∧
      ((∀ points ∈ pointTotals hand, limit < points) →
        IsLeast {points | points ∈ pointTotals hand} (pointTotal hand limit)) := by
  obtain ⟨soft, few, reached, fits, needed⟩ :=
    soften_spec limit (rankCount hand .ace) (total (hand.map cardValue))
  rw [← pointTotal] at reached
  have among : pointTotal hand limit ∈ pointTotals hand :=
    mem_pointTotals_iff.mpr ⟨soft, few, reached⟩
  constructor
  · rintro ⟨points, member, within⟩
    obtain ⟨other, most, rfl⟩ := mem_pointTotals_iff.mp member
    refine ⟨⟨among, ?_⟩, ?_⟩
    · by_cases left : soft < rankCount hand .ace
      · exact reached ▸ fits left
      · omega
    · rintro points ⟨member, within⟩
      obtain ⟨other, -, rfl⟩ := mem_pointTotals_iff.mp member
      have enough : soft ≤ other := by
        by_contra less
        have := needed other (Nat.lt_of_not_le less)
        omega
      omega
  · intro above
    refine ⟨among, ?_⟩
    rintro points member
    obtain ⟨other, most, rfl⟩ := mem_pointTotals_iff.mp member
    have none : ¬soft < rankCount hand .ace := fun left => by
      have := above _ among
      have := fits left
      omega
    omega

/-- Two aces and a nine: up to twenty-one one ace stays soft, up to ten not even the least total
fits. -/
theorem pointTotal_of_limit_twoAces :
    let hand : List Card := [⟨.ace, .hearts⟩, ⟨.ace, .diamonds⟩, ⟨.nine, .clubs⟩]
    (∃ points ∈ pointTotals hand, points ≤ 21) ∧
      IsGreatest {points | points ∈ pointTotals hand ∧ points ≤ 21} (pointTotal hand 21) ∧
      pointTotal hand 21 = 21 ∧ (∀ points ∈ pointTotals hand, 10 < points) ∧
      IsLeast {points | points ∈ pointTotals hand} (pointTotal hand 10) ∧
      pointTotal hand 10 = 11 := by
  intro hand
  have fits : ∃ points ∈ pointTotals hand, points ≤ 21 := by decide
  have above : ∀ points ∈ pointTotals hand, 10 < points := by decide
  exact ⟨fits, (pointTotal_of_limit hand 21).1 fits, by decide, above,
    (pointTotal_of_limit hand 10).2 above, by decide⟩

end Hand

end Croupier
