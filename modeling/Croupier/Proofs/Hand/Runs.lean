/-
Runs of consecutive ranks.

The order of runs has the ace at both ends, so that one pass over it sees the runs with the ace low
and those with the ace high. A stretch of that order which leaves out an end is a run; the only one
that does not is the whole order, in which the same ace stands twice. A hand with every rank is
therefore given a run of fourteen, and every other hand the longest run that it holds.
-/

import Croupier.Proofs.Hand.Order

namespace Croupier

/-- The ranks in ascending order with the ace low. -/
def Rank.aceLow : List Rank :=
  [ace, two, three, four, five, six, seven, eight, nine, ten, jack, queen, king]

namespace Hand

/-- So many different ranks of a hand, consecutive with the ace low or with the ace high. -/
def IsRun (hand : List Card) (run : List Rank) : Prop :=
  (run <:+: Rank.aceLow ∨ run <:+: Rank.all) ∧ ∀ rank ∈ run, rank ∈ hand.map Card.rank

/-- How long the runs of a hand are. -/
def runLengths (hand : List Card) : Set Nat :=
  {length | ∃ run, IsRun hand run ∧ run.length = length}

variable {hand : List Card} {run : List Rank} {bits : List Bool} {length : Nat}

/-! ### Stretches -/

theorem stretch_opens_iff {before : Nat} :
    List.replicate length true <+: List.replicate before true ++ false :: bits ↔
      length ≤ before := by
  induction length generalizing before with
  | zero => simp
  | succ length ih =>
      cases before with
      | zero => simp [List.replicate_succ]
      | succ before =>
          rw [List.replicate_succ, List.replicate_succ, List.cons_append, List.cons_prefix_cons,
            ih, Nat.succ_le_succ_iff]
          exact and_iff_right rfl

theorem stretch_within_iff {before : Nat} :
    List.replicate length true <:+: List.replicate before true ++ false :: bits ↔
      length ≤ before ∨ List.replicate length true <:+: bits := by
  induction before with
  | zero =>
      have opens := @stretch_opens_iff bits length 0
      rw [List.replicate_zero, List.nil_append] at opens ⊢
      rw [List.infix_cons_iff, opens]
  | succ before ih =>
      rw [List.replicate_succ, List.cons_append, List.infix_cons_iff, ih, ← List.cons_append,
        ← List.replicate_succ, stretch_opens_iff]
      constructor
      · rintro (fits | fits | within)
        · exact .inl fits
        · exact .inl (Nat.le_succ_of_le fits)
        · exact .inr within
      · rintro (fits | within)
        · exact .inl fits
        · exact .inr (.inr within)

theorem le_longestStretch_iff {current longest : Nat} (counted : current ≤ longest) :
    length ≤ longestStretch bits current longest ↔
      length ≤ longest ∨ List.replicate length true <:+: List.replicate current true ++ bits := by
  -- The stretch that ends right before the rest is as good as one that the rest begins with.
  induction bits generalizing current longest with
  | nil =>
      rw [longestStretch, List.append_nil, List.infix_replicate_iff, List.length_replicate]
      exact ⟨.inl, fun known => known.elim id fun within => Nat.le_trans within.1 counted⟩
  | cons bit rest ih =>
      cases bit with
      | true =>
          have joined : List.replicate current true ++ true :: rest =
              List.replicate (current + 1) true ++ rest := by
            rw [List.replicate_succ', List.append_assoc, List.singleton_append]
          have here (fits : length ≤ current + 1) :
              List.replicate length true <:+: List.replicate (current + 1) true ++ rest :=
            (List.infix_replicate_iff.mpr ⟨by simpa using fits, by simp⟩).trans
              List.infix_append_left
          rw [longestStretch, ih (Nat.le_max_right _ _), joined, le_max_iff, or_assoc]
          exact or_congr_right ⟨fun either => either.elim here id, .inr⟩
      | false =>
          rw [longestStretch, ih (Nat.zero_le longest), List.replicate_zero, List.nil_append,
            stretch_within_iff, ← or_assoc]
          exact or_congr_left ⟨.inl, fun either => either.elim id (Nat.le_trans · counted)⟩

/-! ### Stretches of ranks -/

theorem le_longestRun_iff :
    length ≤ longestRun hand ↔
      ∃ run, run <:+: runOrder ∧ run.length = length ∧ ∀ rank ∈ run, rank ∈ hand.map Card.rank := by
  have held (rank : Rank) :
      (hand.any fun card => card.rank = rank) = true ↔ rank ∈ hand.map Card.rank := by
    simp only [List.any_eq_true, decide_eq_true_eq, List.mem_map]
  rw [longestRun, le_longestStretch_iff (Nat.le_refl 0), List.replicate_zero, List.nil_append,
    List.infix_map_iff]
  constructor
  · rintro (none | ⟨run, within, stretch⟩)
    · obtain rfl := Nat.le_zero.mp none
      exact ⟨[], List.nil_infix, rfl, fun _ member => absurd member List.not_mem_nil⟩
    · obtain ⟨size, all⟩ := List.eq_replicate_iff.mp stretch.symm
      rw [List.length_map] at size
      exact ⟨run, within, size, fun rank member =>
        (held rank).mp (all _ (List.mem_map_of_mem member))⟩
  · rintro ⟨run, within, size, member⟩
    refine .inr ⟨run, within, (List.eq_replicate_iff.mpr ⟨?_, ?_⟩).symm⟩
    · rw [List.length_map, size]
    · intro bit mapped
      obtain ⟨rank, there, rfl⟩ := List.mem_map.mp mapped
      exact (held rank).mpr (member rank there)

theorem infix_runOrder_iff :
    run <:+: runOrder ↔ run = runOrder ∨ run <:+: Rank.aceLow ∨ run <:+: Rank.all := by
  have low : Rank.aceLow ++ [.ace] = runOrder := rfl
  have high : Rank.ace :: Rank.all = runOrder := rfl
  constructor
  · rintro ⟨before, after, whole⟩
    -- What leaves out anything of the order leaves out one of the two aces at its ends.
    rcases before with _ | ⟨first, before⟩
    · rcases List.eq_nil_or_concat after with rfl | ⟨after, last, rfl⟩
      · rw [List.nil_append, List.append_nil] at whole
        exact .inl whole
      · rw [← low, List.concat_eq_append, ← List.append_assoc] at whole
        exact .inr (.inl ⟨[], after, (List.append_inj_left' whole rfl)⟩)
    · rw [← high, List.append_assoc, List.cons_append, ← List.append_assoc] at whole
      exact .inr (.inr ⟨before, after, (List.cons.inj whole).2⟩)
  · rintro (rfl | within | within)
    · exact List.infix_rfl
    · exact within.trans (low ▸ List.infix_append_left)
    · exact List.infix_cons within

theorem IsRun.length_le (isRun : IsRun hand run) :
    run.length ≤ (hand.map Card.rank).dedup.length := by
  have nodup : run.Nodup :=
    isRun.1.elim (fun within => within.sublist.nodup (by decide))
      fun within => within.sublist.nodup (by decide)
  have subset : run ⊆ (hand.map Card.rank).dedup := fun rank member =>
    List.mem_dedup.mpr (isRun.2 rank member)
  exact (nodup.subperm subset).length_le

theorem isGreatest_longestRun {missing : Rank} (absent : missing ∉ hand.map Card.rank) :
    IsGreatest (runLengths hand) (longestRun hand) := by
  constructor
  · obtain ⟨run, within, size, held⟩ := le_longestRun_iff.mp (Nat.le_refl (longestRun hand))
    have short : run ≠ runOrder := by
      rintro rfl
      exact absent (held missing (List.mem_cons_of_mem _ missing.mem_all))
    exact ⟨run, ⟨(infix_runOrder_iff.mp within).resolve_left short, held⟩, size⟩
  · rintro length ⟨run, ⟨consecutive, held⟩, size⟩
    exact le_longestRun_iff.mpr ⟨run, infix_runOrder_iff.mpr (.inr consecutive), size, held⟩

/-! ### Hands with every rank -/

theorem length_ranks (every : ∀ rank, rank ∈ hand.map Card.rank) :
    (hand.map Card.rank).dedup.length = Rank.count := by
  have same : (hand.map Card.rank).dedup.Perm Rank.all := by
    refine (List.perm_ext_iff_of_nodup (List.nodup_dedup _) (by decide)).mpr fun rank => ?_
    rw [List.mem_dedup]
    exact iff_of_true (every rank) rank.mem_all
  exact same.length_eq

theorem isGreatest_count (every : ∀ rank, rank ∈ hand.map Card.rank) :
    IsGreatest (runLengths hand) Rank.count := by
  constructor
  · exact ⟨Rank.all, ⟨.inr List.infix_rfl, fun rank _ => every rank⟩, rfl⟩
  · rintro length ⟨run, isRun, rfl⟩
    exact length_ranks every ▸ isRun.length_le

theorem longestRun_of_every (every : ∀ rank, rank ∈ hand.map Card.rank) :
    longestRun hand = Rank.count + 1 := by
  obtain ⟨run, within, size, -⟩ := le_longestRun_iff.mp (Nat.le_refl (longestRun hand))
  have reached : Rank.count + 1 ≤ longestRun hand :=
    le_longestRun_iff.mpr ⟨runOrder, List.infix_rfl, rfl, fun rank _ => every rank⟩
  exact Nat.le_antisymm (size ▸ within.length_le) reached

/-- In a hand that lacks a rank, the longest run is the greatest number of different ranks it holds
that are consecutive with the ace low or with the ace high, and so no more than it holds different
ranks. In a hand with every rank that number is thirteen, but its longest run is one more. -/
theorem longestRun_of_ranks (hand : List Card) :
    ((∃ rank, rank ∉ hand.map Card.rank) →
      IsGreatest (runLengths hand) (longestRun hand) ∧
        longestRun hand ≤ (hand.map Card.rank).dedup.length) ∧
      ((∀ rank, rank ∈ hand.map Card.rank) →
        IsGreatest (runLengths hand) Rank.count ∧
          (hand.map Card.rank).dedup.length = Rank.count ∧ longestRun hand = Rank.count + 1) := by
  constructor
  · rintro ⟨missing, absent⟩
    have greatest := isGreatest_longestRun absent
    obtain ⟨run, isRun, size⟩ := greatest.1
    exact ⟨greatest, size ▸ isRun.length_le⟩
  · intro every
    exact ⟨isGreatest_count every, length_ranks every, longestRun_of_every every⟩

/-- Every rank but the seven, and two aces: seven ranks from the eight to the ace. All ranks of one
suit: fourteen in a row. -/
theorem longestRun_of_ranks_withoutSeven :
    let most : List Card :=
      [⟨.queen, .clubs⟩, ⟨.king, .hearts⟩, ⟨.ace, .clubs⟩, ⟨.two, .spades⟩, ⟨.three, .clubs⟩,
        ⟨.four, .clubs⟩, ⟨.five, .hearts⟩, ⟨.six, .clubs⟩, ⟨.eight, .spades⟩, ⟨.nine, .clubs⟩,
        ⟨.ten, .clubs⟩, ⟨.jack, .hearts⟩, ⟨.ace, .hearts⟩]
    let all : List Card := Rank.all.map fun rank => ⟨rank, .clubs⟩
    (∃ rank, rank ∉ most.map Card.rank) ∧ IsGreatest (runLengths most) (longestRun most) ∧
      longestRun most = 7 ∧ longestRun most ≤ (most.map Card.rank).dedup.length ∧
      (∀ rank, rank ∈ all.map Card.rank) ∧ IsGreatest (runLengths all) 13 ∧
      longestRun all = 14 := by
  intro most all
  have lacking : ∃ rank, rank ∉ most.map Card.rank := ⟨.seven, by decide⟩
  have every : ∀ rank, rank ∈ all.map Card.rank := by
    intro rank
    cases rank <;> decide
  obtain ⟨greatest, few⟩ := (longestRun_of_ranks most).1 lacking
  obtain ⟨thirteen, -, fourteen⟩ := (longestRun_of_ranks all).2 every
  exact ⟨lacking, greatest, by decide, few, every, thirteen, fourteen⟩

/-- Thirteen cards of one suit have a run that is longer than any run of their ranks, and than their
number. -/
theorem longestRun_beyond_ranks :
    let all : List Card := Rank.all.map fun rank => ⟨rank, .clubs⟩
    ¬IsGreatest (runLengths all) (longestRun all) ∧
      ¬longestRun all ≤ (all.map Card.rank).dedup.length := by
  intro all
  have fourteen : longestRun all = 14 := by decide
  have thirteen : (all.map Card.rank).dedup.length = 13 := by decide
  have beyond : ¬longestRun all ≤ (all.map Card.rank).dedup.length := by
    rw [fourteen, thirteen]
    decide
  refine ⟨?_, beyond⟩
  rintro ⟨⟨run, isRun, size⟩, -⟩
  exact beyond (size ▸ isRun.length_le)

end Hand

end Croupier
