/-
The ranges of the compiled format, written out.

What is read lies in the ranges of the format; here they are spelled out number by number. No rank
has two effects, because the entries of a table of effects ascend, and no seat is in two teams or
in one team twice, because a roster names no seat twice.
-/

import Croupier.Proofs.Codec.Acceptance

namespace Croupier

/-- No rank has two effects. -/
theorem EffectTable.nodup_ranks (table : EffectTable) :
    (table.entries.map Prod.fst).Nodup := by
  refine List.pairwise_map.mpr (table.ascending.imp fun below same => ?_)
  rw [same] at below
  exact Nat.lt_irrefl _ below

/-- The teams of a roster are sets of seats, and no two of them have a seat in common. -/
theorem Roster.disjoint {participants : Int} {teams : List (List Int)}
    (roster : Roster participants teams) :
    (∀ team ∈ teams, team.Nodup) ∧ teams.Pairwise List.Disjoint :=
  List.nodup_flatten.mp roster.apart

namespace Program

variable {program : Program}

theorem InRange.copies (inRange : program.InRange) :
    program.header.deckCopies = 1 ∨ program.header.deckCopies = 2 := by
  obtain ⟨some, atMost⟩ := inRange.header.deckCopies
  unfold maxDeckCopies at atMost
  omega

/-- A block of conditions is a list of conditions with known comparisons. How the conditions
combine has no third way, so that no block combines them by an unknown one. -/
theorem InRange.comparisons (inRange : program.InRange) :
    (∀ phase, .draw phase ∈ program.phases → ∀ condition ∈ phase.condition,
      condition.comparison ∈ Comparison.known) ∧
      ∀ phase, .play phase ∈ program.phases →
        (phase.conditions.quantifier = .all ∨ phase.conditions.quantifier = .any) ∧
          ∀ condition ∈ phase.conditions.conditions, condition.comparison ∈ Comparison.known := by
  constructor
  · intro phase member condition asked
    have drawn : phase.InRange := inRange.phases _ member
    exact (drawn.condition condition asked).comparison
  · intro phase member
    have played : phase.InRange := inRange.phases _ member
    refine ⟨?_, fun condition asked => (played.conditions condition asked).comparison⟩
    cases phase.conditions.quantifier with
    | all => exact .inl rfl
    | any => exact .inr rfl

/-- Whatever bytes a program is read from, each part of it lies in the documented range. -/
theorem ranges_of_decode {bytes : List UInt8} (accepted : decode bytes = .ok program) :
    (program.header.version = 1 ∧
      (2 ≤ program.header.participants ∧ program.header.participants ≤ 8) ∧
      (1 ≤ program.header.maxTurns ∧ program.header.maxTurns < 2147483648) ∧
      program.header.rankMask.toNat < 8192 ∧
      (program.header.deckCopies = 1 ∨ program.header.deckCopies = 2) ∧
      program.header.tableauMode ∈ TableauMode.known ∧
      program.header.sequenceOrder ∈ SequenceOrder.known ∧
      program.header.tieBreak ∈ TieBreak.known) ∧
    (0 ≤ program.setup.cardsPerParticipant ∧ 0 ≤ program.setup.initialDiscards ∧
      0 ≤ program.setup.startingChips) ∧
    (program.phases ≠ [] ∧
      (∀ phase, .draw phase ∈ program.phases → phase.source ∈ Location.known ∧
        0 ≤ phase.count ∧ phase.count ≤ 104) ∧
      (∀ phase, .play phase ∈ program.phases → phase.target ∈ Location.known ∧
        0 ≤ phase.minCards ∧ phase.minCards ≤ phase.maxCards ∧
        1 ≤ phase.maxCards ∧ phase.maxCards ≤ 255) ∧
      (∀ phase, .discard phase ∈ program.phases → phase.target ∈ Location.known ∧
        1 ≤ phase.count ∧ phase.count ≤ 104) ∧
      (∀ phase, .trick phase ∈ program.phases → (∀ suit ∈ phase.trump, suit ∈ SuitWord.known) ∧
        ∀ suit ∈ phase.breaking, suit ∈ SuitWord.known) ∧
      (∀ phase, .betting phase ∈ program.phases →
        (1 ≤ phase.minBet ∧ phase.minBet ≤ 1000000000) ∧
        0 ≤ phase.maxRaises ∧ phase.maxRaises ≤ 1000000000) ∧
      (∀ phase, .bidding phase ∈ program.phases → 0 ≤ phase.minBid ∧
        phase.minBid ≤ phase.maxBid ∧ phase.maxBid ≤ 52)) ∧
    ((∀ phase, .draw phase ∈ program.phases → ∀ condition ∈ phase.condition,
        condition.comparison ∈ Comparison.known) ∧
      ∀ phase, .play phase ∈ program.phases →
        (phase.conditions.quantifier = .all ∨ phase.conditions.quantifier = .any) ∧
          ∀ condition ∈ phase.conditions.conditions, condition.comparison ∈ Comparison.known) ∧
    (∀ condition ∈ program.winConditions,
      condition.side ∈ ThresholdSide.known ∧ condition.trigger ∈ WinTrigger.known) ∧
    (∀ pattern ∈ program.patterns, pattern.kind ∈ PatternKind.known) ∧
    ((program.effects.entries.map Prod.fst).Nodup ∧
      ∀ entry ∈ program.effects.entries, entry.1 ∈ RankWord.known) ∧
    if program.header.teamMode then
      2 ≤ program.teams.length ∧
        (∀ team ∈ program.teams, team ≠ [] ∧ team.Nodup ∧
          ∀ member ∈ team, 0 ≤ member ∧ member < program.header.participants) ∧
        program.teams.Pairwise List.Disjoint
    else
      program.teams = [] := by
  have inRange := inRange_of_decode accepted
  have header := inRange.header
  have setup := inRange.setup
  refine ⟨⟨header.version, header.participants, header.maxTurns, header.rankMask, inRange.copies,
      header.tableauMode, header.sequenceOrder, header.tieBreak⟩,
    ⟨setup.cardsPerParticipant.1, setup.initialDiscards.1, setup.startingChips.1⟩,
    ⟨inRange.someTurn, ?_, ?_, ?_, ?_, ?_, ?_⟩, inRange.comparisons, ?_, ?_,
    ⟨program.effects.nodup_ranks, fun entry member => (inRange.effects entry member).rank⟩, ?_⟩
  · intro phase member
    have drawn : phase.InRange := inRange.phases _ member
    exact ⟨drawn.source, drawn.count⟩
  · intro phase member
    have played : phase.InRange := inRange.phases _ member
    obtain ⟨nonneg, atMost, some, below⟩ := played.cards
    exact ⟨played.target, nonneg, atMost, some, Int.le_of_lt_add_one below⟩
  · intro phase member
    have laid : phase.InRange := inRange.phases _ member
    exact ⟨laid.target, laid.count⟩
  · intro phase member
    have tricks : phase.InRange := inRange.phases _ member
    exact ⟨tricks.trump, tricks.breaking⟩
  · intro phase member
    have bets : phase.InRange := inRange.phases _ member
    exact ⟨bets.minBet, bets.maxRaises⟩
  · intro phase member
    have bids : phase.InRange := inRange.phases _ member
    exact bids.bids
  · intro condition member
    have known := inRange.winConditions condition member
    exact ⟨known.side, known.trigger⟩
  · intro pattern member
    exact (inRange.patterns pattern member).kind
  · have teams := inRange.teams
    split
    · rename_i mode
      rw [if_pos mode] at teams
      obtain ⟨nodup, disjoint⟩ := teams.disjoint
      refine ⟨teams.several, fun team member => ⟨teams.staffed team member, nodup team member, ?_⟩,
        disjoint⟩
      intro seat seated
      exact teams.seated seat (List.mem_flatten.mpr ⟨team, member, seated⟩)
    · rename_i mode
      rw [if_neg mode] at teams
      exact teams

/-- Spades is read from its encoding, and so its bids and its partnerships are in range. -/
theorem ranges_of_decode_spades :
    decode Library.spades.encode = .ok Library.spades ∧
      (2 ≤ Library.spades.header.participants ∧ Library.spades.header.participants ≤ 8) ∧
      (∀ phase, .trick phase ∈ Library.spades.phases →
        (∀ suit ∈ phase.trump, suit ∈ SuitWord.known) ∧
          ∀ suit ∈ phase.breaking, suit ∈ SuitWord.known) ∧
      (∀ phase, .bidding phase ∈ Library.spades.phases → 0 ≤ phase.minBid ∧
        phase.minBid ≤ phase.maxBid ∧ phase.maxBid ≤ 52) ∧
      (∀ team ∈ Library.spades.teams, team ≠ [] ∧ team.Nodup ∧
        ∀ member ∈ team, 0 ≤ member ∧ member < Library.spades.header.participants) ∧
      Library.spades.teams.Pairwise List.Disjoint := by
  have accepted : decode Library.spades.encode = .ok Library.spades := by decide +kernel
  obtain ⟨header, _, ⟨_, _, _, _, tricks, _, bids⟩, _, _, _, _, teams⟩ := ranges_of_decode accepted
  rw [if_pos (show Library.spades.header.teamMode = true from rfl)] at teams
  exact ⟨accepted, header.2.1, tricks, bids, teams.2⟩

end Program

end Croupier
