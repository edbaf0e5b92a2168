/-
What the compiled format can express.

A program is in range if every number fits its field and lies where the format allows it, and
every word whose unknown codes are refused is known. A program is canonical if no play phase
asks for any of no conditions: such a block is written like the empty block that asks for all.
A program that is both is well-formed.
-/

import Croupier.Proofs.Codec.Numeral

namespace Croupier

/-! ### Words -/

/-- The known words are those whose codes are below their number. -/
theorem mem_known_iff {α : Type} [Coded α] {known : List α}
    (listed : (List.range known.length).map (fun place => Coded.ofCode place.toUInt8) = known)
    (word : α) : word ∈ known ↔ (Coded.code word).toNat < known.length := by
  constructor
  · intro member
    rw [← listed] at member
    obtain ⟨place, inRange, rfl⟩ := List.mem_map.mp member
    have bound := List.mem_range.mp inRange
    rw [Coded.code_ofCode]
    have cut : place.toUInt8.toNat ≤ place := by
      simp only [Nat.toUInt8, UInt8.toNat_ofNat']
      exact Nat.mod_le place _
    omega
  · intro below
    rw [← listed]
    refine List.mem_map.mpr ⟨(Coded.code word).toNat, List.mem_range.mpr below, ?_⟩
    rw [show (Coded.code word).toNat.toUInt8 = Coded.code word from UInt8.ofNat_toNat,
      Coded.ofCode_code]

/-! ### Phases -/

@[mk_iff]
structure Condition.InRange (condition : Condition) : Prop where
  comparison : condition.comparison ∈ Comparison.known
  value : FitsSigned 4 condition.value

def ConditionBlock.InRange (block : ConditionBlock) : Prop :=
  ∀ condition ∈ block.conditions, condition.InRange

@[mk_iff]
structure DrawPhase.InRange (phase : DrawPhase) : Prop where
  source : phase.source ∈ Location.known
  count : 0 ≤ phase.count ∧ phase.count ≤ maxDeckSize
  condition : ∀ condition ∈ phase.condition, condition.InRange

@[mk_iff]
structure PlayPhase.InRange (phase : PlayPhase) : Prop where
  target : phase.target ∈ Location.known
  cards : 0 ≤ phase.minCards ∧ phase.minCards ≤ phase.maxCards
    ∧ 1 ≤ phase.maxCards ∧ phase.maxCards < 256
  conditions : phase.conditions.InRange

@[mk_iff]
structure DiscardPhase.InRange (phase : DiscardPhase) : Prop where
  target : phase.target ∈ Location.known
  count : 1 ≤ phase.count ∧ phase.count ≤ maxDeckSize

@[mk_iff]
structure TrickPhase.InRange (phase : TrickPhase) : Prop where
  trump : ∀ suit ∈ phase.trump, suit ∈ SuitWord.known
  breaking : ∀ suit ∈ phase.breaking, suit ∈ SuitWord.known

@[mk_iff]
structure BettingPhase.InRange (phase : BettingPhase) : Prop where
  minBet : 1 ≤ phase.minBet ∧ phase.minBet ≤ Decoder.maxAmount
  maxRaises : 0 ≤ phase.maxRaises ∧ phase.maxRaises ≤ Decoder.maxAmount

@[mk_iff]
structure BiddingPhase.InRange (phase : BiddingPhase) : Prop where
  bids : 0 ≤ phase.minBid ∧ phase.minBid ≤ phase.maxBid
    ∧ phase.maxBid ≤ standardDeckSize

def Phase.InRange : Phase → Prop
  | .draw phase => phase.InRange
  | .play phase => phase.InRange
  | .discard phase => phase.InRange
  | .trick phase => phase.InRange
  | .betting phase => phase.InRange
  | .claim _ => True
  | .bidding phase => phase.InRange

/-! ### Sections -/

@[mk_iff]
structure Header.InRange (header : Header) : Prop where
  version : header.version = formatVersion
  tableauMode : header.tableauMode ∈ TableauMode.known
  sequenceOrder : header.sequenceOrder ∈ SequenceOrder.known
  rankMask : header.rankMask.toNat < Nat.pow 2 Rank.count
  deckCopies : 1 ≤ header.deckCopies ∧ header.deckCopies ≤ maxDeckCopies
  tieBreak : header.tieBreak ∈ TieBreak.known
  participants : (minParticipants : Int) ≤ header.participants
    ∧ header.participants ≤ maxParticipants
  maxTurns : 1 ≤ header.maxTurns ∧ header.maxTurns < 0x80000000

@[mk_iff]
structure Setup.InRange (setup : Setup) : Prop where
  cardsPerParticipant : 0 ≤ setup.cardsPerParticipant
    ∧ setup.cardsPerParticipant < 0x80000000
  initialDiscards : 0 ≤ setup.initialDiscards ∧ setup.initialDiscards < 0x80000000
  startingChips : 0 ≤ setup.startingChips ∧ setup.startingChips < 0x80000000

@[mk_iff]
structure WinCondition.InRange (condition : WinCondition) : Prop where
  threshold : FitsSigned 4 condition.threshold
  side : condition.side ∈ ThresholdSide.known
  trigger : condition.trigger ∈ WinTrigger.known

/-- The kind and the target of an effect are bytes of their own accord. -/
@[mk_iff]
structure Effect.InRange (rank : RankWord) (effect : Effect) : Prop where
  rank : rank ∈ RankWord.known
  value : 0 ≤ effect.value ∧ effect.value < 256

def ScoringRule.InRange (rule : ScoringRule) : Prop :=
  FitsSigned 2 rule.points

@[mk_iff]
structure HandPattern.InRange (pattern : HandPattern) : Prop where
  kind : pattern.kind ∈ PatternKind.known
  size : 0 ≤ pattern.size ∧ pattern.size < 256
  weight : FitsSigned 2 pattern.weight

/-- Teams that share out seats: at least two teams, each with members, and no seat twice. -/
@[mk_iff]
structure Roster (participants : Int) (teams : List (List Int)) : Prop where
  several : 2 ≤ teams.length
  staffed : ∀ team ∈ teams, team ≠ []
  seated : ∀ member ∈ teams.flatten, 0 ≤ member ∧ member < participants
  apart : teams.flatten.Nodup

/-! ### Programs -/

/-- Every part of the program lies in the ranges of the compiled format. -/
@[mk_iff]
structure Program.InRange (program : Program) : Prop where
  header : program.header.InRange
  setup : program.setup.InRange
  someTurn : program.phases ≠ []
  phases : ∀ phase ∈ program.phases, phase.InRange
  winConditions : ∀ condition ∈ program.winConditions, condition.InRange
  effects : ∀ entry ∈ program.effects.entries, entry.2.InRange entry.1
  scoring : ∀ rule ∈ program.scoring, rule.InRange
  patterns : ∀ pattern ∈ program.patterns, pattern.InRange
  teams : if program.header.teamMode then
      Roster program.header.participants program.teams
    else
      program.teams = []

/-- Whether a block of conditions has a written form of its own. -/
def ConditionBlock.Canonical (block : ConditionBlock) : Prop :=
  block.conditions = [] → block.quantifier = .all

def Phase.Canonical : Phase → Prop
  | .play phase => phase.conditions.Canonical
  | _ => True

def Program.Canonical (program : Program) : Prop :=
  ∀ phase ∈ program.phases, phase.Canonical

/-- A program that the compiled format can express. -/
@[mk_iff]
structure Program.WellFormed (program : Program) : Prop extends program.InRange where
  canonical : program.Canonical

/-! ### Deciding -/

instance (condition : Condition) : Decidable condition.InRange :=
  decidable_of_iff' _ condition.inRange_iff

instance (block : ConditionBlock) : Decidable block.InRange :=
  inferInstanceAs (Decidable (∀ condition ∈ block.conditions, condition.InRange))

instance (phase : DrawPhase) : Decidable phase.InRange :=
  decidable_of_iff' _ phase.inRange_iff

instance (phase : PlayPhase) : Decidable phase.InRange :=
  decidable_of_iff' _ phase.inRange_iff

instance (phase : DiscardPhase) : Decidable phase.InRange :=
  decidable_of_iff' _ phase.inRange_iff

instance (phase : TrickPhase) : Decidable phase.InRange :=
  decidable_of_iff' _ phase.inRange_iff

instance (phase : BettingPhase) : Decidable phase.InRange :=
  decidable_of_iff' _ phase.inRange_iff

instance (phase : BiddingPhase) : Decidable phase.InRange :=
  decidable_of_iff' _ phase.inRange_iff

instance : (phase : Phase) → Decidable phase.InRange
  | .draw phase => inferInstanceAs (Decidable phase.InRange)
  | .play phase => inferInstanceAs (Decidable phase.InRange)
  | .discard phase => inferInstanceAs (Decidable phase.InRange)
  | .trick phase => inferInstanceAs (Decidable phase.InRange)
  | .betting phase => inferInstanceAs (Decidable phase.InRange)
  | .claim _ => inferInstanceAs (Decidable True)
  | .bidding phase => inferInstanceAs (Decidable phase.InRange)

instance (header : Header) : Decidable header.InRange :=
  decidable_of_iff' _ header.inRange_iff

instance (setup : Setup) : Decidable setup.InRange :=
  decidable_of_iff' _ setup.inRange_iff

instance (condition : WinCondition) : Decidable condition.InRange :=
  decidable_of_iff' _ condition.inRange_iff

instance (rank : RankWord) (effect : Effect) : Decidable (effect.InRange rank) :=
  decidable_of_iff' _ (Effect.inRange_iff rank effect)

instance (rule : ScoringRule) : Decidable rule.InRange :=
  inferInstanceAs (Decidable (FitsSigned 2 rule.points))

instance (pattern : HandPattern) : Decidable pattern.InRange :=
  decidable_of_iff' _ pattern.inRange_iff

instance (participants : Int) (teams : List (List Int)) :
    Decidable (Roster participants teams) :=
  decidable_of_iff' _ (roster_iff participants teams)

instance (program : Program) : Decidable program.InRange :=
  decidable_of_iff' _ program.inRange_iff

instance (block : ConditionBlock) : Decidable block.Canonical :=
  inferInstanceAs (Decidable (block.conditions = [] → block.quantifier = .all))

instance : (phase : Phase) → Decidable phase.Canonical
  | .play phase => inferInstanceAs (Decidable phase.conditions.Canonical)
  | .draw _ | .discard _ | .trick _ | .betting _ | .claim _ | .bidding _ =>
      inferInstanceAs (Decidable True)

instance (program : Program) : Decidable program.Canonical :=
  inferInstanceAs (Decidable (∀ phase ∈ program.phases, phase.Canonical))

instance (program : Program) : Decidable program.WellFormed :=
  decidable_of_iff' _ program.wellFormed_iff

/-! ### Canonical programs -/

/-- The block as it is read back: nothing to combine is combined by all. -/
def ConditionBlock.canonical (block : ConditionBlock) : ConditionBlock :=
  if block.conditions = [] then {} else block

def Phase.canonical : Phase → Phase
  | .play phase => .play { phase with conditions := phase.conditions.canonical }
  | phase => phase

/-- The program with every block of no conditions asking for all of them. -/
def Program.canonical (program : Program) : Program :=
  { program with phases := program.phases.map Phase.canonical }

theorem ConditionBlock.canonical_eq_self_iff (block : ConditionBlock) :
    block.canonical = block ↔ block.Canonical := by
  unfold canonical Canonical
  by_cases empty : block.conditions = []
  · rw [if_pos empty]
    constructor
    · intro same _
      rw [← same]
    · intro all
      cases block with
      | mk quantifier conditions =>
          simp only at empty all
          rw [empty, all empty]
  · rw [if_neg empty]
    exact ⟨fun _ absurdly => absurd absurdly empty, fun _ => rfl⟩

theorem Phase.canonical_eq_self_iff (phase : Phase) :
    phase.canonical = phase ↔ phase.Canonical := by
  cases phase with
  | play phase =>
      change Phase.play _ = Phase.play phase ↔ phase.conditions.Canonical
      rw [← ConditionBlock.canonical_eq_self_iff, Phase.play.injEq]
      constructor
      · intro same
        exact congrArg PlayPhase.conditions same
      · intro same
        rw [same]
  | _ => exact ⟨fun _ => trivial, fun _ => rfl⟩

theorem Program.canonical_eq_self_iff (program : Program) :
    program.canonical = program ↔ program.Canonical := by
  constructor
  · intro same phase member
    have mapped : program.phases.map Phase.canonical = program.phases.map id := by
      rw [List.map_id]
      exact congrArg Program.phases same
    exact phase.canonical_eq_self_iff.mp (List.map_inj_left.mp mapped phase member)
  · intro canonical
    have fixed : program.phases.map Phase.canonical = program.phases := by
      have each : ∀ phase ∈ program.phases, phase.canonical = id phase :=
        fun phase member => phase.canonical_eq_self_iff.mpr (canonical phase member)
      rw [List.map_congr_left each, List.map_id]
    unfold Program.canonical
    rw [fixed]

end Croupier
