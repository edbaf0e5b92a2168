/-
The vocabulary of rule programs: suits, ranks, locations, modes, conditions,
triggers, effects and scoring kinds, each with the byte that stands for it.

A byte that no word of the vocabulary claims is kept as an unknown word, so
every byte stands for exactly one word and every word for exactly one byte. The
laws are the fields of `Coded`.
-/

import Croupier.Card

namespace Croupier

/-- Words that correspond one to one to bytes. -/
class Coded (α : Type) where
  /-- The byte that stands for a word. -/
  code : α → UInt8
  /-- The word that a byte stands for. -/
  ofCode : UInt8 → α
  ofCode_code : ∀ word, ofCode (code word) = word
  code_ofCode : ∀ byte, code (ofCode byte) = byte

/-- A property of the first bytes holds of every byte below the bound. -/
theorem forall_byte_below {property : UInt8 → Prop} (bound : UInt8)
    (holds : ∀ value < bound.toNat, property value.toUInt8) :
    ∀ byte, ¬ bound ≤ byte → property byte := by
  intro byte inRange
  have below : byte.toNat < bound.toNat := by
    simpa [UInt8.lt_iff_toNat_lt] using inRange
  have held := holds byte.toNat below
  rwa [show byte.toNat.toUInt8 = byte from UInt8.ofNat_toNat] at held

/-- The lowest byte of a number in two's complement. -/
def lowByte (value : Int) : UInt8 :=
  (value % 256).toNat.toUInt8

/-- A suit as a program names it. No card has a suit of an unknown word. -/
inductive SuitWord where
  | suit (suit : Suit)
  | unknown (code : UInt8) (beyond : 4 ≤ code)
  deriving DecidableEq, Repr

namespace SuitWord

/-- The known words, in the order of their codes. -/
def known : List SuitWord :=
  Suit.all.map suit

instance : Coded SuitWord where
  code
    | suit named => named.index.toUInt8
    | unknown code _ => code
  ofCode byte :=
    if beyond : 4 ≤ byte then
      unknown byte beyond
    else
      known.getD byte.toNat (suit .clubs)
  ofCode_code word := by
    cases word with
    | unknown code beyond => simp [beyond]
    | suit named => cases named <;> rfl
  code_ofCode byte := by
    by_cases beyond : 4 ≤ byte
    · simp [beyond]
    · revert byte
      exact forall_byte_below 4 (by decide)

end SuitWord

/-- A rank as a program names it. No card has a rank of an unknown word. -/
inductive RankWord where
  | rank (rank : Rank)
  | unknown (code : UInt8) (beyond : 13 ≤ code)
  deriving DecidableEq, Repr

namespace RankWord

def known : List RankWord :=
  Rank.all.map rank

instance : Coded RankWord where
  code
    | rank named => named.index.toUInt8
    | unknown code _ => code
  ofCode byte :=
    if beyond : 13 ≤ byte then
      unknown byte beyond
    else
      known.getD byte.toNat (rank .two)
  ofCode_code word := by
    cases word with
    | unknown code beyond => simp [beyond]
    | rank named => cases named <;> rfl
  code_ofCode byte := by
    by_cases beyond : 13 ≤ byte
    · simp [beyond]
    · revert byte
      exact forall_byte_below 13 (by decide)

/-- The place of a word in the order of the codes. -/
def index (word : RankWord) : Nat :=
  (Coded.code word).toNat

theorem index_rank (named : Rank) : (rank named).index = named.index := by
  cases named <;> rfl

/-- The rank that is next after so many turns of taking the ranks one after the
other. A count below zero can lead to an unknown word. -/
def afterTurns (turns : Int) : RankWord :=
  Coded.ofCode (lowByte (turns.tmod 13))

end RankWord

/-- Where cards can lie, as seen by one participant. -/
inductive Location where
  | deck | hand | discard | tableau | opponentHand
  | unknown (code : UInt8) (beyond : 5 ≤ code)
  deriving DecidableEq, Repr

namespace Location

def known : List Location :=
  [deck, hand, discard, tableau, opponentHand]

instance : Coded Location where
  code
    | deck => 0
    | hand => 1
    | discard => 2
    | tableau => 3
    | opponentHand => 4
    | unknown code _ => code
  ofCode byte :=
    if beyond : 5 ≤ byte then
      unknown byte beyond
    else
      known.getD byte.toNat deck
  ofCode_code word := by
    cases word with
    | unknown code beyond => simp [beyond]
    | _ => rfl
  code_ofCode byte := by
    by_cases beyond : 5 ≤ byte
    · simp [beyond]
    · revert byte
      exact forall_byte_below 5 (by decide)

end Location

/-- What happens to cards that are played to a shared pile. -/
inductive TableauMode where
  | none | war | matchRank | sequence
  | unknown (code : UInt8) (beyond : 4 ≤ code)
  deriving DecidableEq, Repr

namespace TableauMode

def known : List TableauMode :=
  [none, war, matchRank, sequence]

instance : Coded TableauMode where
  code
    | none => 0
    | war => 1
    | matchRank => 2
    | sequence => 3
    | unknown code _ => code
  ofCode byte :=
    if beyond : 4 ≤ byte then
      unknown byte beyond
    else
      known.getD byte.toNat none
  ofCode_code word := by
    cases word with
    | unknown code beyond => simp [beyond]
    | _ => rfl
  code_ofCode byte := by
    by_cases beyond : 4 ≤ byte
    · simp [beyond]
    · revert byte
      exact forall_byte_below 4 (by decide)

end TableauMode

/-- Which rank continues a sequence. -/
inductive SequenceOrder where
  | ascending | descending | either
  | unknown (code : UInt8) (beyond : 3 ≤ code)
  deriving DecidableEq, Repr

namespace SequenceOrder

def known : List SequenceOrder :=
  [ascending, descending, either]

instance : Coded SequenceOrder where
  code
    | ascending => 0
    | descending => 1
    | either => 2
    | unknown code _ => code
  ofCode byte :=
    if beyond : 3 ≤ byte then
      unknown byte beyond
    else
      known.getD byte.toNat ascending
  ofCode_code word := by
    cases word with
    | unknown code beyond => simp [beyond]
    | _ => rfl
  code_ofCode byte := by
    by_cases beyond : 3 ≤ byte
    · simp [beyond]
    · revert byte
      exact forall_byte_below 3 (by decide)

end SequenceOrder

/-- Who takes a battle that several contributors share. -/
inductive TieBreak where
  | alternate | firstContributor
  | unknown (code : UInt8) (beyond : 2 ≤ code)
  deriving DecidableEq, Repr

namespace TieBreak

def known : List TieBreak :=
  [alternate, firstContributor]

instance : Coded TieBreak where
  code
    | alternate => 0
    | firstContributor => 1
    | unknown code _ => code
  ofCode byte :=
    if beyond : 2 ≤ byte then
      unknown byte beyond
    else
      known.getD byte.toNat alternate
  ofCode_code word := by
    cases word with
    | unknown code beyond => simp [beyond]
    | _ => rfl
  code_ofCode byte := by
    by_cases beyond : 2 ≤ byte
    · simp [beyond]
    · revert byte
      exact forall_byte_below 2 (by decide)

end TieBreak

/-- What a condition looks at. -/
inductive ConditionKind where
  | handSize | cardRank | cardSuit | locationSize | sequence | setSize
  | runLength | matchingPair | chipCount | potSize | currentBet | canAfford
  | matchesRank | matchesSuit | beatsTop | playableCount
  | unknown (code : UInt8) (beyond : 16 ≤ code)
  deriving DecidableEq, Repr

namespace ConditionKind

def known : List ConditionKind :=
  [handSize, cardRank, cardSuit, locationSize, sequence, setSize, runLength,
    matchingPair, chipCount, potSize, currentBet, canAfford, matchesRank,
    matchesSuit, beatsTop, playableCount]

instance : Coded ConditionKind where
  code
    | handSize => 0
    | cardRank => 1
    | cardSuit => 2
    | locationSize => 3
    | sequence => 4
    | setSize => 5
    | runLength => 6
    | matchingPair => 7
    | chipCount => 8
    | potSize => 9
    | currentBet => 10
    | canAfford => 11
    | matchesRank => 12
    | matchesSuit => 13
    | beatsTop => 14
    | playableCount => 15
    | unknown code _ => code
  ofCode byte :=
    if beyond : 16 ≤ byte then
      unknown byte beyond
    else
      known.getD byte.toNat handSize
  ofCode_code word := by
    cases word with
    | unknown code beyond => simp [beyond]
    | _ => rfl
  code_ofCode byte := by
    by_cases beyond : 16 ≤ byte
    · simp [beyond]
    · revert byte
      exact forall_byte_below 16 (by decide)

end ConditionKind

/-- How two numbers are compared. -/
inductive Comparison where
  | equal | notEqual | less | greater | lessEqual | greaterEqual
  | unknown (code : UInt8) (beyond : 6 ≤ code)
  deriving DecidableEq, Repr

namespace Comparison

def known : List Comparison :=
  [equal, notEqual, less, greater, lessEqual, greaterEqual]

instance : Coded Comparison where
  code
    | equal => 0
    | notEqual => 1
    | less => 2
    | greater => 3
    | lessEqual => 4
    | greaterEqual => 5
    | unknown code _ => code
  ofCode byte :=
    if beyond : 6 ≤ byte then
      unknown byte beyond
    else
      known.getD byte.toNat equal
  ofCode_code word := by
    cases word with
    | unknown code beyond => simp [beyond]
    | _ => rfl
  code_ofCode byte := by
    by_cases beyond : 6 ≤ byte
    · simp [beyond]
    · revert byte
      exact forall_byte_below 6 (by decide)

end Comparison

/-- What a win condition rewards. -/
inductive WinKind where
  | emptyHand | highScore | firstToScore | captureAll | lowScore
  | allHandsEmpty | mostTricks | fewestTricks | mostChips | bestHand
  | mostCaptured
  | unknown (code : UInt8) (beyond : 11 ≤ code)
  deriving DecidableEq, Repr

namespace WinKind

def known : List WinKind :=
  [emptyHand, highScore, firstToScore, captureAll, lowScore, allHandsEmpty,
    mostTricks, fewestTricks, mostChips, bestHand, mostCaptured]

instance : Coded WinKind where
  code
    | emptyHand => 0
    | highScore => 1
    | firstToScore => 2
    | captureAll => 3
    | lowScore => 4
    | allHandsEmpty => 5
    | mostTricks => 6
    | fewestTricks => 7
    | mostChips => 8
    | bestHand => 9
    | mostCaptured => 10
    | unknown code _ => code
  ofCode byte :=
    if beyond : 11 ≤ byte then
      unknown byte beyond
    else
      known.getD byte.toNat emptyHand
  ofCode_code word := by
    cases word with
    | unknown code beyond => simp [beyond]
    | _ => rfl
  code_ofCode byte := by
    by_cases beyond : 11 ≤ byte
    · simp [beyond]
    · revert byte
      exact forall_byte_below 11 (by decide)

end WinKind

/-- On which side of its threshold a value counts. -/
inductive ThresholdSide where
  | atLeast | atMost
  | unknown (code : UInt8) (beyond : 2 ≤ code)
  deriving DecidableEq, Repr

namespace ThresholdSide

def known : List ThresholdSide :=
  [atLeast, atMost]

instance : Coded ThresholdSide where
  code
    | atLeast => 0
    | atMost => 1
    | unknown code _ => code
  ofCode byte :=
    if beyond : 2 ≤ byte then
      unknown byte beyond
    else
      known.getD byte.toNat atLeast
  ofCode_code word := by
    cases word with
    | unknown code beyond => simp [beyond]
    | _ => rfl
  code_ofCode byte := by
    by_cases beyond : 2 ≤ byte
    · simp [beyond]
    · revert byte
      exact forall_byte_below 2 (by decide)

end ThresholdSide

/-- When a win condition is looked at. -/
inductive WinTrigger where
  | immediate | thresholdReached | allHandsEmpty | deckAndHandsEmpty
  | showdown
  | unknown (code : UInt8) (beyond : 5 ≤ code)
  deriving DecidableEq, Repr

namespace WinTrigger

def known : List WinTrigger :=
  [immediate, thresholdReached, allHandsEmpty, deckAndHandsEmpty, showdown]

instance : Coded WinTrigger where
  code
    | immediate => 0
    | thresholdReached => 1
    | allHandsEmpty => 2
    | deckAndHandsEmpty => 3
    | showdown => 4
    | unknown code _ => code
  ofCode byte :=
    if beyond : 5 ≤ byte then
      unknown byte beyond
    else
      known.getD byte.toNat immediate
  ofCode_code word := by
    cases word with
    | unknown code beyond => simp [beyond]
    | _ => rfl
  code_ofCode byte := by
    by_cases beyond : 5 ≤ byte
    · simp [beyond]
    · revert byte
      exact forall_byte_below 5 (by decide)

end WinTrigger

/-- What a card does when it is played. -/
inductive EffectKind where
  | skipNext | reverse | drawCards | extraTurn | forceDiscard | wild
  | blockNext | swapHands | stealCard | peek
  | unknown (code : UInt8) (beyond : 10 ≤ code)
  deriving DecidableEq, Repr

namespace EffectKind

def known : List EffectKind :=
  [skipNext, reverse, drawCards, extraTurn, forceDiscard, wild, blockNext,
    swapHands, stealCard, peek]

instance : Coded EffectKind where
  code
    | skipNext => 0
    | reverse => 1
    | drawCards => 2
    | extraTurn => 3
    | forceDiscard => 4
    | wild => 5
    | blockNext => 6
    | swapHands => 7
    | stealCard => 8
    | peek => 9
    | unknown code _ => code
  ofCode byte :=
    if beyond : 10 ≤ byte then
      unknown byte beyond
    else
      known.getD byte.toNat skipNext
  ofCode_code word := by
    cases word with
    | unknown code beyond => simp [beyond]
    | _ => rfl
  code_ofCode byte := by
    by_cases beyond : 10 ≤ byte
    · simp [beyond]
    · revert byte
      exact forall_byte_below 10 (by decide)

end EffectKind

/-- Whom a card effect strikes. -/
inductive EffectTarget where
  | next | previous | allOpponents | randomOpponent | self | left | right
  | unknown (code : UInt8) (beyond : 7 ≤ code)
  deriving DecidableEq, Repr

namespace EffectTarget

def known : List EffectTarget :=
  [next, previous, allOpponents, randomOpponent, self, left, right]

instance : Coded EffectTarget where
  code
    | next => 0
    | previous => 1
    | allOpponents => 2
    | randomOpponent => 3
    | self => 4
    | left => 5
    | right => 6
    | unknown code _ => code
  ofCode byte :=
    if beyond : 7 ≤ byte then
      unknown byte beyond
    else
      known.getD byte.toNat next
  ofCode_code word := by
    cases word with
    | unknown code beyond => simp [beyond]
    | _ => rfl
  code_ofCode byte := by
    by_cases beyond : 7 ≤ byte
    · simp [beyond]
    · revert byte
      exact forall_byte_below 7 (by decide)

end EffectTarget

/-- What a scoring rule sets. -/
inductive ScoringKind where
  | rankPoints | suitPoints | nilBonus | nilPenalty | pointsPerTrickBid
  | overtrickPoints | bagLimit | bagPenalty | failedContractPenalty
  | unknown (code : UInt8) (beyond : 9 ≤ code)
  deriving DecidableEq, Repr

namespace ScoringKind

def known : List ScoringKind :=
  [rankPoints, suitPoints, nilBonus, nilPenalty, pointsPerTrickBid,
    overtrickPoints, bagLimit, bagPenalty, failedContractPenalty]

instance : Coded ScoringKind where
  code
    | rankPoints => 0
    | suitPoints => 1
    | nilBonus => 2
    | nilPenalty => 3
    | pointsPerTrickBid => 4
    | overtrickPoints => 5
    | bagLimit => 6
    | bagPenalty => 7
    | failedContractPenalty => 8
    | unknown code _ => code
  ofCode byte :=
    if beyond : 9 ≤ byte then
      unknown byte beyond
    else
      known.getD byte.toNat rankPoints
  ofCode_code word := by
    cases word with
    | unknown code beyond => simp [beyond]
    | _ => rfl
  code_ofCode byte := by
    by_cases beyond : 9 ≤ byte
    · simp [beyond]
    · revert byte
      exact forall_byte_below 9 (by decide)

end ScoringKind

/-- What a hand pattern asks of a hand. -/
inductive PatternKind where
  | setOf | runOf | matchingPair | flushOf | pointTotal
  | unknown (code : UInt8) (beyond : 5 ≤ code)
  deriving DecidableEq, Repr

namespace PatternKind

def known : List PatternKind :=
  [setOf, runOf, matchingPair, flushOf, pointTotal]

instance : Coded PatternKind where
  code
    | setOf => 0
    | runOf => 1
    | matchingPair => 2
    | flushOf => 3
    | pointTotal => 4
    | unknown code _ => code
  ofCode byte :=
    if beyond : 5 ≤ byte then
      unknown byte beyond
    else
      known.getD byte.toNat setOf
  ofCode_code word := by
    cases word with
    | unknown code beyond => simp [beyond]
    | _ => rfl
  code_ofCode byte := by
    by_cases beyond : 5 ≤ byte
    · simp [beyond]
    · revert byte
      exact forall_byte_below 5 (by decide)

end PatternKind

/-- What a participant does when asked to bet. -/
inductive BettingAction where
  | none | check | bet | call | raise | allIn | fold
  | unknown (code : UInt8) (beyond : 7 ≤ code)
  deriving DecidableEq, Repr

namespace BettingAction

def known : List BettingAction :=
  [none, check, bet, call, raise, allIn, fold]

instance : Coded BettingAction where
  code
    | none => 0
    | check => 1
    | bet => 2
    | call => 3
    | raise => 4
    | allIn => 5
    | fold => 6
    | unknown code _ => code
  ofCode byte :=
    if beyond : 7 ≤ byte then
      unknown byte beyond
    else
      known.getD byte.toNat none
  ofCode_code word := by
    cases word with
    | unknown code beyond => simp [beyond]
    | _ => rfl
  code_ofCode byte := by
    by_cases beyond : 7 ≤ byte
    · simp [beyond]
    · revert byte
      exact forall_byte_below 7 (by decide)

end BettingAction

end Croupier
