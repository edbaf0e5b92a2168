/-
When the conditions of a phase hold.

A condition looks at the table from one seat, and possibly at a candidate card.
The number of playable cards is counted by the conditions of the first play
phase; inside those conditions it places no constraint, so that it never counts
by itself.
-/

import Croupier.Hand.Shape
import Croupier.Program.Query
import Croupier.Table.Pile

namespace Croupier

/-- Whether two numbers compare as asked. An unknown comparison never holds. -/
def Comparison.holds (comparison : Comparison) (left right : Int) : Bool :=
  match comparison with
  | .equal => left = right
  | .notEqual => left ≠ right
  | .less => left < right
  | .greater => left > right
  | .lessEqual => left ≤ right
  | .greaterEqual => left ≥ right
  | .unknown _ _ => false

namespace Table

/-! ### Cards that others are compared with -/

/-- The card that a reference byte names: the top of the discard pile or of the
first tableau pile. -/
def referenceCard? (table : Table) (reference : UInt8) : Option Card :=
  match reference with
  | 1 => table.discard.getLast?
  | 2 => (table.tableau.head?.getD []).getLast?
  | _ => none

/-- Whether a card fits the reference card, which any card does if there is
none. -/
def fitsReference (table : Table) (reference : UInt8)
    (fits : Card → Bool) : Bool :=
  (table.referenceCard? reference).all fits

/-- Whether a card continues the sequence on the first tableau pile. Any card
begins one. -/
def continuesSequence (table : Table) (program : Program) (card : Card) :
    Bool :=
  match (table.tableau.head?.getD []).getLast? with
  | none => true
  | some top =>
      let up := card.rank.index = top.rank.index + 1
      let down := card.rank.index + 1 = top.rank.index
      match program.header.sequenceOrder with
      | .ascending => up
      | .descending => down
      | .either => up || down
      | .unknown _ _ => false

/-! ### Conditions -/

/-- Whether a condition holds that does not ask for the number of playable
cards; a condition that does ask holds. Conditions on a card fail without a
candidate. -/
def holdsApart (table : Table) (program : Program) (seat : Int)
    (condition : Condition) (candidate : Option Card) : Bool :=
  let player := table.player seat
  let compare := condition.comparison.holds
  match condition.kind with
  | .handSize => compare player.hand.length condition.value
  | .cardRank =>
      candidate.any (fun card => compare card.rank.index condition.value)
  | .cardSuit =>
      candidate.any (fun card => compare card.suit.index condition.value)
  | .locationSize =>
      match (Coded.ofCode condition.reference : Location) with
      | .unknown _ _ => false
      | location =>
          compare ((table.pile? seat location).getD []).length condition.value
  | .sequence => candidate.any (table.continuesSequence program)
  | .setSize => compare (Hand.largestSet player.hand) condition.value
  | .runLength => compare (Hand.longestRun player.hand) condition.value
  | .matchingPair => Hand.hasMatchingPair player.hand
  | .chipCount => compare player.chips condition.value
  | .potSize => compare table.pot condition.value
  | .currentBet => compare table.bet condition.value
  | .canAfford => player.chips ≥ table.owed seat + condition.value
  | .matchesRank =>
      candidate.any fun card =>
        table.fitsReference condition.reference (·.rank = card.rank)
  | .matchesSuit =>
      candidate.any fun card =>
        table.fitsReference condition.reference (·.suit = card.suit)
  | .beatsTop =>
      candidate.any fun card =>
        table.fitsReference condition.reference (·.rank.below card.rank)
  | .playableCount => true
  | .unknown _ _ => false

/-- Whether the conditions of a block hold as their quantifier asks. -/
def blockHolds (holds : Condition → Bool) (block : ConditionBlock) : Bool :=
  match block.quantifier with
  | .all => block.conditions.all holds
  | .any => block.conditions.isEmpty || block.conditions.any holds

/-- Whether a card counts as playable under the conditions of a play phase. -/
def isPlayable (table : Table) (program : Program) (seat : Int)
    (phase : PlayPhase) (card : Card) : Bool :=
  program.isWild card
    || blockHolds
      (fun condition => table.holdsApart program seat condition (some card))
      phase.conditions

/-- How many cards of a hand are playable in the first play phase, none if the
program has no such phase. -/
def playableCount (table : Table) (program : Program) (seat : Int) : Nat :=
  let first := program.phases.findSome? fun phase =>
    match phase with
    | .play phase => some phase
    | _ => none
  match first with
  | some phase =>
      (table.hand seat).countP (table.isPlayable program seat phase)
  | none => 0

def holds (table : Table) (program : Program) (seat : Int)
    (condition : Condition) (candidate : Option Card) : Bool :=
  match condition.kind with
  | .playableCount =>
      condition.comparison.holds (table.playableCount program seat)
        condition.value
  | _ => table.holdsApart program seat condition candidate

def holdsBlock (table : Table) (program : Program) (seat : Int)
    (block : ConditionBlock) (candidate : Option Card) : Bool :=
  blockHolds (fun condition => table.holds program seat condition candidate)
    block

/-- Whether a card may be played: a wild card always, any other if the
conditions of the phase hold for it. -/
def mayPlay (table : Table) (program : Program) (seat : Int)
    (phase : PlayPhase) (card : Card) : Bool :=
  program.isWild card
    || table.holdsBlock program seat phase.conditions (some card)

end Table

end Croupier
