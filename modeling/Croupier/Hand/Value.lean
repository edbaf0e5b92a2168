/-
What cards are worth under a program: points for captured cards, and the value
of a hand at a showdown.

A program with hand patterns values a hand by them; any other program ranks it
as a poker hand.
-/

import Croupier.Hand.Rank
import Croupier.Program.Query

namespace Croupier

/-! ### Points for cards -/

/-- How many points a scoring rule gives for cards, if it is a rule for
cards. -/
def ScoringRule.cardPoints? (rule : ScoringRule) (cards : List Card) :
    Option Int :=
  match rule.kind with
  | .rankPoints =>
      some (rule.points
        * cards.countP (fun card => card.rank.index = rule.selector.toNat))
  | .suitPoints =>
      some (rule.points
        * cards.countP (fun card => card.suit.index = rule.selector.toNat))
  | _ => none

/-- The points for cards: what the rules for cards give in sum, or one point a
card if the program has no such rule. -/
def Program.cardPoints (program : Program) (cards : List Card) : Int :=
  match program.scoring.filterMap (·.cardPoints? cards) with
  | [] => cards.length
  | points => total points

/-! ### The value of a hand -/

def HandPattern.value (pattern : HandPattern) (hand : List Card) : Int :=
  match pattern.kind with
  | .setOf => if Hand.largestSet hand ≥ pattern.size then pattern.weight else 0
  | .runOf => if Hand.longestRun hand ≥ pattern.size then pattern.weight else 0
  | .matchingPair => if Hand.hasMatchingPair hand then pattern.weight else 0
  | .flushOf =>
      if Hand.largestFlush hand ≥ pattern.size then pattern.weight else 0
  | .pointTotal =>
      let total := Hand.pointTotal hand pattern.size
      if total ≤ pattern.size then pattern.weight + total else 0
  | .unknown _ _ => 0

/-- The value of a hand under a table of patterns. -/
def patternValue (patterns : List HandPattern) (hand : List Card) : Int :=
  total (patterns.map (·.value hand))

/-- The value of a hand at a showdown. -/
def Program.handValue (program : Program) (hand : List Card) : Int :=
  if program.patterns.isEmpty then
    Hand.bestRank hand
  else
    patternValue program.patterns hand

end Croupier
