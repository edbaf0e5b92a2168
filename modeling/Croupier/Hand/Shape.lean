/-
What a hand of cards is made of: sets, runs, pairs, flushes and point totals.

Nothing here depends on the order of the cards in the hand.
-/

import Croupier.Card
import Croupier.Total

namespace Croupier.Hand

/-! ### Ranks and suits -/

def rankCount (hand : List Card) (rank : Rank) : Nat :=
  hand.countP (fun card => card.rank = rank)

def suitCount (hand : List Card) (suit : Suit) : Nat :=
  hand.countP (fun card => card.suit = suit)

/-- The size of the largest set of cards of one rank. -/
def largestSet (hand : List Card) : Nat :=
  Rank.all.foldl (fun largest rank => max largest (rankCount hand rank)) 0

/-- The size of the largest set of cards of one suit. -/
def largestFlush (hand : List Card) : Nat :=
  Suit.all.foldl (fun largest suit => max largest (suitCount hand suit)) 0

/-- Whether two cards share their rank and their colour. -/
def matching (left right : Card) : Bool :=
  left.rank = right.rank && left.suit.isRed = right.suit.isRed

def hasMatchingPair : List Card → Bool
  | [] => false
  | card :: rest => rest.any (matching card) || hasMatchingPair rest

/-! ### Runs -/

/-- The ranks in the order of runs, in which the ace stands at both ends. -/
def runOrder : List Rank :=
  .ace :: Rank.all

/-- The longest stretch of true values, given the length of the stretch that
ends right before and the longest one so far. -/
def longestStretch : List Bool → (current longest : Nat) → Nat
  | [], _, longest => longest
  | true :: rest, current, longest =>
      longestStretch rest (current + 1) (max longest (current + 1))
  | false :: rest, _, longest => longestStretch rest 0 longest

def longestRun (hand : List Card) : Nat :=
  longestStretch
    (runOrder.map (fun rank => hand.any (fun card => card.rank = rank))) 0 0

/-! ### Point totals -/

/-- The points of a card that has not given way: eleven for an ace, ten for a
ten or a face, the number on the card for all others. -/
def cardValue (card : Card) : Int :=
  match card.rank with
  | .ace => 11
  | .ten | .jack | .queen | .king => 10
  | rank => rank.index + 2

/-- Counts soft aces as one instead of eleven, one after the other, as long as
the total is above the limit. -/
def soften (limit : Int) : (softAces : Nat) → (total : Int) → Int
  | 0, total => total
  | softAces + 1, total =>
      if total > limit then soften limit softAces (total - 10) else total

/-- The point total of a hand, with aces counted so as to stay within the limit
if that is possible. -/
def pointTotal (hand : List Card) (limit : Int) : Int :=
  soften limit (rankCount hand .ace) (total (hand.map cardValue))

end Croupier.Hand
