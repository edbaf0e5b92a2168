/-
Tricks: which card wins, when a trick is complete, and what its winner takes.
-/

import Croupier.Hand.Value
import Croupier.Table.Pile

namespace Croupier

namespace TrickPhase

/-- How strong the suit of a card is in a trick: trump beats the suit that was
led, which beats any other. -/
def suitStrength (phase : TrickPhase) (lead : Suit) (card : Card) : Nat :=
  if phase.trump = some (.suit card.suit) then
    2
  else if card.suit = lead then
    1
  else
    0

/-- Whether a later card of a trick beats the best one so far. Between equally
strong suits the rank decides, and nothing does off suit. -/
def beats (phase : TrickPhase) (lead : Suit) (card best : Card) : Bool :=
  let strength := phase.suitStrength lead card
  let bestStrength := phase.suitStrength lead best
  strength > bestStrength
    || (strength = bestStrength && strength > 0
      && if phase.highCardWins then
          best.rank.below card.rank
        else
          card.rank.below best.rank)

/-- The place of the best card, given the places and cards that follow the best
one so far. -/
def bestFrom (phase : TrickPhase) (lead : Suit) :
    (bestPlace : Nat) → (best : Card) → List (Card × Nat) → Nat
  | bestPlace, _, [] => bestPlace
  | bestPlace, best, (card, place) :: rest =>
      if phase.beats lead card best then
        phase.bestFrom lead place card rest
      else
        phase.bestFrom lead bestPlace best rest

def winningPlace (phase : TrickPhase) : List Card → Nat
  | [] => 0
  | lead :: rest => phase.bestFrom lead.suit 0 lead (rest.zipIdx 1)

end TrickPhase

namespace Table

/-- Whether every seat either has contributed or has nothing to contribute,
given the contributors. -/
def allContributed (table : Table) (contributors : List Int) : Bool :=
  table.allSeats.all fun seat =>
    contributors.contains seat || (table.hand seat).isEmpty

/-- Whether a trick is in progress to which nobody can add. -/
def trickComplete (table : Table) : Bool :=
  !table.trick.isEmpty && table.allContributed table.trick

/-- The cards of the trick or the battle in progress: the first tableau pile. -/
def centre (table : Table) : List Card :=
  table.tableau.head?.getD []

/-- Gives the trick to its winner, who is also returned. Tricks of a bidding
game score when the hand is over, all others at once. -/
def takeTrick (table : Table) (program : Program) (phase : TrickPhase) :
    Int × Table :=
  let cards := table.centre
  match table.trick[phase.winningPlace cards]? with
  | none => (nobody, table)
  | some winner =>
      let points :=
        if program.hasPhase .bidding then 0 else program.cardPoints cards
      let credited := table.modifyPlayer winner fun player =>
        { player with
          tricks := player.tricks + 1
          score := player.score + points }
      (winner,
        { (credited.modifyDiscard (· ++ cards)).modifyTableau (fun _ => [])
          with trick := [] })

end Table

end Croupier
