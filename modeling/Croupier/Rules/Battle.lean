/-
Battles: everyone turns up cards on the tableau, and the highest one takes them
all.
-/

import Croupier.Rules.Trick

namespace Croupier.Table

/-- Enters a card of a participant into the battle. Of several cards of one
participant the highest counts. -/
def enterBattle (table : Table) (seat : Int) (card : Card) : Table :=
  match table.battleSeats.findIdx? (fun other => other = seat) with
  | some place =>
      { table with
        battleCards := table.battleCards.modify place fun best =>
          if best.rank.below card.rank then card else best }
  | none =>
      { table with
        battleSeats := table.battleSeats ++ [seat]
        battleCards := table.battleCards ++ [card] }

/-- Whether a battle is in progress to which nobody can add. -/
def battleComplete (table : Table) : Bool :=
  !table.battleSeats.isEmpty && table.allContributed table.battleSeats

def highestRank (cards : List Card) : Rank :=
  cards.foldl (fun best card => best.higher card.rank) .two

/-- The contributors to the battle that share the highest rank, in order. -/
def battleBest (table : Table) : List Int :=
  let best := highestRank table.battleCards
  ((table.battleSeats.zip table.battleCards).filter
    (fun entry => entry.2.rank = best)).map (·.1)

/-- Who takes the battle. A tie goes to its first contributor, or to the tied
ones in turn from battle to battle. -/
def battleWinner? (table : Table) (program : Program) : Option Int :=
  let tied := table.battleBest
  match program.header.tieBreak with
  | .alternate => tied[(table.battles.tmod tied.length).toNat]?
  | .firstContributor | .unknown _ _ => tied.head?

/-- Gives the cards of the battle to its winner, who is also returned. They go
to the bottom of the winner's hand. -/
def takeBattle (table : Table) (program : Program) : Int × Table :=
  match table.battleWinner? program with
  | none => (nobody, table)
  | some winner =>
      let cards := table.centre
      let credited := table.modifyPlayer winner fun player =>
        { player with
          hand := cards ++ player.hand
          score := player.score + program.cardPoints cards }
      (winner,
        { credited.modifyTableau (fun _ => []) with
          battleSeats := []
          battleCards := []
          battles := table.battles + 1 })

end Croupier.Table
