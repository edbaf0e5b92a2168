/-
Imagined games: the table as a participant could picture it, random play to its
end, and what the end is worth.
-/

import Croupier.Rules.Offer
import Croupier.Rules.Turn

namespace Croupier

namespace Table

/-! ### Hidden cards -/

/-- The hands of all participants but one, in seat order. -/
def otherHands (table : Table) (seat : Int) : List (List Card) :=
  (table.allSeats.filter (fun other => other ≠ seat)).map table.hand

/-- The cards that a participant cannot see: the deck and the hands of all
others. -/
def hiddenFrom (table : Table) (seat : Int) : List Card :=
  table.deck ++ (table.otherHands seat).flatten

/-- Fills the hands of participants with the given cards, as many as each of
them holds. The participant of one seat keeps the hand. -/
def refillHands (keeper : Int) :
    (players : List Player) → (seat : Int) → List Card → List Player
  | [], _, _ => []
  | player :: rest, seat, cards =>
      if seat = keeper then
        player :: refillHands keeper rest (seat + 1) cards
      else
        let size := player.hand.length
        { player with hand := cards.take size }
          :: refillHands keeper rest (seat + 1) (cards.drop size)

/-- The table with other cards in place of those that a participant cannot see;
every pile keeps its size. -/
def redistribute (table : Table) (seat : Int) (cards : List Card) : Table :=
  let size := table.deck.length
  { table with
    deck := cards.take size
    players := refillHands seat table.players 0 (cards.drop size) }

/-- The table as a participant could picture it: the hidden cards are shuffled
among themselves, and the future is drawn from a fresh generator. -/
def imagine (table : Table) (seat : Int) (generator : Generator) :
    Table × Generator :=
  let (seed, generator) := generator.next
  let (cards, generator) := generator.shuffle (table.hiddenFrom seat)
  ({ table.redistribute seat cards with generator := .seeded seed },
    generator)

/-! ### The worth of an outcome -/

/-- Whether an outcome is a win for the side of a participant. -/
def wonBy (table : Table) (program : Program) (seat : Int) : Outcome → Bool
  | .winner side =>
      if program.header.teamMode then
        (table.player seat).team = side
      else
        side = seat
  | .open | .draw => false

/-- What an outcome is worth to a participant, in half points: two for a win,
none for a loss, one for anything else. -/
def reward (table : Table) (program : Program) (seat : Int) :
    Outcome → Nat
  | .winner side => if table.wonBy program seat (.winner side) then 2 else 0
  | .open | .draw => 1

end Table

namespace Play

/-- Plays random actions until the game ends, cannot go on or reaches its turn
limit, but not more than so many. Returns how the game stands then. -/
def randomly (program : Program) : (actions : Nat) → Generator →
    Play (Outcome × Generator)
  | 0, generator => return (.open, generator)
  | actions + 1, generator => do
      let table ← get
      if table.turn ≥ program.header.maxTurns then
        return (.open, generator)
      let moves := table.moves program
      let (place, drawn) :=
        if moves.isEmpty then (0, generator) else generator.below moves.length
      match moves[place]? with
      | some move =>
          match ← perform program move with
          | .open => randomly program actions drawn
          | outcome => return (outcome, drawn)
      | none =>
          if table.canPass program then
            match ← pass program with
            | .open => randomly program actions generator
            | outcome => return (outcome, generator)
          else
            return (.open, generator)

end Play

end Croupier
