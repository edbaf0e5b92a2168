/-
Dealing: how a game and each of its hands begin.

The deck is shuffled, every participant in turn receives its top card until all
have their share or the deck is gone, and the first discards follow. A later
hand gathers all cards first and sorts them, so that its deal depends on
nothing but the cards and the random source.
-/

import Croupier.Fault
import Croupier.Program.Query
import Croupier.Random.Draw
import Croupier.Table.Pile

namespace Croupier.Table

/-! ### The deal -/

/-- Every so-manieth card, beginning with the card at the given place. -/
def everyNth (stride start : Nat) (cards : List Card) : List Card :=
  cards.zipIdx.filterMap fun (card, place) =>
    if place % stride = start then some card else none

/-- How many cards each participant is to get: the number that the setup names,
or an even share of the deck if it names none. -/
def share (program : Program) (table : Table) : Nat :=
  if program.setup.cardsPerParticipant = 0 then
    table.deck.length / table.seats
  else
    program.setup.cardsPerParticipant.toNat

/-- Deals the hands and the first discards from the top of the deck. -/
def deal (table : Table) (program : Program) : Table :=
  let topFirst := table.deck.reverse
  let dealt := share program table * table.seats
  let hands := topFirst.take dealt
  let rest := topFirst.drop dealt
  let discards := program.setup.initialDiscards.toNat
  { table with
    players := table.players.zipIdx.map fun (player, seat) =>
      { player with
        hand := player.hand ++ everyNth table.seats seat hands }
    discard := table.discard ++ rest.take discards
    deck := (rest.drop discards).reverse }

def shuffleDeck (table : Table) : Table :=
  let (deck, generator) := table.generator.shuffle table.deck
  { table with deck, generator }

/-! ### The first hand -/

/-- A participant with chips and a team, before any card is dealt. -/
def seatedPlayer (program : Program) (team : Int) : Player :=
  { chips := program.setup.startingChips, team }

/-- A pile that is used again, without its cards. -/
def recycled (_ : List Card) : List Card :=
  []

/-- Clears the table for another game. The deck and the discard pile are used
again, everything else is new. -/
def reset (table : Table) : Table :=
  { deck := recycled table.deck
    discard := recycled table.discard }

@[simp]
theorem reset_eq (table : Table) : table.reset = {} :=
  rfl

/-- Seats everyone at a cleared table, lays the deck there in order and seeds
the generator. -/
def setUp (table : Table) (program : Program) (seed : UInt64) : Table :=
  { table with
    players := program.seatTeams.map (seatedPlayer program)
    deck := table.deck ++ program.deck
    tableau := if program.usesTableau then [[]] else table.tableau
    teamScores := List.replicate program.teamCount 0
    teamBags := List.replicate program.teamCount 0
    totalCards := (table.deck ++ program.deck).length
    generator := .seeded seed }

/-- The table before the first deal. -/
def seated (program : Program) (seed : UInt64) : Table :=
  ({} : Table).setUp program seed

def opening (program : Program) (seed : UInt64) : Table :=
  ((seated program seed).shuffleDeck).deal program

/-- Why a program cannot be played, if so. -/
def refusal? (program : Program) : Option Fault :=
  if program.phases.isEmpty then
    some .noPhases
  else if program.header.participants < minParticipants
      || program.header.participants > maxParticipants then
    some (.unsupportedSeats program.header.participants)
  else
    none

/-- Sets the table up for a fresh game, whatever was on it before. -/
def start (program : Program) (seed : UInt64) : EStateM Fault Table Unit := do
  if let some fault := refusal? program then
    throw fault
  modify fun table =>
    (((table.reset).setUp program seed).shuffleDeck).deal program

/-! ### Later hands -/

/-- What a participant keeps from hand to hand. -/
def Player.betweenHands (player : Player) : Player :=
  { score := player.score
    chips := player.chips
    bags := player.bags
    team := player.team }

/-- All cards in ascending order as the deck, everything that belongs to a
single hand cleared. -/
def gathered (table : Table) : Table :=
  { table with
    players := table.players.map Player.betweenHands
    deck := table.cards.mergeSort Card.atMost
    discard := []
    tableau := table.tableau.map (fun _ => []) }

/-- Gathers all cards and deals a new hand. Scores, chips, teams and the
counters of the game stay; the first turn moves on by a seat with each hand. -/
def nextHand (table : Table) (program : Program) : Table :=
  let dealt := (table.gathered.shuffleDeck).deal program
  let handNumber := table.handNumber + 1
  { dealt with
    pot := 0
    bet := 0
    raises := 0
    battleSeats := []
    battleCards := []
    trick := []
    suitBroken := false
    claim := {}
    handOver := false
    showdownResolved := false
    handNumber
    active := handNumber.tmod dealt.seats
    direction := 1
    skips := 0
    phase := 0
    step := 0 }

end Croupier.Table
