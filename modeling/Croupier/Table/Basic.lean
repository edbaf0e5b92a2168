/-
The table: everything a game in progress consists of.

Participants are known by their seat, counted from zero. The last card of a
pile is its top. Seats, amounts and counters are whole numbers of either sign,
because a table can be set up by hand; play from a deal keeps them in range.
-/

import Croupier.Program.Basic
import Croupier.Random.Twister

namespace Croupier

/-- What one participant has and has done in the current hand. -/
structure Player where
  hand : List Card := []
  score : Int := 0
  chips : Int := 0
  bet : Int := 0
  folded : Bool := false
  allIn : Bool := false
  acted : Bool := false
  tricks : Int := 0
  /-- The bid that was announced; a negative one is none. -/
  bid : Int := -1
  nilBid : Bool := false
  /-- Overtricks carried from hand to hand outside team mode. -/
  bags : Int := 0
  team : Int := nobody
  deriving DecidableEq, Repr, Inhabited

/-- The claim that the last face-down card was laid with. -/
structure Claim where
  pending : Bool := false
  claimant : Int := nobody
  rank : RankWord := .rank .two
  card : Card := {}
  deriving DecidableEq, Repr, Inhabited

structure Table where
  players : List Player := []
  deck : List Card := []
  discard : List Card := []
  tableau : List (List Card) := []
  /-- The seat whose turn it is. -/
  active : Int := 0
  turn : Int := 0
  /-- Moves and passes since the first deal. -/
  actions : Int := 0
  /-- One for play in seat order, minus one for play against it. -/
  direction : Int := 1
  /-- How many participants the end of the turn passes over. -/
  skips : Int := 0
  phase : Int := 0
  /-- Cards that were played or discarded in the current phase. -/
  step : Int := 0
  pot : Int := 0
  /-- The bet that everyone has to match. -/
  bet : Int := 0
  raises : Int := 0
  showdowns : Int := 0
  /-- The first winner of the last showdown. -/
  lastShowdown : Int := nobody
  /-- A showdown settled the current hand. -/
  showdownResolved : Bool := false
  /-- Scores of the teams; none outside team mode. -/
  teamScores : List Int := []
  teamBags : List Int := []
  /-- Who contributed to the battle in progress, in order. -/
  battleSeats : List Int := []
  /-- The highest card that each of them put into it, in the same order. -/
  battleCards : List Card := []
  battles : Int := 0
  /-- Who contributed to the trick in progress, in order. Its cards lie on the
  first tableau pile. -/
  trick : List Int := []
  suitBroken : Bool := false
  claim : Claim := {}
  claims : Int := 0
  handOver : Bool := false
  handNumber : Int := 0
  totalCards : Int := 0
  generator : Generator := default
  deriving DecidableEq, Repr, Inhabited

namespace Table

/-! ### Participants -/

def seats (table : Table) : Nat :=
  table.players.length

def allSeats (table : Table) : List Int :=
  (List.range table.seats).map Int.ofNat

/-- The participant of a seat; an empty seat has nothing. -/
def player (table : Table) (seat : Int) : Player :=
  if seat < 0 then {} else table.players.getD seat.toNat {}

def hand (table : Table) (seat : Int) : List Card :=
  (table.player seat).hand

/-- Changes what one participant has; an empty seat stays empty. -/
def modifyPlayer (table : Table) (seat : Int) (change : Player → Player) :
    Table :=
  if seat < 0 then
    table
  else
    { table with players := table.players.modify seat.toNat change }

def modifyHand (table : Table) (seat : Int)
    (change : List Card → List Card) : Table :=
  table.modifyPlayer seat fun player =>
    { player with hand := change player.hand }

/-- The seat that lies so many places further around the table. One step in
either direction leads from a seat to a seat; a remainder takes the sign of what
is divided, so that longer ways back can lead to nobody. -/
def seatAfter (table : Table) (seat places : Int) : Int :=
  (seat + places + table.seats).tmod table.seats

theorem seatAfter_bounds {table : Table} {seat places : Int}
    (seated : 0 ≤ seat ∧ seat < table.seats)
    (step : -1 ≤ places ∧ places ≤ 1) :
    0 ≤ table.seatAfter seat places
      ∧ table.seatAfter seat places < table.seats := by
  have positive : (0 : Int) < table.seats := by omega
  constructor
  · exact Int.tmod_nonneg _ (by omega)
  · exact Int.tmod_lt_of_pos _ positive

/-- The seat that comes next in the direction of play. -/
def nextSeat (table : Table) (seat : Int) : Int :=
  table.seatAfter seat table.direction

/-- The chips that a participant is short of the bet at the table. -/
def owed (table : Table) (seat : Int) : Int :=
  max (table.bet - (table.player seat).bet) 0

def handsEmpty (table : Table) : Bool :=
  table.players.all (fun player => player.hand.isEmpty)

/-! ### Cards -/

/-- Every card on the table: the deck, the discard pile, the hands in seat order
and the tableau piles. -/
def cards (table : Table) : List Card :=
  table.deck ++ table.discard ++ table.players.flatMap (·.hand)
    ++ table.tableau.flatten

def countCards (table : Table) : Nat :=
  table.deck.length + table.discard.length
    + (table.players.flatMap (·.hand)).length + table.tableau.flatten.length

theorem countCards_eq (table : Table) :
    table.countCards = table.cards.length := by
  simp [countCards, cards, Nat.add_assoc]

end Table

end Croupier
