/-
Piles by location, and cards on their way from one pile to another.
-/

import Croupier.Table.Basic

namespace Croupier.Table

/-! ### Looking at piles -/

/-- The pile at a location, as seen from a seat. There is none on a tableau
without piles, and none at an unknown location. -/
def pile? (table : Table) (seat : Int) : Location → Option (List Card)
  | .deck => some table.deck
  | .hand => some (table.hand seat)
  | .discard => some table.discard
  | .tableau => table.tableau.head?
  | .opponentHand => some (table.hand (table.nextSeat seat))
  | .unknown _ _ => none

/-- The cards at a location that cards are moved from or to. An unknown
location stands for the discard pile. -/
def pileAt (table : Table) (seat : Int) : Location → List Card
  | .unknown _ _ => table.discard
  | location => (table.pile? seat location).getD []

/-! ### Changing piles -/

/-- Makes sure that the tableau has a first pile. -/
def openTableau (table : Table) : Table :=
  if table.tableau.isEmpty then { table with tableau := [[]] } else table

/-- Makes sure that there is a pile at a location. -/
def openPile (table : Table) : Location → Table
  | .tableau => table.openTableau
  | _ => table

def modifyTableau (table : Table) (change : List Card → List Card) : Table :=
  { table with tableau := table.tableau.modify 0 change }

def modifyDiscard (table : Table) (change : List Card → List Card) : Table :=
  { table with discard := change table.discard }

/-- Changes the pile at a location. An unknown location stands for the discard
pile. -/
def modifyPile (table : Table) (seat : Int) (location : Location)
    (change : List Card → List Card) : Table :=
  match location with
  | .deck => { table with deck := change table.deck }
  | .hand => table.modifyHand seat change
  | .discard | .unknown _ _ => table.modifyDiscard change
  | .tableau => table.openTableau.modifyTableau change
  | .opponentHand => table.modifyHand (table.nextSeat seat) change

/-- Puts a card on top of the pile at a location. -/
def place (table : Table) (seat : Int) (location : Location) (card : Card) :
    Table :=
  table.modifyPile seat location (· ++ [card])

/-! ### Drawing -/

/-- Moves the top card of a pile to the end of a hand, if there is one. -/
def drawOne (seat : Int) (source : Location) (table : Table) : Table :=
  match (table.pileAt seat source).getLast? with
  | none => table
  | some card =>
      (table.modifyPile seat source List.dropLast).modifyHand seat
        (· ++ [card])

/-- How many cards a draw yields. Nothing can be drawn from one's own hand, and
a negative request is answered with itself. -/
def drawCount (table : Table) (seat : Int) (source : Location) (count : Int) :
    Int :=
  match source with
  | .hand => 0
  | source => min count (table.pileAt seat source).length

/-- Draws cards from the top of a pile, one after the other. Drawing opens the
pile even if there is nothing to draw. -/
def draw (table : Table) (seat : Int) (source : Location) (count : Int) :
    Table :=
  match source with
  | .hand => table
  | source =>
      (table.drawCount seat source count).toNat.repeat (drawOne seat source)
        (table.openPile source)

end Croupier.Table
