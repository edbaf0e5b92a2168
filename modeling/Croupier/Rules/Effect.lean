/-
Card effects: what a played card does to the other participants, to the turn
order and to itself.
-/

import Croupier.Program.Query
import Croupier.Random.Draw
import Croupier.Table.Pile

namespace Croupier.Table

/-! ### Whom an effect strikes -/

/-- The seats that an effect strikes. Only a random opponent takes a draw from
the generator; an unknown target strikes nobody. -/
def effectTargets (table : Table) (actor : Int) (target : EffectTarget) :
    List Int × Table :=
  match target with
  | .next => ([table.seatAfter actor table.direction], table)
  | .previous => ([table.seatAfter actor (-table.direction)], table)
  | .left => ([table.seatAfter actor 1], table)
  | .right => ([table.seatAfter actor (-1)], table)
  | .self => ([actor], table)
  | .allOpponents =>
      (table.allSeats.filter (fun seat => seat ≠ actor), table)
  | .randomOpponent =>
      let (offset, generator) := table.generator.below (table.seats - 1)
      ([(actor + 1 + offset).tmod table.seats], { table with generator })
  | .unknown _ _ => ([], table)

/-! ### What an effect does -/

/-- Lets the end of the turn pass over more participants, at least one more and
never all of them. -/
def addSkips (table : Table) (count : Int) : Table :=
  { table with
    skips := min (table.skips + max count 1) ((table.seats : Int) - 1) }

/-- Moves the last card of a hand to the discard pile, if there is one. -/
def discardOne (seat : Int) (table : Table) : Table :=
  match (table.hand seat).getLast? with
  | none => table
  | some card =>
      (table.modifyHand seat List.dropLast).modifyDiscard (· ++ [card])

/-- Makes a participant discard so many of the last cards of the hand. -/
def forceDiscard (table : Table) (seat : Int) (count : Int) : Table :=
  (min count (table.hand seat).length).toNat.repeat (discardOne seat) table

/-- Moves the last card of one hand to the end of another, if there is one. -/
def stealOne (thief victim : Int) (table : Table) : Table :=
  match (table.hand victim).getLast? with
  | none => table
  | some card =>
      (table.modifyHand victim List.dropLast).modifyHand thief (· ++ [card])

/-- Moves so many of the last cards of one hand to another. -/
def steal (table : Table) (thief victim : Int) (count : Int) : Table :=
  (min count (table.hand victim).length).toNat.repeat (stealOne thief victim)
    table

def swapHands (table : Table) (left right : Int) : Table :=
  let leftHand := table.hand left
  let rightHand := table.hand right
  (table.modifyHand left (fun _ => rightHand)).modifyHand right
    (fun _ => leftHand)

/-- Draws from the deck for each of the seats in turn. -/
def drawForEach (table : Table) (seats : List Int) (count : Int) : Table :=
  seats.foldl (fun table seat => table.draw seat .deck count) table

/-- Does to the first target, unless it is the actor, what is asked. -/
def againstFirst (table : Table) (actor : Int) (targets : List Int)
    (change : Table → Int → Table) : Table :=
  match targets with
  | [] => table
  | target :: _ => if target = actor then table else change table target

/-- Carries out an effect. Wild cards, peeks and unknown effects change
nothing. -/
def applyEffect (table : Table) (actor : Int) (effect : Effect) : Table :=
  match effect.kind with
  | .skipNext | .blockNext => table.addSkips effect.value
  | .reverse => { table with direction := -table.direction }
  | .extraTurn => { table with skips := (table.seats : Int) - 1 }
  | .drawCards =>
      let (targets, table) := table.effectTargets actor effect.target
      table.drawForEach targets effect.value
  | .forceDiscard =>
      let (targets, table) := table.effectTargets actor effect.target
      targets.foldl (fun table seat => table.forceDiscard seat effect.value)
        table
  | .swapHands =>
      let (targets, table) := table.effectTargets actor effect.target
      table.againstFirst actor targets fun table target =>
        table.swapHands actor target
  | .stealCard =>
      let (targets, table) := table.effectTargets actor effect.target
      table.againstFirst actor targets fun table target =>
        table.steal actor target effect.value
  | .wild | .peek | .unknown _ _ => table

/-- Carries out the effect of a card that was played, if it has one. -/
def triggerEffect (table : Table) (program : Program) (actor : Int)
    (card : Card) : Table :=
  match program.effectOf? card with
  | some effect => table.applyEffect actor effect
  | none => table

end Croupier.Table
