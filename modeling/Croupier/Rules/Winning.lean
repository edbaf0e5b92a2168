/-
Winning: how the sides stand, when a win condition is looked at, and what it
makes of the table.

A side is a participant, or a team in team mode.
-/

import Croupier.Hand.Value
import Croupier.Rules.Condition

namespace Croupier

/-- How a game stands after an action. -/
inductive Outcome where
  | open
  | winner (side : Int)
  | draw
  deriving DecidableEq, Repr

def Outcome.name : Outcome → String
  | .open => "In progress"
  | .winner side => "Winner " ++ toString side
  | .draw => "Draw"

namespace Table

/-! ### Sides -/

/-- The members of each side. A participant of no team is on no side. -/
def sides (table : Table) (program : Program) : List (List Player) :=
  if program.header.teamMode then
    (List.range table.teamScores.length).map fun (team : Nat) =>
      table.players.filter (fun player => player.team = team)
  else
    table.players.map ([·])

/-- The score of each side: that of the team and those of its members. -/
def sideScores (table : Table) (program : Program) : List Int :=
  let own := (table.sides program).map fun members =>
    total (members.map (·.score))
  if program.header.teamMode then
    (table.teamScores.zip own).map fun (team, members) => team + members
  else
    own

/-- The sum of a number over the members of each side. -/
def sideSums (table : Table) (program : Program) (number : Player → Int) :
    List Int :=
  (table.sides program).map fun members => total (members.map number)

/-- The value of the best hand of each side, nothing for a side without one.
Folded hands count only when everyone folded. -/
def sideBestHands (table : Table) (program : Program) : List (Option Int) :=
  let anyoneIn := table.players.any (fun player => !player.folded)
  (table.sides program).map fun members =>
    let shown := members.filter (fun player => !player.folded || !anyoneIn)
    (shown.map (fun player => program.handValue player.hand)).max?

/-- The number of each side that a win condition watches, nothing where a side
has none. -/
def tracked (table : Table) (program : Program) (kind : WinKind) :
    List (Option Int) :=
  match kind with
  | .emptyHand | .captureAll =>
      (table.sideSums program (fun player => player.hand.length)).map some
  | .mostTricks | .fewestTricks =>
      (table.sideSums program (·.tricks)).map some
  | .mostChips => (table.sideSums program (·.chips)).map some
  | .bestHand => table.sideBestHands program
  | _ => (table.sideScores program).map some

end Table

/-! ### Thresholds and leaders -/

/-- Whether a number is on the right side of a threshold. A missing number is
below every threshold. -/
def WinCondition.reached (condition : WinCondition) (value : Option Int) :
    Bool :=
  match condition.side, value with
  | .atMost, none => true
  | .atMost, some value => value ≤ condition.threshold
  | _, none => false
  | _, some value => value ≥ condition.threshold

/-- Whether the first number is the better one; a missing number is lower than
any other. -/
def betterValue (preferHigh : Bool) (left right : Option Int) : Bool :=
  let (low, high) := if preferHigh then (right, left) else (left, right)
  match low, high with
  | none, some _ => true
  | some low, some high => low < high
  | _, none => false

/-- The place of the best number and whether it is shared, given the best one
so far and the numbers that follow it. -/
def uniqueBestFrom (preferHigh : Bool) :
    (bestSide : Nat) → (best : Option Int) → (tied : Bool) →
      List (Option Int × Nat) → Outcome
  | bestSide, _, tied, [] => if tied then .draw else .winner bestSide
  | bestSide, best, tied, (value, side) :: rest =>
      if value = best then
        uniqueBestFrom preferHigh bestSide best true rest
      else if betterValue preferHigh value best then
        uniqueBestFrom preferHigh side value false rest
      else
        uniqueBestFrom preferHigh bestSide best tied rest

/-- The side with the best number, a draw if the best number is shared. -/
def uniqueBest (preferHigh : Bool) : List (Option Int) → Outcome
  | [] => .open
  | first :: rest => uniqueBestFrom preferHigh 0 first false (rest.zipIdx 1)

/-- The first side of which something holds. -/
def firstSide {α : Type} (sides : List α) (holds : α → Bool) : Outcome :=
  match sides.findIdx? holds with
  | some side => .winner side
  | none => .open

namespace Table

/-! ### Win conditions -/

/-- Whether some side has reached the threshold of a win condition. -/
def anyReached (table : Table) (program : Program)
    (condition : WinCondition) : Bool :=
  (table.tracked program condition.kind).any condition.reached

/-- Whether a win condition is to be looked at. -/
def triggered (table : Table) (program : Program)
    (condition : WinCondition) : Bool :=
  match condition.trigger with
  | .immediate => true
  | .thresholdReached => table.anyReached program condition
  | .allHandsEmpty => table.handsEmpty
  | .deckAndHandsEmpty => table.deck.isEmpty && table.handsEmpty
  | .showdown => table.showdownResolved
  | .unknown _ _ => false

/-- What a win condition makes of the table once it is looked at. A deal that
leaves a hand empty is no win, and an unknown condition never ends a game. -/
def outcomeOf (table : Table) (program : Program)
    (condition : WinCondition) : Outcome :=
  let best (preferHigh : Bool) :=
    uniqueBest preferHigh (table.tracked program condition.kind)
  match condition.kind with
  | .emptyHand =>
      if table.actions = 0 then
        .open
      else
        firstSide (table.sides program) fun members =>
          members.any (fun player => player.hand.isEmpty)
  | .highScore =>
      if table.anyReached program condition then best true else .open
  | .firstToScore =>
      firstSide (table.sideScores program) fun score =>
        condition.reached (some score)
  | .captureAll =>
      firstSide (table.sideSums program (fun player => player.hand.length))
        fun cards => cards = table.totalCards
  | .lowScore =>
      if table.anyReached program condition then best false else .open
  | .allHandsEmpty => if table.handsEmpty then best false else .open
  | .mostTricks | .mostChips | .bestHand | .mostCaptured => best true
  | .fewestTricks => best false
  | .unknown _ _ => .open

/-- What a win condition makes of the table, if it ends the game. -/
def ending? (table : Table) (program : Program) (condition : WinCondition) :
    Option Outcome :=
  if table.triggered program condition then
    match table.outcomeOf program condition with
    | .open => none
    | outcome => some outcome
  else
    none

/-- How the game stands: the first win condition that ends it decides. -/
def outcome (table : Table) (program : Program) : Outcome :=
  (program.winConditions.findSome? (table.ending? program)).getD .open

end Table

end Croupier
