/-
Turns: the order of phases and participants, and whole actions.

An action carries out a move or a pass, moves on to the phase or the seat that
comes next, looks at the win conditions, and deals a new hand if the last one
is over and nobody has won.
-/

import Croupier.Rules.Apply
import Croupier.Rules.Winning
import Croupier.Table.Deal

namespace Croupier

namespace Table

/-! ### The turn order -/

/-- Makes the next seat in the direction of play the active one. -/
def advanceOne (table : Table) : Table :=
  { table with active := table.nextSeat table.active }

/-- Hands the turn on, past as many participants as are to be skipped. -/
def advance (table : Table) : Table :=
  { (1 + table.skips).toNat.repeat advanceOne table with skips := 0 }

/-- Ends the turn. The winner of a trick leads next, skips or not. -/
def endTurn (table : Table) (leader : Int) : Table :=
  let ended := { table with phase := 0, step := 0, turn := table.turn + 1 }
  if leader < 0 then
    ended.advance
  else
    { ended with active := leader, skips := 0 }

/-- Moves on to the next phase, or ends the turn after the last one. -/
def completePhase (table : Table) (program : Program) (leader : Int) :
    Table :=
  let moved := { table with phase := table.phase + 1, step := 0 }
  if moved.phase ≥ (program.phases.length : Int) then
    moved.endTurn leader
  else
    moved

/-- Whether a phase in which cards are played one by one takes no more. -/
def cardPhaseDone (table : Table) (program : Program) : Bool :=
  (table.hand table.active).isEmpty
    || match program.phase? table.phase with
      | some (.play phase) => table.step ≥ phase.maxCards
      | some (.discard phase) => table.step ≥ phase.count
      | _ => true

/-- What follows a move. Who answered a claim goes on to lay a card. -/
def afterMove (table : Table) (program : Program) (choice : Choice)
    (leader : Int) : Table :=
  match choice with
  | .draw _ => table.completePhase program leader
  | .play _ _ | .discard _ _ =>
      let stepped := { table with step := table.step + 1 }
      if stepped.cardPhaseDone program then
        stepped.completePhase program leader
      else
        stepped
  | .challenge | .accept => table
  | .trick _ | .bet _ | .claim _ | .bid _ => table.endTurn leader
  | .pass | .unknown _ _ => table

def afterPass (table : Table) (program : Program) (phase : Phase)
    (leader : Int) : Table :=
  match phase with
  | .trick _ | .betting _ | .claim _ => table.endTurn leader
  | .draw _ | .play _ | .discard _ | .bidding _ =>
      table.completePhase program leader

/-- Counts an action, looks at the win conditions, and deals the next hand if
one is due. -/
def finishAction (table : Table) (program : Program) : Outcome × Table :=
  let counted := { table with actions := table.actions + 1 }
  let outcome := counted.outcome program
  if outcome = .open ∧ counted.handOver then
    (outcome, counted.nextHand program)
  else
    (outcome, counted)

end Table

namespace Play

/-! ### Actions -/

def pass (program : Program) : Play Outcome := do
  let table ← get
  match program.phase? table.phase with
  | none => throw .passOutsideTurn
  | some phase =>
      step fun table =>
        let (leader, passed) := table.passIn program phase
        (passed.afterPass program phase leader).finishAction program

def perform (program : Program) (move : Move) : Play Outcome := do
  let table ← get
  if move.phase ≠ table.phase then
    throw (.wrongPhase move.phase table.phase)
  match move.choice with
  | .pass => pass program
  | choice =>
      let leader ← apply program table.active move
      step fun table =>
        (table.afterMove program choice leader).finishAction program

end Play

end Croupier
