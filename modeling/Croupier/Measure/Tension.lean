/-
Tension: how the lead changes hands in the course of a game.
-/

import Croupier.Binary64
import Croupier.Measure.Standing

namespace Croupier

/-- What was seen of the lead so far. -/
structure Tension where
  standing : Standing
  /-- The team of each seat where teams lead, no entries where seats do. -/
  teams : List Int := []
  /-- Who led, the latest turn first; nobody where first place was shared. -/
  history : List (Option Int) := []
  /-- The last one who was seen in front. -/
  current : Option Int := none
  changes : Nat := 0
  closest : Float := 1.0

/-- What a finished game is said to have been like. -/
structure TensionReport where
  leadChanges : Int := 0
  closestMargin : Binary64 := .ofFloat 1.0
  /-- The part of the game after which the winner never lost the lead. -/
  decisivePart : Binary64 := .ofFloat 1.0
  turns : Nat := 0

namespace Tension

/-- The tension of a game that is about to begin. -/
def ofProgram (program : Program) : Tension where
  standing := Standing.ofProgram program
  teams := if program.header.teamMode then program.seatTeams else []

/-- Who leads: a seat, or its team where teams lead. -/
def leader? (tension : Tension) (table : Table) : Option Int := do
  let seat ← tension.standing.leader? table
  if tension.teams.isEmpty then
    some seat
  else
    tension.teams[seat.toNat]?.filter (fun team => team ≥ 0)

/-- Enters who leads after a turn. A shared first place is no change of the
lead. -/
def enter (tension : Tension) (leader : Option Int) : Tension :=
  { tension with
    history := leader :: tension.history
    current := leader.or tension.current
    changes :=
      match leader, tension.current with
      | some new, some old =>
          if new = old then tension.changes else tension.changes + 1
      | _, _ => tension.changes }

def update (tension : Tension) (table : Table) : Tension :=
  let margin := tension.standing.margin table
  { tension.enter (tension.leader? table) with
    closest := if margin < tension.closest then margin else tension.closest }

/-- The number of turns before the winner took the lead for good. -/
def decisiveTurn (tension : Tension) (winner : Int) : Nat :=
  tension.history.length
    - (tension.history.takeWhile (fun leader => leader = some winner)).length

/-- The part of the game after which the winner never lost the lead, all of it
if nobody won. -/
def decisivePart (tension : Tension) (winner : Int) : Float :=
  if winner < 0 || tension.history.isEmpty then
    1.0
  else
    (tension.decisiveTurn winner).toFloat / tension.history.length.toFloat

def report (tension : Tension) (winner : Int) : TensionReport where
  leadChanges := tension.changes
  closestMargin := tension.closest
  decisivePart := tension.decisivePart winner
  turns := tension.history.length

end Tension

end Croupier
