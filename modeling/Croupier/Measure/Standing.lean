/-
Standings: who is ahead, by what the ways to win reward, and by how much.
-/

import Croupier.Program.Query
import Croupier.Table.Basic
import Croupier.Total

namespace Croupier

/-- What participants are compared by. -/
inductive Standing where
  | score
  | handSize
  | tricks
  | trickAvoidance
  | chips
  deriving DecidableEq, Repr

namespace Standing

def all : List Standing :=
  [score, handSize, tricks, trickAvoidance, chips]

def name : Standing → String
  | score => "Score"
  | handSize => "Hand size"
  | tricks => "Tricks"
  | trickAvoidance => "Trick avoidance"
  | chips => "Chips"

/-- What a participant is worth in a standing: more is better. Small hands and
few tricks lead in two of them. -/
def merit (standing : Standing) (player : Player) : Int :=
  match standing with
  | score => player.score
  | handSize => -player.hand.length
  | tricks => player.tricks
  | trickAvoidance => -player.tricks
  | chips => player.chips

/-- The best two merits at a table of two participants or more. -/
def bestTwo? (standing : Standing) (table : Table) : Option (Int × Int) := do
  let merits := table.players.map standing.merit
  let best ← merits.max?
  let second ← (merits.erase best).max?
  return (best, second)

/-- The seat in front, if first place is not shared. -/
def leader? (standing : Standing) (table : Table) : Option Int := do
  let (best, second) ← standing.bestTwo? table
  if best = second then
    none
  table.allSeats.find? fun seat => standing.merit (table.player seat) = best

/-- What the gap between the best two is measured against. -/
def scale (standing : Standing) (table : Table) (best second : Int) : Int :=
  match standing with
  | score => max best.natAbs second.natAbs
  | handSize => max (-best) (-second)
  | tricks | trickAvoidance => total (table.players.map (·.tricks))
  | chips => total (table.players.map (·.chips))

/-- A gap as a share of a scale, between zero and one. -/
def share (gap scale : Int) : Float :=
  if scale ≤ 0 then
    0.0
  else
    let share := Float.ofInt gap / Float.ofInt scale
    if share < 0.0 then 0.0 else if share > 1.0 then 1.0 else share

/-- How far the first is ahead of the second, as a share of what there is. -/
def margin (standing : Standing) (table : Table) : Float :=
  let (best, second) := (standing.bestTwo? table).getD (0, 0)
  share (best - second) (standing.scale table best second)

/-- The standing that a way to win calls for, if any. -/
def ofWin? : WinKind → Option Standing
  | .emptyHand => some handSize
  | .highScore => some score
  | .lowScore | .fewestTricks => some trickAvoidance
  | .mostTricks => some tricks
  | .mostChips => some chips
  | _ => none

/-- The standing that suits a program: by its first telling way to win, else by
its phases, else by score. -/
def ofProgram (program : Program) : Standing :=
  match program.winConditions.findSome? (fun win => ofWin? win.kind) with
  | some standing => standing
  | none =>
      if program.hasPhase .betting then
        chips
      else if program.hasPhase .trick then
        tricks
      else
        score

end Standing

end Croupier
