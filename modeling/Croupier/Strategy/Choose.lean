/-
Choosing a move: at random, by one step of lookahead, or by tree search.

A strategy owns its generator. It never looks at the cards that its participant
cannot see: lookahead and search work on imagined tables.
-/

import Croupier.Strategy.Basic
import Croupier.Strategy.Imagine

namespace Croupier

/-- A strategy at work for one participant. -/
structure Strategist where
  kind : StrategyKind
  search : SearchSettings
  generator : Generator

namespace Strategist

/-- A strategy with a generator of its own. -/
def seeded (kind : StrategyKind) (seed : UInt64) (search : SearchSettings) :
    Strategist :=
  { kind, search, generator := .seeded seed }

/-! ### One step of lookahead -/

/-- The worth of a won game, which no position reaches otherwise in practice. -/
def winValue : Int := 1000000

/-- What a position is worth to a participant, by what the ways to win reward:
score, chips, tricks and the size of the hand. -/
def positionValue (table : Table) (program : Program) (outcome : Outcome)
    (seat : Int) : Int :=
  match outcome with
  | .winner side =>
      if table.wonBy program seat (.winner side) then winValue else -winValue
  | .draw => 0
  | .open =>
      let player := table.player seat
      let scoreWeight :=
        if program.hasWin .lowScore || program.hasWin .allHandsEmpty then
          -10
        else
          10
      let trickWeight := if program.hasWin .fewestTricks then -5 else 5
      let handWeight :=
        if program.hasWin .emptyHand then
          -3
        else if program.hasWin .captureAll then
          3
        else
          0
      scoreWeight * player.score + player.chips + trickWeight * player.tricks
        + handWeight * player.hand.length

/-- Makes a move on an imagined table. -/
def tryMove (table : Table) (program : Program) (seat : Int) (move : Move)
    (generator : Generator) :
    Except Fault (Outcome × Table × Generator) :=
  let (imagined, generator) := table.imagine seat generator
  match Play.perform program move imagined with
  | .ok outcome after => .ok (outcome, after, generator)
  | .error fault _ => .error fault

/-- The values of the positions after each of the moves. -/
def lookAhead (table : Table) (program : Program) (seat : Int) :
    List Move → Generator → Except Fault (List Int × Generator)
  | [], generator => .ok ([], generator)
  | move :: rest, generator => do
      let (outcome, after, generator) ←
        tryMove table program seat move generator
      let value := positionValue after program outcome seat
      let (values, generator) ← lookAhead table program seat rest generator
      return (value :: values, generator)

def greatest (values : List Int) : List Nat :=
  match values.max? with
  | none => []
  | some best =>
      (values.zipIdx.filter (fun entry => entry.1 = best)).map (·.2)

/-- One of the moves that lead to the most valuable positions. -/
def chooseGreedily (table : Table) (program : Program) (moves : List Move)
    (seat : Int) (generator : Generator) :
    Except Fault (Nat × Generator) := do
  let (values, generator) ← lookAhead table program seat moves generator
  let best := greatest values
  let (place, generator) := generator.below best.length
  return (best.getD place 0, generator)

/-! ### Tree search -/

/-- What is known about a move: how often it was tried, and the half points that
this brought. -/
structure Trial where
  visits : Nat := 0
  halfPoints : Nat := 0
  deriving DecidableEq, Repr

/-- The upper confidence bound of a move after so many simulations. -/
def Trial.bound (trial : Trial) (exploration logTotal : Float) : Float :=
  let visits := trial.visits.toFloat
  trial.halfPoints.toFloat / 2.0 / visits
    + exploration * (logTotal / visits).sqrt

/-- The place of the first move with the greatest bound, given the best one so
far and the moves that follow it. -/
def highestBound (exploration logTotal : Float) :
    List (Trial × Nat) → (bestPlace : Nat) → (best : Float) → Nat
  | [], bestPlace, _ => bestPlace
  | (trial, place) :: rest, bestPlace, best =>
      let bound := trial.bound exploration logTotal
      if bound > best then
        highestBound exploration logTotal rest place bound
      else
        highestBound exploration logTotal rest bestPlace best

/-- The lowest finite number, which every bound exceeds. -/
def lowest : Float := Float.ofBits 0xFFEFFFFFFFFFFFFF

/-- Which move to try next: each once, in order, and then the one with the
greatest bound. -/
def select (trials : List Trial) (exploration : Float) (simulation : Nat) :
    Nat :=
  if simulation < trials.length then
    simulation
  else
    highestBound exploration simulation.toFloat.log trials.zipIdx 0 lowest

/-- Tries a move on an imagined table and plays on at random. Returns the half
points that this brings. -/
def simulate (table : Table) (program : Program) (seat : Int) (depth : Nat)
    (move : Move) (generator : Generator) :
    Except Fault (Nat × Generator) := do
  let (outcome, after, generator) ←
    tryMove table program seat move generator
  match outcome with
  | .open =>
      match Play.randomly program depth generator after with
      | .ok (outcome, generator) final =>
          return (final.reward program seat outcome, generator)
      | .error fault _ => throw fault
  | outcome => return (after.reward program seat outcome, generator)

/-- Runs so many simulations, the first of which has the given number. -/
def runSimulations (table : Table) (program : Program) (seat : Int)
    (search : SearchSettings) (moves : List Move) :
    (count : Nat) → (simulation : Nat) → List Trial → Generator →
      Except Fault (List Trial × Generator)
  | 0, _, trials, generator => .ok (trials, generator)
  | count + 1, simulation, trials, generator => do
      let place := select trials search.exploration simulation
      match moves[place]? with
      | none => return (trials, generator)
      | some move =>
          let (halfPoints, generator) ←
            simulate table program seat search.depth.toNat move generator
          let trials := trials.modify place fun trial =>
            { visits := trial.visits + 1
              halfPoints := trial.halfPoints + halfPoints }
          runSimulations table program seat search moves count
            (simulation + 1) trials generator

/-- The first of the moves that were tried most often, given the best one so
far and the moves that follow it. -/
def mostVisited : List (Trial × Nat) → (bestPlace bestVisits : Nat) → Nat
  | [], bestPlace, _ => bestPlace
  | (trial, place) :: rest, bestPlace, bestVisits =>
      if trial.visits > bestVisits then
        mostVisited rest place trial.visits
      else
        mostVisited rest bestPlace bestVisits

/-- The move that the search tries most often. -/
def chooseBySearch (table : Table) (program : Program) (moves : List Move)
    (seat : Int) (search : SearchSettings) (generator : Generator) :
    Except Fault (Nat × Generator) := do
  let (trials, generator) ←
    runSimulations table program seat search moves search.simulations.toNat 0
      (moves.map (fun _ => {})) generator
  return (mostVisited trials.zipIdx 0 0, generator)

/-! ### All strategies -/

/-- The place of the chosen one among the moves of a participant. Lookahead and
search take an only move without any thought. -/
def choose (strategist : Strategist) (table : Table) (program : Program)
    (moves : List Move) (seat : Int) : Except Fault (Nat × Strategist) := do
  let (place, generator) ←
    match strategist.kind with
    | .random => pure (strategist.generator.below moves.length)
    | .greedy =>
        if moves.length = 1 then
          pure (0, strategist.generator)
        else
          chooseGreedily table program moves seat strategist.generator
    | .treeSearch =>
        if moves.length = 1 then
          pure (0, strategist.generator)
        else
          chooseBySearch table program moves seat strategist.search
            strategist.generator
  return (place, { strategist with generator })

end Strategist

end Croupier
