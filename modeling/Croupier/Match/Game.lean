/-
One whole game: from the deal to a winner, a draw, the turn limit, or trouble.

Each seat has a strategy of its own. The game is watched for tension once a
turn and for interaction at every action.
-/

import Croupier.Match.Settings
import Croupier.Measure.Interaction
import Croupier.Measure.Tension
import Croupier.Random.Seed
import Croupier.Strategy.Choose
import Croupier.Table.Pool

namespace Croupier

/-- Why a game has no regular end. -/
inductive Trouble where
  | stuck (message : String)
  | fault (message : String)
  deriving DecidableEq, Repr

namespace Trouble

def message : Trouble → String
  | stuck message | fault message => message

def name : Trouble → String
  | stuck _ => "stuck"
  | fault _ => "fault"

end Trouble

/-- What is known about a game after its end. -/
structure GameResult where
  winner : Int := nobody
  winningTeam : Int := nobody
  turns : Int := 0
  actions : Nat := 0
  truncated : Bool := false
  trouble : Option Trouble := none
  tension : TensionReport := {}
  interaction : InteractionReport := {}

/-- How a game ended that did not break off. -/
inductive Ending where
  | finished (outcome : Outcome)
  | turnLimit
  | endlessTurn (turn actions : Int)
  | noMove (seat phase : Int) (kind : String) (turn : Int)
  deriving DecidableEq, Repr

namespace Ending

/-- Why a game is stuck, if it is. -/
def trouble? : Ending → Option Trouble
  | finished _ | turnLimit => none
  | endlessTurn turn actions =>
      some (.stuck ("Turn " ++ toString turn ++ " did not end after "
        ++ toString actions ++ " actions."))
  | noMove seat phase kind turn =>
      some (.stuck ("Participant " ++ toString seat
        ++ " has no legal move in phase " ++ toString phase ++ " (" ++ kind
        ++ ") on turn " ++ toString turn ++ "."))

def winner : Ending → Int
  | finished (.winner side) => side
  | _ => nobody

end Ending

/-- What accompanies a game in progress besides its table. -/
structure Watch where
  strategists : List Strategist
  tension : Tension
  interaction : Interaction
  /-- Actions since the turn began. -/
  turnActions : Int := 0
  actions : Nat := 0

namespace Watch

/-- The watch over a game that is about to begin. -/
def begin (program : Program) (settings : Settings) (seed : UInt64)
    (seats : Nat) : Watch where
  strategists := (List.range seats).map fun seat =>
    Strategist.seeded (settings.strategyOf seat)
      (Seed.derive seed seat.toUInt64) settings.search
  tension := Tension.ofProgram program
  interaction := { threshold := settings.forcedThreshold }

/-- Enters an action, given the table before and after it. -/
def afterAction (watch : Watch) (program : Program) (choice : Choice)
    (before after : Table) : Watch :=
  let watched :=
    { watch with
      interaction := watch.interaction.afterAction after program choice
      actions := watch.actions + 1 }
  if after.turn = before.turn then
    { watched with turnActions := watch.turnActions + 1 }
  else
    { watched with
      tension := watch.tension.update after
      turnActions := 0 }

end Watch

namespace Play

/-! ### The course of a game -/

/-- Lets the strategy of the active participant choose one of the moves. -/
def chooseMove (program : Program) (moves : List Move) (watch : Watch) :
    Play (Option Move × Watch) := do
  let table ← get
  match watch.strategists[table.active.toNat]? with
  | none => return (none, watch)
  | some strategist =>
      match strategist.choose table program moves table.active with
      | .error fault => throw fault
      | .ok (place, strategist) =>
          return (moves[place]?,
            { watch with
              strategists :=
                watch.strategists.set table.active.toNat strategist })

/-- Plays on until the game ends, for so many actions at most. The limits of
turns and of actions in a turn end any game before that, if the number is
their product at least. -/
def course (program : Program) (settings : Settings) :
    (fuel : Nat) → Watch → Play (Ending × Watch)
  | 0, watch => return (.turnLimit, watch)
  | fuel + 1, watch => do
      let table ← get
      if table.turn ≥ program.header.maxTurns then
        return (.turnLimit, watch)
      if watch.turnActions ≥ settings.maxActionsPerTurn then
        return (.endlessTurn table.turn watch.turnActions, watch)
      let moves := table.moves program
      let watch :=
        { watch with
          interaction :=
            watch.interaction.beforeAction table program table.active }
      if moves.isEmpty then
        if table.canPass program then
          let outcome ← pass program
          let watch := watch.afterAction program .pass table (← get)
          if outcome ≠ .open then
            return (.finished outcome, watch)
          course program settings fuel watch
        else
          let kind := ((program.phase? table.phase).map Phase.name).getD ""
          return (.noMove table.active table.phase kind table.turn, watch)
      else
        let (chosen, watch) ← chooseMove program moves watch
        match chosen with
        | none => return (.turnLimit, watch)
        | some move =>
            let outcome ← perform program move
            let watch := watch.afterAction program move.choice table (← get)
            if outcome ≠ .open then
              return (.finished outcome, watch)
            course program settings fuel watch

/-- More actions than any game has within its limits. -/
def actionLimit (program : Program) (settings : Settings) : Nat :=
  program.header.maxTurns.toNat * settings.maxActionsPerTurn.toNat + 1

/-- The result of a game that did not break off. -/
def result (program : Program) (ending : Ending) (watch : Watch)
    (final : Table) : GameResult :=
  let winner := ending.winner
  { winner := if program.header.teamMode then nobody else winner
    winningTeam := if program.header.teamMode then winner else nobody
    turns := final.turn
    actions := watch.actions
    truncated := ending = .turnLimit
    trouble := ending.trouble?
    tension := watch.tension.report winner
    interaction := watch.interaction.report }

def wholeGame (program : Program) (seed : UInt64) (settings : Settings) :
    Play GameResult := do
  Table.start program seed
  let watch := Watch.begin program settings seed (← get).seats
  let (ending, watch) ←
    course program settings (actionLimit program settings) watch
  return result program ending watch (← get)

end Play

/-- The result of a game that broke off. -/
def GameResult.ofFault (fault : Fault) : GameResult :=
  { trouble := some (.fault fault.message) }

/-- Plays a game on a table of the pool. A fault becomes the result, and the
table goes back to the pool in any case. -/
def playGame (program : Program) (seed : UInt64) (settings : Settings)
    (pool : Pool) : GameResult × Pool :=
  let (handle, pool) := pool.acquire
  match Play.wholeGame program seed settings handle.table with
  | .ok result table => (result, pool.release { handle with table })
  | .error fault table =>
      (.ofFault fault, pool.release { handle with table })

/-- Plays games with the given seeds one after the other over one pool. -/
def playGames (program : Program) (settings : Settings) :
    (seeds : List UInt64) → Pool → List GameResult × Pool
  | [], pool => ([], pool)
  | seed :: rest, pool =>
      let (result, pool) := playGame program seed settings pool
      let (results, pool) := playGames program settings rest pool
      (result :: results, pool)

end Croupier
