/-
Summaries: the results of many games in one.

Games in trouble are counted apart; the averages are taken over all others, in
the order of the results.
-/

import Croupier.Match.Game
import Croupier.Program.Decode

namespace Croupier

/-- What many games were like on average. -/
structure Averages where
  turns : Binary64 := .ofFloat 0.0
  leadChanges : Binary64 := .ofFloat 0.0
  closestMargin : Binary64 := .ofFloat 0.0
  decisivePart : Binary64 := .ofFloat 0.0
  disruption : Binary64 := .ofFloat 0.0
  forcedResponse : Binary64 := .ofFloat 0.0
  contention : Binary64 := .ofFloat 0.0
  interaction : Binary64 := .ofFloat 0.0

namespace Averages

def add (sums : Averages) (result : GameResult) : Averages where
  turns := sums.turns + Binary64.ofFloat (Float.ofInt result.turns)
  leadChanges := sums.leadChanges
    + Binary64.ofFloat (Float.ofInt result.tension.leadChanges)
  closestMargin := sums.closestMargin + result.tension.closestMargin
  decisivePart := sums.decisivePart + result.tension.decisivePart
  disruption := sums.disruption + result.interaction.disruption
  forcedResponse := sums.forcedResponse + result.interaction.forcedResponse
  contention := sums.contention + result.interaction.contention
  interaction := sums.interaction + result.interaction.score

def scale (sums : Averages) (factor : Binary64) : Averages where
  turns := sums.turns * factor
  leadChanges := sums.leadChanges * factor
  closestMargin := sums.closestMargin * factor
  decisivePart := sums.decisivePart * factor
  disruption := sums.disruption * factor
  forcedResponse := sums.forcedResponse * factor
  contention := sums.contention * factor
  interaction := sums.interaction * factor

/-- The averages over games, all zero without any. -/
def ofResults (results : List GameResult) : Averages :=
  if results.isEmpty then
    {}
  else
    (results.foldl add {}).scale
      (.ofFloat (1.0 / results.length.toFloat))

end Averages

/-- The results of many games. -/
structure Summary where
  games : Nat
  winsBySeat : List Nat
  /-- No entries outside team mode. -/
  winsByTeam : List Nat
  draws : Nat
  truncated : Nat
  stuck : Nat
  faulted : Nat
  averages : Averages
  /-- The first few messages of games in trouble. -/
  messages : List String
  seconds : Binary64 := .ofFloat 0.0

/-- How many messages a summary keeps. -/
def maxMessages : Nat := 10

namespace GameResult

def isRegular (result : GameResult) : Bool :=
  result.trouble.isNone

def isStuck (result : GameResult) : Bool :=
  match result.trouble with
  | some (.stuck _) => true
  | _ => false

def wonBySeat (result : GameResult) (seat : Int) : Bool :=
  result.winner = seat

/-- Whether a team won the game, and no seat did. -/
def wonByTeam (result : GameResult) (team : Int) : Bool :=
  result.winner < 0 && result.winningTeam = team

def isDraw (result : GameResult) : Bool :=
  result.winner < 0 && result.winningTeam < 0

end GameResult

namespace Summary

/-- The summary of results. -/
def ofResults (program : Program) (results : List GameResult) : Summary :=
  let regular := results.filter (·.isRegular)
  let troubled := results.filter (fun result => !result.isRegular)
  { games := results.length
    winsBySeat := (List.range program.header.participants.toNat).map
      fun (seat : Nat) => regular.countP (·.wonBySeat seat)
    winsByTeam := (List.range program.teamCount).map
      fun (team : Nat) => regular.countP (·.wonByTeam team)
    draws := regular.countP (·.isDraw)
    truncated := regular.countP (·.truncated)
    stuck := troubled.countP (·.isStuck)
    faulted := troubled.countP (fun result => !result.isStuck)
    averages := Averages.ofResults regular
    messages :=
      (troubled.filterMap (·.trouble)).take maxMessages |>.map
        Trouble.message }

end Summary

/-! ### Batches -/

def Settings.seeds (settings : Settings) : List UInt64 :=
  (List.range settings.games.toNat).map fun game =>
    settings.seed + game.toUInt64

/-- Plays all games that the settings ask for. -/
def runBatch (program : Program) (settings : Settings) : Summary :=
  Summary.ofResults program (playGames program settings settings.seeds {}).1

/-- Plays all games of a compiled program. -/
def simulateCompiled (bytes : List UInt8) (settings : Settings) :
    Except ParseError Summary := do
  let program ← Program.decode bytes
  return runBatch program settings

end Croupier
