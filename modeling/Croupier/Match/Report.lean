/-
Reports: a summary as lines of text.

Turns have two places behind the point, percentages one, all other averages
three.
-/

import Croupier.Match.Summary
import Croupier.Text.FixedPoint
import Croupier.Text.Tokens

namespace Croupier.Summary

def countsText (counts : List Nat) : String :=
  Text.joined ", " (counts.map toString)

/-- A number with three places. -/
def threePlaces (value : Binary64) : String :=
  FixedPoint.format value 3

/-- The lines of a report on the games of a given name. -/
def reportLines (summary : Summary) (name : String) : List String :=
  let averages := summary.averages
  ["Results for " ++ name ++ " over " ++ toString summary.games ++ " games:",
    "Wins by seat: " ++ countsText summary.winsBySeat]
  ++ (if summary.winsByTeam.isEmpty then
      []
    else
      ["Wins by team: " ++ countsText summary.winsByTeam])
  ++ ["Draws: " ++ toString summary.draws ++ " ("
      ++ toString summary.truncated ++ " reached the turn limit)",
    "Stuck games: " ++ toString summary.stuck ++ ", faulted games: "
      ++ toString summary.faulted]
  ++ summary.messages.map ("    " ++ ·)
  ++ ["Average turns: " ++ FixedPoint.format averages.turns 2,
    "Average lead changes: " ++ threePlaces averages.leadChanges
      ++ ", closest margin: " ++ threePlaces averages.closestMargin
      ++ ", decisive turn: " ++ FixedPoint.percent averages.decisivePart 1,
    "Interaction: " ++ threePlaces averages.interaction
      ++ " (disruption " ++ threePlaces averages.disruption
      ++ ", forced response " ++ threePlaces averages.forcedResponse
      ++ ", contention " ++ threePlaces averages.contention ++ ")",
    "Simulated in " ++ threePlaces summary.seconds ++ "s."]

def report (summary : Summary) (name : String) : String :=
  String.join ((summary.reportLines name).map (· ++ "\n"))

end Croupier.Summary
