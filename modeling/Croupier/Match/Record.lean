/-
Records: a summary as JSON, for other programs to read. Averages have six
places.
-/

import Croupier.Match.Report

namespace Croupier.Summary.Record

/-- How a character is written inside a JSON string. -/
def escapeChar (character : Char) : String :=
  if character = '"' then
    "\\\""
  else if character = '\\' then
    "\\\\"
  else if character = '\n' then
    "\\n"
  else
    character.toString

def quoted (text : String) : String :=
  "\"" ++ String.join (text.toList.map escapeChar) ++ "\""

def array (items : List String) : String :=
  "[" ++ Text.joined ", " items ++ "]"

def object (fields : List (String × String)) : String :=
  "\x7b" ++ Text.joined ", "
    (fields.map fun (name, value) => quoted name ++ ": " ++ value) ++ "\x7d"

/-- A number with six places. -/
def number (value : Binary64) : String :=
  FixedPoint.format value 6

def settings (settings : Settings) : String :=
  object
    [("Games", toString settings.games),
      ("Seed", toString settings.seed.toNat),
      ("Threads", toString settings.threads),
      ("Strategies",
        array (settings.strategies.map fun kind => quoted kind.name))]

def averages (averages : Averages) : String :=
  object
    [("Turns", number averages.turns),
      ("Lead Changes", number averages.leadChanges),
      ("Closest Margin", number averages.closestMargin),
      ("Decisive Turn Percent", number averages.decisivePart),
      ("Disruption", number averages.disruption),
      ("Forced Response", number averages.forcedResponse),
      ("Contention", number averages.contention),
      ("Interaction", number averages.interaction)]

/-- The record of a summary of games of a given name. -/
def text (summary : Summary) (name : String) (used : Settings) : String :=
  object
    [("Program", quoted name),
      ("Settings", settings used),
      ("Total Games", toString summary.games),
      ("Wins By Seat", array (summary.winsBySeat.map toString)),
      ("Wins By Team", array (summary.winsByTeam.map toString)),
      ("Draws", toString summary.draws),
      ("Truncated Games", toString summary.truncated),
      ("Stuck", toString summary.stuck),
      ("Faults", toString summary.faulted),
      ("Messages", array (summary.messages.map quoted)),
      ("Averages", averages summary.averages),
      ("Seconds Elapsed", number summary.seconds)] ++ "\n"

end Croupier.Summary.Record
