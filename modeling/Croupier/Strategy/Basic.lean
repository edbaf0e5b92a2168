/-
Strategies by name, and how much a search may cost.
-/

import Croupier.Text.Ascii

namespace Croupier

inductive StrategyKind where
  | random
  | greedy
  | treeSearch
  deriving DecidableEq, Repr

namespace StrategyKind

def name : StrategyKind → String
  | random => "random"
  | greedy => "greedy"
  | treeSearch => "mcts"

/-- The strategy of a name, in letters of either case and between blanks. -/
def ofName? (text : String) : Option StrategyKind :=
  let wanted := Text.lowered (Text.trimmed text)
  [random, greedy, treeSearch].find? (fun kind => kind.name = wanted)

/-- What is said about a name that no strategy has. -/
def unknownName (text : String) : String :=
  "Unknown strategy \"" ++ text ++ "\". Choose one of random, greedy, mcts."

end StrategyKind

/-- How much a tree search does for each choice. -/
structure SearchSettings where
  simulations : Int := 200
  /-- The most actions of a playout. -/
  depth : Int := 400
  /-- The weight of exploration; single precision is enough for it. -/
  exploration : Float := (1.414 : Float32).toFloat

end Croupier
