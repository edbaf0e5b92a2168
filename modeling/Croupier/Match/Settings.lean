/-
Settings of a simulation.
-/

import Croupier.Strategy.Basic

namespace Croupier

/-- How many games are played, by which strategies, and within which limits. -/
structure Settings where
  games : Int := 100
  /-- The seed of the first game; each later game takes the next one. -/
  seed : UInt64 := 1
  threads : Int := 1
  /-- A strategy for each seat; the last one serves all remaining seats. -/
  strategies : List StrategyKind := [.random]
  search : SearchSettings := {}
  forcedThreshold : Float := 0.3
  /-- A turn of more actions counts as stuck. -/
  maxActionsPerTurn : Int := 512

/-- The strategy of a seat. Without any strategy everyone plays at random. -/
def Settings.strategyOf (settings : Settings) (seat : Nat) : StrategyKind :=
  (settings.strategies[seat]?.or settings.strategies.getLast?).getD .random

end Croupier
