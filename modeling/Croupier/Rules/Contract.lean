/-
Contracts: what bids and tricks are worth at the end of a hand.
-/

import Croupier.Program.Query
import Croupier.Table.Basic
import Croupier.Total

namespace Croupier

/-- What one side scores for a hand, and the bags it carries on. -/
structure ContractResult where
  points : Int
  bags : Int
  deriving DecidableEq, Repr

/-- What a nil bid scores: the bonus without a trick, the penalty with one. -/
def ContractValues.nilPoints (values : ContractValues) (player : Player) :
    Int :=
  if !player.nilBid then
    0
  else if player.tricks = 0 then
    values.nilBonus
  else
    -values.nilPenalty

/-- What a participant adds to the contract of the side. -/
def Player.contract (player : Player) : Int :=
  if player.nilBid then 0 else max player.bid 0

/-- What a participant adds to the tricks that count for the contract. -/
def Player.contractTricks (player : Player) : Int :=
  if player.nilBid then 0 else player.tricks

/-- Scores one side. The contract is the sum of the bids other than nil.
Overtricks become bags, and as soon as the bags reach their limit they cost the
penalty and the limit is taken off. -/
def ContractValues.score (values : ContractValues) (members : List Player)
    (bags : Int) : ContractResult :=
  let nilPoints := total (members.map values.nilPoints)
  let contract := total (members.map Player.contract)
  let tricks := total (members.map Player.contractTricks)
  if tricks ≥ contract then
    let overtricks := tricks - contract
    let points := nilPoints + contract * values.pointsPerTrickBid
      + overtricks * values.overtrickPoints
    let bags := bags + overtricks
    if values.bagLimit > 0 && bags ≥ values.bagLimit then
      ⟨points - values.bagPenalty, bags - values.bagLimit⟩
    else
      ⟨points, bags⟩
  else
    ⟨nilPoints - contract * values.failedContractPenalty, bags⟩

namespace Table

/-- Scores the participants of the given seats as one side. -/
def contractOf (table : Table) (values : ContractValues) (seats : List Int)
    (bags : Int) : ContractResult :=
  values.score (seats.map table.player) bags

def teamContracts (table : Table) (program : Program) : List ContractResult :=
  (program.teams.zip table.teamBags).map fun (members, bags) =>
    table.contractOf program.contractValues members bags

/-- Scores the hand: each team in team mode, each participant otherwise. -/
def scoreContracts (table : Table) (program : Program) : Table :=
  if program.header.teamMode then
    let results := table.teamContracts program
    { table with
      teamScores :=
        (table.teamScores.zip results).map fun (score, result) =>
          score + result.points
      teamBags := results.map (·.bags) }
  else
    { table with
      players := table.players.map fun player =>
        let result := program.contractValues.score [player] player.bags
        { player with
          score := player.score + result.points
          bags := result.bags } }

end Table

end Croupier
